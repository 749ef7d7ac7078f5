import LineShell.Script.Source
/-!
Reading scripts.

The readers call each other, as words hold scripts and scripts hold words. Each takes the readers
that it may call as a parameter; tying them together uses up one of a bounded number of levels, and
no reader goes a level deeper without having taken some of the text.
-/

set_option autoImplicit false

namespace LineShell

namespace Script

/-- Where a word stands, which says what ends it and what is quoted in it. -/
inductive Context where
  /-- Between the words of a command. -/
  | plain
  /-- Between double quotes. -/
  | quoted
  /-- Between braces, which may themselves be quoted. -/
  | braced (quoted : Bool)
  /-- Between double quotes that stand in quoted braces. -/
  | inner
  /-- In a document. -/
  | document
  /-- In an expression, with so many parentheses open. -/
  | expression (depth : Nat)
deriving DecidableEq, Repr

/-- Whether characters that stand for themselves are quoted in a context. -/
def Context.quotes : Context → Bool
  | .plain | .braced false => false
  | _ => true

/-- How a list of commands ends. -/
inductive Ending where
  /-- With its line. -/
  | line
  /-- With a token that no command starts with; there has to be a command. -/
  | token
  /-- The same, but there need not be a command. -/
  | tokenOrNothing
  /-- Behind a closing parenthesis; there need not be a command. -/
  | parenthesis
deriving DecidableEq, Repr

/-- The readers that a reader may call. -/
structure Readers where
  word : Context → Word → ReaderM Word
  list : Ending → ReaderM Script
  command : ReaderM Script

/-! ## Words -/

/-- A word with another piece at its end. -/
def Word.add (word : Word) (piece : Piece) : Word :=
  match word.getLast?, piece with
  | some (.literal front q), .literal text quoted =>
    if q = quoted then word.dropLast ++ [.literal (front ++ text) quoted] else word ++ [piece]
  | _, _ => word ++ [piece]

/-- A text up to a mark, and what is behind the mark; `none` if the mark is not there. -/
def upTo? (mark : Char) (text : List Char) : Option (List Char × List Char) :=
  let inner := text.takeWhile (· != mark)
  match text.drop inner.length with
  | [] => none
  | _ :: behind => some (inner, behind)

/-- The script between backquotes, without the backslashes that are taken away, and what is behind
it; `none` if nothing closes it. -/
def backquoted (quoted : Bool) : List Char → Option (List Char × List Char)
  | [] => none
  | '\x60' :: behind => some ([], behind)
  | '\\' :: '\n' :: rest => backquoted quoted rest
  | '\\' :: c :: rest => do
    let (text, behind) ← backquoted quoted rest
    if c = '\\' ∨ c = '\x60' ∨ c = '$' ∨ (quoted ∧ c = '"') then return (c :: text, behind)
    else return ('\\' :: c :: text, behind)
  | c :: rest => do
    let (text, behind) ← backquoted quoted rest
    return (c :: text, behind)

/-- Reads a whole text with a reader, in the line that the reader around it is in. -/
def readApart {α : Type} (text : List Char) (reader : ReaderM α) : ReaderM α := do
  let s ← get
  match reader { s with rest := text, taken := 0, pushed := none, active := [] } with
  | .ok a inner =>
    set { s with line := inner.line }
    return a
  | .error fault inner =>
    set { s with line := inner.line }
    throw fault

/-- The parameter of a character that is none of a name. -/
def special? (c : Char) : Option Parameter :=
  match c with
  | '#' => some .count
  | '@' => some .each
  | '*' => some .joined
  | '?' => some .status
  | '$' => some .process
  | '!' => some .background
  | '-' => some .options
  | _ => if c.isDigit then some (.argument (decimal [c])) else none

/-- Takes characters as long as they are of a kind. -/
def takeChars (kind : Char → Bool) : Nat → List Char → ReaderM (List Char)
  | 0, taken => return taken.reverse
  | count + 1, taken => do
    match ← ReaderM.peek with
    | some c =>
      if kind c then
        let _ ← ReaderM.next
        takeChars kind count (c :: taken)
      else return taken.reverse
    | none => return taken.reverse

/-- The name of a parameter at the start of what is left. -/
def parameter? : ReaderM (Option Parameter) := do
  let length := (← get).rest.length
  match ← ReaderM.peek with
  | none => return none
  | some c =>
    if c.isDigit then
      return some (.argument (decimal (← takeChars Char.isDigit length [])))
    else if isNameChar c then
      return some (.variable (String.ofList (← takeChars isNameChar length [])))
    else match special? c with
      | some parameter =>
        let _ ← ReaderM.next
        return some parameter
      | none => return none

/-- What stands behind the name of a parameter in braces, up to the closing brace. -/
def readOperation (r : Readers) (parameter : Parameter) (quoted : Bool) : ReaderM Piece := do
  let bad : ReaderM Piece := do
    let _ ← r.word (.braced quoted) []
    return .malformed
  let fallback (alsoEmpty : Bool) : ReaderM Piece := do
    let kind : Option Fallback := match ← ReaderM.peek with
      | some '-' => some .use
      | some '=' => some .assign
      | some '?' => some .complain
      | some '+' => some .alternative
      | _ => none
    match kind with
    | none => bad
    | some kind =>
      let _ ← ReaderM.next
      return .fallback parameter kind alsoEmpty (← r.word (.braced quoted) []) quoted
  match ← ReaderM.peek with
  | some '\x7d' =>
    let _ ← ReaderM.next
    return .value parameter quoted
  | some ':' =>
    let _ ← ReaderM.next
    fallback true
  | some c =>
    if c = '%' ∨ c = '#' then
      let _ ← ReaderM.next
      let longest ← ReaderM.accept c
      -- Quotes in the pattern count, whether the braces are quoted or not.
      return .trimmed parameter (c = '%') longest (← r.word (.braced false) []) quoted
    else fallback false
  | none => fallback false

/-- The piece of a parameter in braces, from behind the opening brace. -/
def readBraces (r : Readers) (quoted : Bool) : ReaderM Piece := do
  let bad : ReaderM Piece := do
    let _ ← r.word (.braced quoted) []
    return .malformed
  let before ← get
  if ← ReaderM.accept '#' then
    -- Behind the sign either a name stands, whose length is asked for, or it is a name itself.
    match ← parameter? with
    | some parameter =>
      if ← ReaderM.accept '\x7d' then return .length parameter quoted
      else match parameter with
        | .variable _ | .argument _ => bad
        | _ =>
          set before
          let _ ← ReaderM.next
          readOperation r .count quoted
    | none => readOperation r .count quoted
  else match ← parameter? with
    | some parameter => readOperation r parameter quoted
    | none => bad

/-- The piece that a dollar sign starts, from behind the sign. -/
def readDollar (r : Readers) (quoted : Bool) : ReaderM Piece := do
  match ← ReaderM.peek with
  | some '(' =>
    let _ ← ReaderM.next
    if ← ReaderM.accept '(' then
      return .arithmetic (← r.word (.expression 0) []) quoted
    else
      return .output (← r.list .parenthesis) quoted
  | some '\x7b' =>
    let _ ← ReaderM.next
    readBraces r quoted
  | some c =>
    if isNameChar c && !c.isDigit then
      let length := (← get).rest.length
      return .value (.variable (String.ofList (← takeChars isNameChar length []))) quoted
    else match special? c with
      | some parameter =>
        let _ ← ReaderM.next
        return .value parameter quoted
      | none => return .literal ['$'] quoted
  | none => return .literal ['$'] quoted

/-- The character behind a backslash, as it stands in a context. -/
def escaped (context : Context) (c : Char) : List Char :=
  let taken := match context with
    | .plain | .braced false => true
    | .document => "\\\x60$".toList.contains c
    | .braced true | .inner => "\\\x60$\"\x7d".toList.contains c
    | _ => "\\\x60$\"".toList.contains c
  if taken then [c] else ['\\', c]

/-- What a text ends a word with, if the text may end there. -/
def endOfWord (context : Context) (word : Word) : ReaderM Word :=
  match context with
  | .plain | .document => return word
  | .quoted | .braced true | .inner => ReaderM.refuse "Unterminated quoted string"
  | .braced false => ReaderM.refuse "Missing '\x7d'"
  | .expression _ => ReaderM.refuse "Missing '))'"

/-- **Reads a word** from behind the part of it that has been read. -/
def readWord (r : Readers) (context : Context) (word : Word) : ReaderM Word := do
  let q := context.quotes
  let go (piece : Piece) : ReaderM Word := r.word context (word.add piece)
  match (← get).rest with
  | [] => endOfWord context word
  | '\\' :: '\n' :: rest =>
    ReaderM.breakTo rest
    r.word context word
  | '\\' :: c :: rest =>
    ReaderM.moveTo rest
    go (.literal (escaped context c) true)
  | ['\\'] =>
    ReaderM.moveTo []
    go (.literal ['\\'] true)
  | '$' :: rest =>
    ReaderM.moveTo rest
    go (← readDollar r q)
  | '\x60' :: rest =>
    match backquoted q rest with
    | none =>
      ReaderM.moveTo []
      ReaderM.refuse "EOF in backquote substitution"
    | some (text, behind) =>
      -- The script between the quotes has lines of its own, from the first one on.
      let line := (← get).line + rest.count '\n' - behind.count '\n'
      modify fun s => { s with rest := behind, line := 1 }
      let script ← readApart text (r.list .tokenOrNothing)
      modify fun s => { s with line }
      go (.output script q)
  | '\'' :: rest =>
    if q then
      ReaderM.moveTo rest
      go (.literal ['\''] true)
    else match upTo? '\'' rest with
      | none =>
        modify fun s => { s with rest := [], line := s.line + rest.count '\n' }
        ReaderM.refuse "Unterminated quoted string"
      | some (inner, behind) =>
        modify fun s => { s with rest := behind, line := s.line + inner.count '\n' }
        go (.literal inner true)
  | '"' :: rest =>
    ReaderM.moveTo rest
    match context with
    | .plain | .braced false =>
      let inner ← r.word .quoted []
      -- Quotes around nothing make a word too.
      r.word context ((if inner.isEmpty then [.literal [] true] else inner).foldl .add word)
    | .quoted | .inner => return word
    | .document | .expression _ => go (.literal ['"'] true)
    | .braced true => r.word context ((← r.word .inner []).foldl .add word)
  | c :: rest =>
    let plain : ReaderM Word := do
      if c = '\n' then ReaderM.breakTo rest else ReaderM.moveTo rest
      go (.literal [c] q)
    match context with
    | .plain => if endsWord c then return word else plain
    | .braced _ =>
      if c = '\x7d' then
        ReaderM.moveTo rest
        return word
      else plain
    | .expression depth =>
      if c = '(' then
        ReaderM.moveTo rest
        r.word (.expression (depth + 1)) (word.add (.literal [c] q))
      else if c = ')' then
        ReaderM.moveTo rest
        match depth with
        | depth + 1 => r.word (.expression depth) (word.add (.literal [c] q))
        | 0 => if ← ReaderM.accept ')' then return word else go (.literal [c] q)
      else plain
    | _ => plain

/-! ## Tokens -/

/-- The operators, longer ones first. -/
def operators : List String := ["&&", "||", ";;", ";", "&", "|", "(", ")"]

/-- The arrows, longer ones first. -/
def arrows : List String := [">>", ">&", ">|", ">", "<<-", "<<", "<&", "<>", "<"]

/-- Takes the first of some texts that what is left starts with. -/
def acceptOne : List String → ReaderM (Option String)
  | [] => return none
  | text :: others => do
    let before ← get
    let found ← text.toList.allM ReaderM.accept
    if found then return some text
    set before
    acceptOne others

/-- Goes to the start of the next token; a comment is no token. -/
def skipBlanks : Nat → ReaderM Unit
  | 0 => return
  | count + 1 => do
    match ← ReaderM.peek with
    | some c =>
      if c = ' ' ∨ c = '\t' then
        let _ ← ReaderM.next
        skipBlanks count
      else if c = '#' then
        modify fun s => { s with rest := s.rest.dropWhile (· != '\n') }
        skipBlanks count
      else return
    | none => return

/-- Reads a token. -/
def readToken (r : Readers) : ReaderM Token := do
  if let some token := (← get).pushed then
    modify fun s => { s with pushed := none }
    return token
  skipBlanks (← get).rest.length
  match (← get).rest with
  | [] => return .endOfText
  | '\n' :: rest =>
    ReaderM.breakLine rest
    return .operator "\n"
  | _ =>
    if let some text ← acceptOne operators then return .operator text
    if let some text ← acceptOne arrows then return .arrow none text
    let word ← r.word .plain []
    -- One digit in front of an arrow belongs to it.
    match word with
    | [.literal [d] false] =>
      if d.isDigit then
        if let some text ← acceptOne arrows then return .arrow (some (decimal [d])) text
      return .word word
    | _ => return .word word

/-- Reads a token that is no line break. -/
def readBehindBreaks (r : Readers) : Nat → ReaderM Token
  | 0 => return .endOfText
  | count + 1 => do
    let token ← readToken r
    if token.isOperator "\n" then readBehindBreaks r count else return token

/-- Reads the next token, if line breaks may stand in front of it. -/
def readNext (r : Readers) : ReaderM Token := do
  readBehindBreaks r ((← get).rest.length + 2)

/-- Reads a token that has to be a reserved word. -/
def expectWord (r : Readers) (text : String) : ReaderM Unit := do
  let token ← readToken r
  if token.reserved? ≠ some text then unexpected token (some text)

/-! ## Redirections -/

/-- The text of a mark, as quotes around it are taken away, and whether it had quotes. -/
def markOf (word : Word) : List Char × Bool :=
  let text (piece : Piece) : List Char := match piece with
    | .literal text _ => text
    | .value parameter _ => '$' :: parameter.text.toList
    | _ => []
  let quoted (piece : Piece) : Bool := match piece with
    | .literal _ quoted => quoted
    | _ => false
  (word.flatMap text, word.any quoted)

/-- The redirection that an arrow starts. -/
def readRedirect (r : Readers) (descriptor : Option Nat) (arrow : String) :
    ReaderM Redirect := do
  match ← readToken r with
  | .word word =>
    let file (standard : Nat) (opening : Opening) : Redirect :=
      .file (descriptor.getD standard) opening word
    match arrow with
    | "<" => return file 0 .read
    | "<>" => return file 0 .readWrite
    | ">>" => return file 1 .append
    | ">|" => return file 1 .overwrite
    | ">&" => return .copy (descriptor.getD 1) word
    | "<&" => return .copy (descriptor.getD 0) word
    | "<<" | "<<-" =>
      let (mark, quoted) := markOf word
      let here := (← get).line
      let (first, text) ← takeDocument mark (arrow = "<<-")
      if quoted then return .document (descriptor.getD 0) [.literal text true]
      -- The document has lines of its own, behind the one that its mark stands in.
      modify fun s => { s with line := first }
      let body ← readApart text (r.word .document [])
      modify fun s => { s with line := here }
      return .document (descriptor.getD 0) body
    | _ => return file 1 .write
  | token => unexpected token none

/-- The redirections at the start of what is left. -/
def readRedirects (r : Readers) : Nat → ReaderM (List Redirect)
  | 0 => return []
  | count + 1 => do
    match ← readToken r with
    | .arrow descriptor arrow =>
      let redirect ← readRedirect r descriptor arrow
      return redirect :: (← readRedirects r count)
    | token =>
      ReaderM.push token
      return []

/-! ## Commands -/

/-- A word `NAME=value`, taken apart. -/
def assignment? (word : Word) : Option (String × Word) :=
  match word with
  | .literal text false :: rest =>
    let name := text.takeWhile (· != '=')
    match text.drop name.length with
    | _ :: value =>
      if isName name then
        some (String.ofList name, if value.isEmpty then rest else .literal value false :: rest)
      else none
    | [] => none
  | _ => none

/-- The commands of a shell that no function may take the name of. -/
def specialCommands : List String :=
  [".", ":", "break", "continue", "eval", "exec", "exit", "export", "readonly", "return", "set",
   "shift", "times", "trap", "unset"]

/-- What has been read of a simple command. -/
structure Simple where
  line : Nat
  assignments : List (String × Word)
  words : List Word
  redirects : List Redirect

/-- The rest of a simple command or of a function, from behind what has been read. -/
def readSimple (r : Readers) : Nat → Simple → ReaderM Script
  | 0, _ => ReaderM.refuse "command too long"
  | count + 1, c => do
    let done : Script := .simple c.line c.assignments c.words c.redirects
    match ← readToken r with
    | .word word =>
      match c.words, assignment? word with
      -- Behind the first word an equals sign is nothing special.
      | [], some assignment =>
        readSimple r count { c with assignments := c.assignments ++ [assignment] }
      | [], none =>
        if ← replaceAlias word then readSimple r count c
        else readSimple r count { c with words := [word] }
      | _, _ => readSimple r count { c with words := c.words ++ [word] }
    | .arrow descriptor arrow =>
      let redirect ← readRedirect r descriptor arrow
      readSimple r count { c with redirects := c.redirects ++ [redirect] }
    | .operator "(" =>
      match c.words, c.assignments, c.redirects with
      | [name], [], [] =>
        let token ← readToken r
        if !token.isOperator ")" then unexpected token (some ")")
        match Word.plain? name with
        | some name =>
          if !isName name.toList || specialCommands.contains name then
            ReaderM.refuse "Bad function name"
          ReaderM.push (← readNext r)
          return .function name (← r.command)
        | none => ReaderM.refuse "Bad function name"
      | _, _, _ =>
        ReaderM.push (.operator "(")
        return done
    | token =>
      ReaderM.push token
      return done

/-- The words of a list in a loop, and the token behind them. -/
def readWords (r : Readers) : Nat → List Word → ReaderM (List Word × Token)
  | 0, words => return (words, .endOfText)
  | count + 1, words => do
    match ← readToken r with
    | .word word => readWords r count (words ++ [word])
    | token => return (words, token)

/-- A branch, from behind the word that starts it. -/
def readBranch (r : Readers) : Nat → ReaderM Script
  | 0 => ReaderM.refuse "command too long"
  | count + 1 => do
    let condition ← r.list .token
    expectWord r "then"
    let yes ← r.list .token
    let token ← readToken r
    match token.reserved? with
    | some "elif" => return .branch condition yes (← readBranch r count)
    | some "else" =>
      let no ← r.list .token
      expectWord r "fi"
      return .branch condition yes no
    | some "fi" => return .branch condition yes .nothing
    | _ => unexpected token (some "fi")

/-- A loop over words, from behind the word that starts it. -/
def readEach (r : Readers) (line : Nat) : ReaderM Script := do
  let bad : ReaderM Script := ReaderM.refuse "Bad for loop variable"
  match ← readToken r with
  | .word word =>
    match Word.plain? word with
    | none => bad
    | some name =>
      if !isName name.toList then bad
      else
        let count := (← get).rest.length + 2
        let token ← readNext r
        let words ← if token.reserved? = some "in" then do
            let (words, behind) ← readWords r count []
            if !(behind.isOperator "\n" || behind.isOperator ";") then unexpected behind none
            pure words
          else do
            if !token.isOperator ";" then ReaderM.push token
            pure [[.value .each true]]
        let token ← readNext r
        if token.reserved? ≠ some "do" then unexpected token (some "do")
        let body ← r.list .token
        expectWord r "done"
        return .each line name words body
  | _ => bad

/-- The patterns of a branch of a choice, from the first one on. -/
def readPatterns (r : Readers) : Nat → Token → List Word → ReaderM (List Word)
  | 0, _, patterns => return patterns
  | count + 1, token, patterns => do
    match token with
    | .word word =>
      let behind ← readToken r
      if behind.isOperator "|" then
        let token ← readToken r
        readPatterns r count token (patterns ++ [word])
      else if behind.isOperator ")" then return patterns ++ [word]
      else unexpected behind (some ")")
    | _ => unexpected token (some ")")

/-- The branches of a choice, up to the word that ends it. -/
def readBranches (r : Readers) : Nat → ReaderM (List (List Word × Script))
  | 0 => return []
  | count + 1 => do
    let token ← readNext r
    if token.reserved? = some "esac" then return []
    let first ← if token.isOperator "(" then readToken r else pure token
    let patterns ← readPatterns r count first []
    let body ← r.list .tokenOrNothing
    let behind ← readNext r
    if behind.reserved? = some "esac" then return [(patterns, body)]
    if !behind.isOperator ";;" then unexpected behind (some ";;")
    return (patterns, body) :: (← readBranches r count)

/-- A choice, from behind the word that starts it. -/
def readChoice (r : Readers) (line : Nat) : ReaderM Script := do
  match ← readToken r with
  | .word word =>
    let token ← readNext r
    if token.reserved? ≠ some "in" then unexpected token (some "in")
    return .choice line word (← readBranches r ((← get).rest.length + 2))
  | token => ReaderM.refuse (token.name ++ " unexpected (expecting word)")

/-- **Reads a command.** -/
def readCommand (r : Readers) : ReaderM Script := do
  let token ← readToken r
  let line := (← get).line
  let count := (← get).rest.length + 2
  -- Redirections behind a command of several parts hold for all of it.
  let redirected (script : Script) : ReaderM Script := do
    match ← readRedirects r count with
    | [] => return script
    | redirects => return .group line script redirects
  match token with
  | .operator "(" =>
    let script ← r.list .token
    let token ← readToken r
    if !token.isOperator ")" then unexpected token (some ")")
    return .subshell line script (← readRedirects r count)
  | .arrow .. =>
    ReaderM.push token
    readSimple r count ⟨line, [], [], []⟩
  | .word word =>
    match token.reserved? with
    | none =>
      if ← replaceAlias word then r.command
      else
        ReaderM.push token
        readSimple r count ⟨line, [], [], []⟩
    | some "\x7b" =>
      let script ← r.list .token
      expectWord r "\x7d"
      redirected script
    | some "if" => redirected (← readBranch r count)
    | some "for" => redirected (← readEach r line)
    | some "case" => redirected (← readChoice r line)
    | some text =>
      if text = "while" ∨ text = "until" then
        let condition ← r.list .token
        expectWord r "do"
        let body ← r.list .token
        expectWord r "done"
        redirected (.loop condition (text = "while") body)
      else unexpected token none
  | _ => unexpected token none

/-- The parts of a pipeline behind the first one. -/
def readParts (r : Readers) : Nat → ReaderM (List Script)
  | 0 => return []
  | count + 1 => do
    let token ← readToken r
    if token.isOperator "|" then
      ReaderM.push (← readNext r)
      let part ← r.command
      return part :: (← readParts r count)
    else
      ReaderM.push token
      return []

/-- Reads commands joined by pipes. -/
def readPipeline (r : Readers) : ReaderM Script := do
  let token ← readToken r
  let negated := token.reserved? = some "!"
  if !negated then ReaderM.push token
  let first ← r.command
  let script ← match ← readParts r ((← get).rest.length + 2) with
    | [] => pure first
    | others => pure (.pipeline (first :: others))
  return if negated then .negation script else script

/-- The rest of a chain of commands that are joined by their success, behind its first part. -/
def readLinks (r : Readers) : Nat → Script → ReaderM Script
  | 0, script => return script
  | count + 1, script => do
    let token ← readToken r
    if token.isOperator "&&" || token.isOperator "||" then
      ReaderM.push (← readNext r)
      let second ← readPipeline r
      readLinks r count (if token.isOperator "&&" then .both script second
        else .either script second)
    else
      ReaderM.push token
      return script

/-- A script with a command behind it. -/
def followedBy (script : Option Script) (command : Script) : Option Script :=
  match script with
  | none => some command
  | some script => some (.sequence script command)

/-- Whether a token ends a list of commands. -/
def endsList (token : Token) : Bool :=
  match token with
  | .operator text => text == ")" || text == ";;"
  | .endOfText => true
  | _ =>
    ["\x7d", "then", "elif", "else", "fi", "do", "done", "esac"].any fun word =>
      token.reserved? == some word

/-- The rest of a list of commands, behind those that have been read. -/
def readCommands (r : Readers) (ending : Ending) : Nat → Option Script → ReaderM (Option Script)
  | 0, script => return script
  | count + 1, script => do
    let token ← if ending = .line then readToken r else readNext r
    if ending = .line && token.isOperator "\n" then return script
    let mayEnd := script.isSome || ending ≠ .token
    match token with
    | .endOfText =>
      ReaderM.push token
      return script
    | _ =>
      ReaderM.push token
      if ending ≠ .line && mayEnd && endsList token then return script
      let command ← readLinks r count (← readPipeline r)
      let behind ← readToken r
      let command := if behind.isOperator "&" then .background command else command
      let script := followedBy script command
      if behind.isOperator "&" || behind.isOperator ";" then readCommands r ending count script
      else
        ReaderM.push behind
        match behind with
        | .endOfText => return script
        | _ =>
          if behind.isOperator "\n" then readCommands r ending count script
          else if ending = .line then unexpected behind none
          else return script

/-- Reads a list of commands that is part of something else. -/
def readList (r : Readers) (ending : Ending) : ReaderM Script := do
  let script ← readCommands r ending ((← get).rest.length + 2) none
  if ending = .parenthesis then
    let token ← readToken r
    if !token.isOperator ")" then unexpected token (some ")")
  return script.getD .nothing

/-! ## Tying the readers together -/

/-- Readers that go so many levels deep at most. -/
def Readers.within : Nat → Readers
  | 0 =>
    let fail {α : Type} : ReaderM α := ReaderM.refuse "text too long"
    ⟨fun _ _ => fail, fun _ => fail, fail⟩
  | depth + 1 =>
    { word := fun context word => readWord (within depth) context word
      list := fun ending => readList (within depth) ending
      command := fun source => readCommand (within depth) source }

/-- **Reads the commands of one line,** and of the lines that they go on in; `none` at the end of
the text. -/
def readLine : ReaderM (Option Script) := do
  let s ← get
  let aliases := s.aliases.foldl (fun n (_, text) => n + text.length) 0
  let r := Readers.within (2 * s.rest.length + 8 + 64 * aliases)
  match ← readCommands r .line (s.rest.length + 2) none with
  | some script => return some script
  | none =>
    let s ← get
    return if s.rest.isEmpty && s.pushed.isSome then none else some .nothing

end Script

end LineShell
