import LineShell.Programs.Arguments
import LineShell.Programs.Decimals
/-!
Formats and escapes in what programs print.

A format is used again as long as it uses up arguments and some are left. What is wrong with a
format or an argument is collected beside what is printed, as programs word it differently.
-/

set_option autoImplicit false

namespace LineShell

namespace Printing

/-! ## Escapes -/

/-- How escapes are read. -/
structure Dialect where
  /-- Two hexadecimal digits may stand behind `\\x`. -/
  hexadecimal : Bool
  /-- An escaped double quote stands for the quote alone. -/
  quotes : Bool
deriving DecidableEq, Repr

/-- Whether a character is an octal digit. -/
def isOctal (c : Char) : Bool := '0' ≤ c && c ≤ '7'

/-- The number that digits spell in a base. -/
def numberIn (base : Nat) (digits : List Char) : Nat :=
  digits.foldl (fun n c => base * n + Arithmetic.digitValue c) 0

/-- The character of a number, as far as one byte holds it. -/
def octet (n : Nat) : Char := Char.ofNat (n % 256)

/-- The character that a letter behind a backslash stands for. -/
def letter? (d : Dialect) (c : Char) : Option Char :=
  match c with
  | 'a' => some '\x07'
  | 'b' => some '\x08'
  | 'e' => some '\x1b'
  | 'f' => some '\x0c'
  | 'n' => some '\n'
  | 'r' => some '\r'
  | 't' => some '\t'
  | 'v' => some '\x0b'
  | '\\' => some '\\'
  | '"' => if d.quotes then some '"' else none
  | _ => none

/-- What an escape stands for, read from behind the backslash, and what is behind it. -/
def escape (d : Dialect) : List Char → List Char × List Char
  | [] => (['\\'], [])
  | c :: rest =>
    if isOctal c then
      let digits := ((c :: rest).take 3).takeWhile isOctal
      ([octet (numberIn 8 digits)], (c :: rest).drop digits.length)
    else match letter? d c with
      | some found => ([found], rest)
      | none =>
        let digits := (rest.take 2).takeWhile fun c => Arithmetic.digitValue c < 16
        if d.hexadecimal && c = 'x' && !digits.isEmpty then
          ([octet (numberIn 16 digits)], rest.drop digits.length)
        else (['\\', c], rest)

/-- A text with its escapes replaced, and whether `\\c` ended the output. Behind a backslash and a
zero stand up to three more octal digits. -/
def unescape (d : Dialect) : Nat → List Char → List Char × Bool
  | 0, _ => ([], false)
  | _, [] => ([], false)
  | _, '\\' :: 'c' :: _ => ([], true)
  | count + 1, '\\' :: '0' :: rest =>
    let digits := (rest.take 3).takeWhile isOctal
    let (text, ended) := unescape d count (rest.drop digits.length)
    (octet (numberIn 8 digits) :: text, ended)
  | count + 1, '\\' :: rest =>
    let (found, rest) := escape d rest
    let (text, ended) := unescape d count rest
    (found ++ text, ended)
  | count + 1, c :: rest =>
    let (text, ended) := unescape d count rest
    (c :: text, ended)

/-! ## Formats -/

/-- A conversion of a format. -/
structure Conversion where
  flags : List Char
  width : Nat
  precision : Option Nat
  kind : Char
deriving Repr

/-- What a format has printed, what it has found wrong, and what it has left. -/
structure Printed where
  text : List Char
  faults : List String
  arguments : List String
  ended : Bool
  /-- What is wrong with the format, if that ended the output. -/
  refusal : Option String

/-- How a program reads its formats, and how it words what is wrong with them. -/
structure Manner where
  dialect : Dialect
  /-- Whether a conversion for quoted words is known. -/
  shellWords : Bool
  /-- Whether a quote with nothing behind it stands for zero. -/
  bareQuotes : Bool
  /-- The floating numbers that numbers with a point are rounded to. -/
  grid : Decimals.Grid
  notNumber : String → String
  notWhole : String → String
  outOfRange : String → String
  badConversion : String → String
  missingConversion : String

/-- A text filled to the width of a conversion; zeros stand behind the sign. -/
def filled (c : Conversion) (sign body : String) (zeros : Bool) : String :=
  let missing := c.width - (sign.length + body.length)
  if c.flags.contains '-' then sign ++ body ++ String.ofList (List.replicate missing ' ')
  else if zeros then sign ++ String.ofList (List.replicate missing '0') ++ body
  else String.ofList (List.replicate missing ' ') ++ sign ++ body

/-- A whole number as a conversion shows it. -/
def integerText (c : Conversion) (sign : String) (base n : Nat) : String :=
  let digits := if n = 0 && c.precision = some 0 then [] else Nat.toDigits base n
  let digits := List.replicate (c.precision.getD 1 - digits.length) '0' ++ digits
  let front :=
    if !c.flags.contains '#' || n = 0 then ""
    else if base = 8 then (if digits.head? = some '0' then "" else "0")
    else if base = 16 then "0x" else ""
  let zeros := c.flags.contains '0' && c.precision.isNone
  filled c (sign ++ front) (String.ofList digits) zeros

/-- How many whole numbers there are. -/
def words : Nat := 18446744073709551616

/-- The number of the character behind a quote, if an argument starts with one. -/
def quotedNumber? (m : Manner) (text : String) : Option Nat :=
  match text.toList with
  | ['\''] | ['"'] => if m.bareQuotes then some 0 else none
  | '\'' :: c :: _ | '"' :: c :: _ => some c.toNat
  | _ => none

/-- The number that an argument spells, and what is wrong with it. -/
def argumentNumber (m : Manner) (signed : Bool) (text : String) : Int × List String :=
  match quotedNumber? m text with
  | some n => (n, [])
  | none =>
    let (negative, digits) := Arithmetic.signed (text.toList.dropWhile Arithmetic.isBlank)
    let (n, rest) := Arithmetic.number digits
    let bounded : Nat × Bool :=
      let bound := if !signed then words - 1 else if negative then words / 2 else words / 2 - 1
      if bound < n then (bound, true) else (n, false)
    let value : Int := if negative then -(bounded.1 : Int) else bounded.1
    if rest.length = digits.length then (0, if text.isEmpty then [] else [m.notNumber text])
    else if !rest.isEmpty then (value, [m.notWhole text])
    else (value, if bounded.2 then [m.outOfRange text] else [])

/-- The size that an argument spells, whether it is below zero, and what is wrong with it. -/
def argumentSize (m : Manner) (text : String) : Bool × Decimals.Size × List String :=
  match quotedNumber? m text with
  | some n => (false, .fraction n 1, [])
  | none =>
    let (negative, written) := Arithmetic.signed (text.toList.dropWhile Arithmetic.isBlank)
    match Decimals.size? written with
    | none => (false, .fraction 0 1, if text.isEmpty then [] else [m.notNumber text])
    | some (size, rest) =>
      let (size, lost) := m.grid.round size
      (negative, size, if !rest.isEmpty then [m.notWhole text]
        else if lost then [m.outOfRange text] else [])

/-- A number with a point as a conversion shows it. -/
def decimalText (m : Manner) (c : Conversion) (sign : String) : Decimals.Size → String
  | .infinite => filled c sign "inf" false
  | .undefined => filled c sign "nan" false
  | .fraction n d =>
    let alternate := c.flags.contains '#'
    let zeros := c.flags.contains '0'
    let places := c.precision.getD 6
    match c.kind.toLower with
    | 'e' => filled c sign (String.ofList (Decimals.scientific alternate places n d)) zeros
    | 'g' => filled c sign (String.ofList (Decimals.general alternate (max places 1) n d)) zeros
    | 'a' =>
      let text := Decimals.hexadecimal m.grid alternate c.precision n d
      filled c (sign ++ String.ofList (text.take 2)) (String.ofList (text.drop 2)) zeros
    | _ => filled c sign (String.ofList (Decimals.fixed alternate places n d)) zeros

/-- The sign that a conversion shows in front of a number. -/
def signText (c : Conversion) (negative : Bool) : String :=
  if negative then "-" else if c.flags.contains '+' then "+"
  else if c.flags.contains ' ' then " " else ""

/-- What a conversion prints for an argument: the text, what is wrong, and whether the output ends;
`none` if there is no such conversion. -/
def converted (m : Manner) (c : Conversion) (argument : String) :
    Option (List Char × List String × Bool) :=
  let shown (text : String) (faults : List String) : Option (List Char × List String × Bool) :=
    some (text.toList, faults, false)
  let cut (text : List Char) : String :=
    String.ofList (match c.precision with
      | some n => text.take n
      | none => text)
  match c.kind with
  | 's' => shown (filled c "" (cut argument.toList) false) []
  | 'b' =>
    let (text, ended) := unescape m.dialect (argument.length + 1) argument.toList
    some ((filled c "" (cut text) false).toList, [], ended)
  | 'q' =>
    if m.shellWords then
      shown (filled c "" (cut (Utility.quotedIfNeeded argument).toList) false) []
    else none
  | 'c' =>
    -- An empty argument stands for the character with the number zero.
    let text := match argument.toList with
      | [] => ['\x00']
      | c :: _ => [c]
    shown (filled c "" (String.ofList text) false) []
  | 'd' | 'i' =>
    let (n, faults) := argumentNumber m true argument
    shown (integerText c (signText c (n < 0)) 10 n.natAbs) faults
  | 'u' | 'o' | 'x' | 'X' =>
    let (n, faults) := argumentNumber m false argument
    let n := (n % (words : Int)).toNat
    let base := match c.kind with
      | 'u' => 10
      | 'o' => 8
      | _ => 16
    let text := integerText c "" base n
    shown (if c.kind = 'X' then text.map Char.toUpper else text) faults
  | 'f' | 'F' | 'e' | 'E' | 'g' | 'G' | 'a' | 'A' =>
    let (negative, size, faults) := argumentSize m argument
    let text := decimalText m c (signText c negative) size
    shown (if c.kind.isUpper then text.toUpper else text) faults
  | _ => none

/-- A number that stands in a conversion, or in the next argument for a star. -/
def fieldNumber (text : List Char) (arguments : List String) :
    Option Int × List Char × List String :=
  match text with
  | '*' :: rest => (some ((Utility.integer? (arguments.headD "")).getD 0), rest, arguments.tail)
  | _ =>
    let digits := text.takeWhile Char.isDigit
    (if digits.isEmpty then none else some (numberIn 10 digits : Nat), text.drop digits.length,
      arguments)

/-- Prints arguments by a format, once. -/
def printOnce (m : Manner) : Nat → List Char → List String → Printed
  | 0, _, arguments => ⟨[], [], arguments, false, none⟩
  | _, [], arguments => ⟨[], [], arguments, false, none⟩
  | count + 1, '%' :: '%' :: rest, arguments =>
    let more := printOnce m count rest arguments
    { more with text := '%' :: more.text }
  | count + 1, '%' :: rest, arguments =>
    let flags := rest.takeWhile fun c => "-+ #0".toList.contains c
    let (width, behind, arguments) := fieldNumber (rest.drop flags.length) arguments
    let (precision, behind, arguments) := match behind with
      | '.' :: behind =>
        let (n, behind, arguments) := fieldNumber behind arguments
        (some (n.getD 0), behind, arguments)
      | _ => (none, behind, arguments)
    match behind with
    | [] => ⟨[], [], arguments, true, some m.missingConversion⟩
    | kind :: behind =>
      let width := width.getD 0
      -- A width below zero fills on the other side.
      let flags := if width < 0 then '-' :: flags else flags
      let c : Conversion := ⟨flags, width.natAbs,
        precision.bind fun n => if n < 0 then none else some n.toNat, kind⟩
      match converted m c (arguments.headD "") with
      | none =>
        let written := rest.take (rest.length - behind.length)
        ⟨[], [], arguments, true, some (m.badConversion ("%" ++ String.ofList written))⟩
      | some (text, faults, true) => ⟨text, faults, arguments.tail, true, none⟩
      | some (text, faults, false) =>
        let more := printOnce m count behind arguments.tail
        { more with text := text ++ more.text, faults := faults ++ more.faults }
  | count + 1, '\\' :: 'c' :: rest, arguments =>
    if m.dialect.hexadecimal then ⟨[], [], arguments, true, none⟩
    else
      let more := printOnce m count rest arguments
      { more with text := '\\' :: 'c' :: more.text }
  | count + 1, '\\' :: rest, arguments =>
    let (found, rest) := escape m.dialect rest
    let more := printOnce m count rest arguments
    { more with text := found ++ more.text }
  | count + 1, c :: rest, arguments =>
    let more := printOnce m count rest arguments
    { more with text := c :: more.text }

/-- Prints arguments by a format, used again until they are used up. -/
def printAll (m : Manner) (format : List Char) : Nat → List String → Printed
  | 0, arguments => ⟨[], [], arguments, false, none⟩
  | count + 1, arguments =>
    let once := printOnce m (format.length + 1) format arguments
    -- A format that uses up nothing would never come to an end.
    if once.ended || once.arguments.isEmpty || once.arguments.length == arguments.length then once
    else
      let more := printAll m format count once.arguments
      { more with text := once.text ++ more.text, faults := once.faults ++ more.faults }

end Printing

end LineShell
