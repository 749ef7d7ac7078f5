/-!
Reading the arguments of a command.

A grammar lists the options of a command and what other words it takes. Arguments are read from
left to right; the first fault ends the reading. Asking for help is not a fault: reading goes on,
and a fault behind it still counts.
-/

set_option autoImplicit false

namespace LineShell

/-! ## Grammars -/

/-- Why a text is no number of the wanted size. -/
inductive NumberFault where
  | empty
  | badDigit
  | tooLarge
deriving DecidableEq, Repr

/-- What follows an option. -/
inductive OptionKind where
  /-- Nothing: the option is given or not. -/
  | switch
  /-- Any text. -/
  | text
  /-- A number of 64 bits. -/
  | number
deriving DecidableEq, Repr

/-- An option of a command. -/
structure OptionSpec where
  /-- The name behind two dashes. -/
  long : String
  /-- The letter behind one dash. -/
  short : Option Char
  kind : OptionKind
  description : String
deriving DecidableEq, Repr

/-- The words of a command that are no options. -/
inductive Positional where
  /-- There are none. -/
  | absent
  /-- One, which may be left out. -/
  | single (name description : String)
  /-- Any number. The first one ends the options. -/
  | greedy (name : String)
deriving DecidableEq, Repr

/-- What a command takes. -/
structure Grammar where
  description : String
  options : List OptionSpec
  positional : Positional
deriving DecidableEq, Repr

/-- The word with which an option is given by its long name. -/
def OptionSpec.longWord (o : OptionSpec) : String := "--" ++ o.long

/-- The word with which an option is given by its letter. -/
def OptionSpec.shortWord? (o : OptionSpec) : Option String := o.short.map fun c => "-" ++ c.toString

/-- The option that a word gives. -/
def Grammar.option? (g : Grammar) (word : String) : Option OptionSpec :=
  g.options.find? fun o => word == o.longWord || some word == o.shortWord?

/-! ## Numbers -/

namespace Options

/-- One more than the largest number that an option takes. -/
def numberBound : Nat := UInt64.size

/-- The number that digits continue. A letter is found out before a number grows too large by it. -/
def digits (n : Nat) : List Char → Except NumberFault Nat
  | [] => .ok n
  | c :: rest =>
    if !c.isDigit then .error .badDigit
    else
      let n := 10 * n + (c.toNat - '0'.toNat)
      if numberBound ≤ n then .error .tooLarge else digits n rest

/-- The number that a text spells; a plus sign may stand in front. -/
def number (text : String) : Except NumberFault Nat :=
  match text.toList with
  | [] => .error .empty
  | ['+'] => .error .badDigit
  | '+' :: rest => digits 0 rest
  | chars => digits 0 chars

end Options

/-! ## Faults -/

/-- Why an option does not take a value. -/
inductive ValueFault where
  /-- It has been given one before. -/
  | duplicate
  | number (fault : NumberFault)
deriving DecidableEq, Repr

/-- Why arguments are refused. -/
inductive Refusal where
  /-- An option stands behind a request for help. -/
  | trailingAfterHelp
  | unrecognized (word : String)
  | noValue (option : String)
  | badValue (option value : String) (fault : ValueFault)
deriving DecidableEq, Repr

/-- The text of a fault in a number. -/
def NumberFault.message : NumberFault → String
  | .empty => "cannot parse integer from empty string"
  | .badDigit => "invalid digit found in string"
  | .tooLarge => "number too large to fit in target type"

/-- The text of a fault in a value. -/
def ValueFault.message : ValueFault → String
  | .duplicate => "duplicate values provided"
  | .number fault => fault.message

/-- The text of a refusal. -/
def Refusal.message : Refusal → String
  | .trailingAfterHelp => "Trailing arguments are not allowed after `help`."
  | .unrecognized word => "Unrecognized argument: " ++ word
  | .noValue option => "No value provided for option '" ++ option ++ "'."
  | .badValue option value fault =>
    "Error parsing option '" ++ option ++ "' with value '" ++ value ++ "': " ++ fault.message

/-! ## Reading -/

/-- What has been read of the arguments. -/
structure Arguments where
  /-- Whether help was asked for. -/
  help : Bool
  /-- Whether words that look like options are plain words from here on. -/
  ended : Bool
  /-- The options given, by long name, with their values, latest first. -/
  given : List (String × String)
  /-- The words that are no options, in order. -/
  words : List String
deriving DecidableEq, Repr

namespace Arguments

/-- Nothing read. -/
def none : Arguments := ⟨false, false, [], []⟩

/-- Whether an option was given. -/
def has (a : Arguments) (long : String) : Bool := (a.given.lookup long).isSome

/-- The value of an option. -/
def value? (a : Arguments) (long : String) : Option String := a.given.lookup long

/-- The number given with an option. -/
def number? (a : Arguments) (long : String) : Option Nat :=
  (a.value? long).bind fun text => (Options.number text).toOption

/-- The arguments with one more option. -/
def give (a : Arguments) (long value : String) : Arguments :=
  { a with given := (long, value) :: a.given }

end Arguments

/-- Why an option does not take a value, if it does not. -/
def OptionSpec.valueFault? (o : OptionSpec) (read : Arguments) (value : String) :
    Option ValueFault :=
  if read.has o.long then some .duplicate
  else match o.kind, Options.number value with
    | .number, .error fault => some (.number fault)
    | _, _ => none

/-- What is read after one more word that is no option, unless the command takes no more. -/
def Grammar.takeWord (g : Grammar) (read : Arguments) (word : String) :
    Except Refusal Arguments :=
  match g.positional with
  | .absent => .error (.unrecognized word)
  | .single .. =>
    if read.words.isEmpty then .ok { read with words := [word] }
    else .error (.unrecognized word)
  | .greedy _ => .ok { read with words := read.words ++ [word], ended := true }

/-- **Reads arguments** behind those that have been read. -/
def Grammar.readOn (g : Grammar) (read : Arguments) : List String → Except Refusal Arguments
  | [] => .ok read
  | word :: rest =>
    if !read.ended && (word == "--help" || word == "help") then
      g.readOn { read with help := true } rest
    else if !read.ended && word.toList.head? == some '-' then
      -- This word ends the options even behind a request for help.
      if word = "--" then g.readOn { read with ended := true } rest
      else if read.help then .error .trailingAfterHelp
      else match g.option? word with
        | none => .error (.unrecognized word)
        | some o =>
          if o.kind = .switch then g.readOn (read.give o.long "") rest
          -- Whatever stands behind the option is its value, also a word with a dash.
          else match rest with
            | [] => .error (.noValue word)
            | value :: rest =>
              match o.valueFault? read value with
              | some fault => .error (.badValue word value fault)
              | none => g.readOn (read.give o.long value) rest
    else match g.takeWord read word with
      | .ok read => g.readOn read rest
      | .error refusal => .error refusal

/-- Reads the arguments of a command. -/
def Grammar.read (g : Grammar) (arguments : List String) : Except Refusal Arguments :=
  g.readOn .none arguments

end LineShell
