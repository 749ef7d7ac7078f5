import LineShell.Text.Utf8
/-!
Keystrokes, and the decoder that reads them from bytes.

A key is a printable ASCII byte, a control byte that the editor knows, an arrow (`ESC [` and one
of four letters) or a character in UTF-8. The decoder is a transition function on five states and
looks at no byte twice, with one exception: a byte that breaks a character off is read again as
the first byte of something new.
-/

set_option autoImplicit false

namespace LineShell

/-- A keystroke. -/
inductive Key where
  | char (c : Char)
  | backspace
  | enter
  | up
  | down
  | left
  | right
  /-- The key that ends the input when the line is empty. -/
  | endOfInput
deriving DecidableEq, Repr

/-- What the decoder has seen of a key that is not complete. -/
inductive Decoder where
  /-- Nothing: between keys. -/
  | normal
  /-- `ESC`. -/
  | escape
  /-- `ESC [`. -/
  | bracket
  /-- The bytes `seen` of a character that has `need` bytes. -/
  | gathering (seen : Bytes) (need : Nat)
  /-- A whole line; what follows belongs to the next one. -/
  | done
deriving DecidableEq, Repr

namespace Decoder

/-- `ESC`, the first byte of an arrow. -/
def escapeByte : UInt8 := 0x1b

/-- `[`, the second byte of an arrow. -/
def bracketByte : UInt8 := 0x5b

/-- The arrow that a byte after `ESC [` stands for. -/
def arrow? (byte : UInt8) : Option Key :=
  if byte = 0x41 then some .up
  else if byte = 0x42 then some .down
  else if byte = 0x43 then some .right
  else if byte = 0x44 then some .left
  else none

/-- A byte between keys. -/
def start (byte : UInt8) : Decoder × Option Key :=
  if byte = escapeByte then (.escape, none)
  else if byte = 0x0a ∨ byte = 0x0d then (.done, some .enter)
  else if byte = 0x7f ∨ byte = 0x08 then (.normal, some .backspace)
  else if byte = 0x04 then (.normal, some .endOfInput)
  else if 0x20 ≤ byte ∧ byte ≤ 0x7e then (.normal, some (.char (Char.ofNat byte.toNat)))
  -- A continuation byte has no character to continue here, and announces no length.
  else if 2 ≤ Utf8.width byte then (.gathering [byte] (Utf8.width byte), none)
  else (.normal, none)

/-- **One byte.** The state after it and the key that it completes. -/
def step (decoder : Decoder) (byte : UInt8) : Decoder × Option Key :=
  match decoder with
  | .normal => start byte
  | .escape => (if byte = bracketByte then .bracket else .normal, none)
  | .bracket => (.normal, arrow? byte)
  | .gathering seen need =>
    if Utf8.isContinuation byte then
      let seen := seen ++ [byte]
      if seen.length < need then (.gathering seen need, none)
      else (.normal, (Utf8.decodeChar? seen).map Key.char)
    -- The character is broken off; this byte starts something new.
    else start byte
  | .done => (.done, none)

/-- The state after some bytes. -/
def after (decoder : Decoder) (bytes : Bytes) : Decoder :=
  bytes.foldl (fun d b => (d.step b).1) decoder

/-- The keys that some bytes complete, in order. -/
def keys (decoder : Decoder) : Bytes → List Key
  | [] => []
  | byte :: rest =>
    let (next, key) := decoder.step byte
    key.toList ++ next.keys rest

end Decoder

end LineShell
