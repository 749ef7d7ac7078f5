/-!
UTF-8 between characters and bytes.

Encoding is core's `String.utf8EncodeChar`. Decoding is defined from it: a byte sequence is read
as a character exactly when it is that character's encoding, so overlong forms, surrogates and
values past the last code point are refused without being named. A byte string is then cut into
pieces, each a character or a maximal sequence that no encoding starts with; `decode?` wants
characters only, `decodeLossy` puts U+FFFD for every other piece.
-/

set_option autoImplicit false

namespace LineShell

/-- A string of bytes: file contents, names in a directory, what a terminal receives. -/
abbrev Bytes := List UInt8

namespace Utf8

/-- The bytes of a text. -/
def encode (text : List Char) : Bytes := text.flatMap String.utf8EncodeChar

/-- The length that a first byte announces; zero for a byte that starts no character. -/
def width (lead : UInt8) : Nat :=
  if lead < 0x80 then 1
  else if lead < 0xc0 then 0
  else if lead < 0xe0 then 2
  else if lead < 0xf0 then 3
  else if lead < 0xf8 then 4
  else 0

/-- Whether a byte continues a character. -/
def isContinuation (b : UInt8) : Bool := b &&& 0xc0 == 0x80

/-- The number that the payload bits of a byte sequence spell. -/
def payload : Bytes → Nat
  | [] => 0
  | lead :: rest =>
    -- A first byte spends its upper bits on the length.
    let first := match width lead with
      | 2 => lead.toNat % 0x20
      | 3 => lead.toNat % 0x10
      | 4 => lead.toNat % 0x08
      | _ => lead.toNat
    rest.foldl (fun n b => n * 0x40 + b.toNat % 0x40) first

/-- **The character that a byte sequence encodes.** The candidate comes from the payload bits, and
the sequence has to be its encoding. -/
def decodeChar? (bytes : Bytes) : Option Char :=
  -- A number that is no code point gives NUL here, and NUL has another encoding.
  let c := Char.ofNat (payload bytes)
  if String.utf8EncodeChar c = bytes then some c else none

/-- What `decodeChar?` accepts is an encoding. -/
theorem utf8EncodeChar_of_decodeChar? {bytes : Bytes} {c : Char} (h : decodeChar? bytes = some c) :
    String.utf8EncodeChar c = bytes := by
  grind [decodeChar?]

/-! ## Pieces of a byte string -/

/-- The second bytes that can follow a first byte: fewer than all continuation bytes where some
would spell an overlong form, a surrogate or a value past the last code point. -/
def secondRange (lead : UInt8) : UInt8 × UInt8 :=
  if lead = 0xe0 then (0xa0, 0xbf)
  else if lead = 0xed then (0x80, 0x9f)
  else if lead = 0xf0 then (0x90, 0xbf)
  else if lead = 0xf4 then (0x80, 0x8f)
  else if lead < 0xc2 || 0xf4 < lead then (0xff, 0x00)
  else (0x80, 0xbf)

/-- How many bytes of a string that starts with no character belong together: the longest start
that some character's encoding has, and one byte at least. -/
def brokenLength (lead : UInt8) : Bytes → Nat
  | [] => 1
  | second :: rest =>
    let (low, high) := secondRange lead
    if low ≤ second && second ≤ high then
      -- Behind the second byte every continuation byte will do, as many as are still announced.
      2 + ((rest.take (width lead - 2)).takeWhile isContinuation).length
    else 1

/-- The pieces of a byte string, in order: a character, or `none` for bytes that are none. -/
def pieces : Bytes → List (Option Char)
  | [] => []
  | lead :: rest =>
    match decodeChar? (lead :: rest.take (width lead - 1)) with
    | some c => some c :: pieces (rest.drop (width lead - 1))
    | none => none :: pieces (rest.drop (brokenLength lead rest - 1))
termination_by bytes => bytes.length
decreasing_by all_goals simp only [List.length_drop, List.length_cons]; omega

/-- The text that a byte string encodes, if all of it does. -/
def decode? (bytes : Bytes) : Option (List Char) := (pieces bytes).mapM id

/-- What stands for bytes that are no character. -/
def replacement : Char := '\ufffd'

/-- The text of a byte string, with `replacement` for every piece that is no character. -/
def decodeLossy (bytes : Bytes) : List Char := (pieces bytes).map (·.getD replacement)

end Utf8

/-- The bytes of a string's encoding. -/
def bytesOf (s : String) : Bytes := Utf8.encode s.toList

/-- The string that a byte string encodes, if any. -/
def stringOf? (bytes : Bytes) : Option String := (Utf8.decode? bytes).map String.ofList

/-- The string of a byte string, repaired where it is no encoding. -/
def stringOf (bytes : Bytes) : String := String.ofList (Utf8.decodeLossy bytes)

@[simp] theorem bytesOf_append (s t : String) : bytesOf (s ++ t) = bytesOf s ++ bytesOf t := by
  simp [bytesOf, Utf8.encode]

end LineShell
