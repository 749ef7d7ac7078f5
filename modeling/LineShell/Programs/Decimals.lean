import LineShell.Script.Arithmetic
/-!
Numbers with a point, as formats print them.

A text spells an exact fraction. What a format prints is the floating number nearest to it, which
is again an exact fraction, so digits are cut from it by whole-number arithmetic alone.
-/

set_option autoImplicit false

namespace LineShell

namespace Decimals

/-- The size of a number with a point. -/
inductive Size where
  /-- The first number, divided by the second. -/
  | fraction (n d : Nat)
  | infinite
  | undefined
deriving DecidableEq, Repr

/-- Floating numbers: how many bits a number has, the exponent of its last bit when it is as small
as can be, and the exponent that no number reaches. -/
structure Grid where
  bits : Nat
  least : Int
  bound : Int
deriving DecidableEq, Repr

/-- Numbers of 64 bits. -/
def double : Grid := ⟨53, -1074, 1024⟩

/-- Numbers of 80 bits. -/
def extended : Grid := ⟨64, -16445, 16384⟩

/-- A power of a base, multiplied into a fraction. -/
def scaled (base : Nat) (e : Int) (n d : Nat) : Nat × Nat :=
  if 0 ≤ e then (n * Nat.pow base e.toNat, d) else (n, d * Nat.pow base (-e).toNat)

/-- The whole number nearest to a fraction; a half goes to the even neighbour. -/
def nearest (n d : Nat) : Nat :=
  let down := n / d
  let rest := n % d
  if d < 2 * rest || (2 * rest = d && down % 2 = 1) then down + 1 else down

namespace Grid

/-- The number of a grid nearest to a fraction: its bits, and the exponent of the last of them. -/
def bitsOf (g : Grid) (n d : Nat) : Nat × Int :=
  if n = 0 then (0, 0)
  else
    -- The fraction lies between the two powers of two around this one.
    let e : Int := (n.log2 : Int) - d.log2 - g.bits
    let cut (e : Int) : Nat := let (n, d) := scaled 2 (-e) n d; nearest n d
    let whole (e : Int) : Nat := let (n, d) := scaled 2 (-e) n d; n / d
    let e := if whole e < Nat.pow 2 g.bits then e else e + 1
    let e := max e g.least
    (cut e, e)

/-- The number of a grid nearest to a size, and whether the grid does not hold anything near. -/
def round (g : Grid) : Size → Size × Bool
  | .fraction n d =>
    let (bits, e) := g.bitsOf n d
    let (up, down) := scaled 2 e bits 1
    let lost := n != 0 && bits < Nat.pow 2 (g.bits - 1) && n * down != up * d
    if g.bound ≤ (bits.log2 : Int) + e then (.infinite, true) else (.fraction up down, lost)
  | size => (size, false)

end Grid

/-! ## Reading -/

/-- An exponent at the start of a text, behind its mark. One so large that no number reaches it is
cut off. -/
def exponentIn (mark : Char) (text : List Char) : Int × List Char :=
  match text with
  | c :: rest =>
    if c.toLower = mark then
      let (negative, digits) := Arithmetic.signed rest
      let (n, behind) := Arithmetic.digits 10 digits
      if behind.length = digits.length then (0, text)
      else (if negative then -(min n 20000 : Nat) else (min n 20000 : Nat), behind)
    else (0, text)
  | [] => (0, [])

/-- The digits at the start of a text with at most one point among them: the number that they spell
without it, how many stand behind it, and what is behind them all; `none` if there are none. -/
def pointed? (base : Nat) (text : List Char) : Option (Nat × Nat × List Char) :=
  let (_, behind) := Arithmetic.digits base text
  let front := text.take (text.length - behind.length)
  let fraction := match behind with
    | '.' :: rest => rest
    | _ => []
  let (_, rest) := Arithmetic.digits base fraction
  let places := fraction.take (fraction.length - rest.length)
  if front.isEmpty && places.isEmpty then none
  else
    let (n, _) := Arithmetic.digits base (front ++ places)
    some (n, places.length, if behind.head? = some '.' then rest else behind)

/-- A word at the start of a text, in small letters or large ones, and what is behind it. -/
def behindWord? (word : String) (text : List Char) : Option (List Char) :=
  if (text.take word.length).map Char.toLower = word.toList then some (text.drop word.length)
  else none

/-- The size at the start of a text and what is behind it; `none` if there is none. -/
def size? (text : List Char) : Option (Size × List Char) :=
  let hexadecimal := do
    let rest ← behindWord? "0x" text
    let (n, places, rest) ← pointed? 16 rest
    let (e, rest) := exponentIn 'p' rest
    let (n, d) := scaled 2 (e - 4 * places) n 1
    return (.fraction n d, rest)
  let decimal := do
    let (n, places, rest) ← pointed? 10 text
    let (e, rest) := exponentIn 'e' rest
    let (n, d) := scaled 10 (e - places) n 1
    return (.fraction n d, rest)
  let infinite := do
    let rest ← behindWord? "inf" text
    return (.infinite, (behindWord? "inity" rest).getD rest)
  let undefined := do
    let rest ← behindWord? "nan" text
    return (.undefined, rest)
  hexadecimal <|> decimal <|> infinite <|> undefined

/-! ## Printing -/

/-- Digits with a point in front of the last few. -/
def withPoint (alternate : Bool) (places : Nat) (digits : List Char) : List Char :=
  let digits := List.replicate (places + 1 - digits.length) '0' ++ digits
  let front := digits.length - places
  digits.take front ++ (if places = 0 && !alternate then [] else ['.']) ++ digits.drop front

/-- An exponent with its sign, of two digits or more. -/
def exponentText (least : Nat) (e : Int) : List Char :=
  let digits := Nat.toDigits 10 e.natAbs
  (if e < 0 then '-' else '+') :: (List.replicate (least - digits.length) '0' ++ digits)

/-- A fraction with so many digits behind its point. -/
def fixed (alternate : Bool) (places n d : Nat) : List Char :=
  withPoint alternate places (Nat.toDigits 10 (nearest (n * Nat.pow 10 places) d))

/-- The exponent of the first digit of a fraction. -/
def leading (n d : Nat) : Int :=
  if n = 0 then 0
  else if d ≤ n then ((Nat.toDigits 10 (n / d)).length : Int) - 1
  else
    let size := (Nat.toDigits 10 (d / n)).length
    if d ≤ n * Nat.pow 10 (size - 1) then -((size : Int) - 1) else -(size : Int)

/-- One digit and so many behind it, as a whole number, and the exponent of the first. -/
def significant (places n d : Nat) : Nat × Int :=
  let e := leading n d
  let (up, down) := scaled 10 (places - e) n d
  let digits := nearest up down
  -- Nines may have been rounded up to the next power.
  if Nat.pow 10 (places + 1) ≤ digits then (digits / 10, e + 1) else (digits, e)

/-- A fraction with one digit in front of its point, so many behind it, and an exponent. -/
def scientific (alternate : Bool) (places n d : Nat) : List Char :=
  let (digits, e) := significant places n d
  withPoint alternate places (Nat.toDigits 10 digits) ++ 'e' :: exponentText 2 e

/-- Digits without the zeros at the end of those behind the point, and without a point that nothing
is behind if it does not have to stay. -/
def shortened (alternate : Bool) (digits : List Char) : List Char :=
  if digits.contains '.' then
    let kept := (digits.reverse.dropWhile (· = '0')).reverse
    if kept.getLast? = some '.' && !alternate then kept.dropLast else kept
  else digits

/-- A fraction in the shorter way, with so many digits that count. -/
def general (alternate : Bool) (count n d : Nat) : List Char :=
  let places := count - 1
  let (_, e) := significant places n d
  if -4 ≤ e ∧ e < count then
    let text := fixed alternate ((places : Int) - e).toNat n d
    if alternate then text else shortened false text
  else
    let text := scientific alternate places n d
    let digits := text.takeWhile (· != 'e')
    if alternate then text else shortened false digits ++ text.drop digits.length

/-- A fraction of a grid in base sixteen, with an exponent of two. The first digit holds one bit, or
the four that the grid has over. -/
def hexadecimal (g : Grid) (alternate : Bool) (places? : Option Nat) (n d : Nat) : List Char :=
  let (bits, e) := g.bitsOf n d
  let all := (g.bits - 1) / 4
  let (digits, places) := match places? with
    | none => (bits, all)
    | some wanted =>
      if wanted < all then (nearest bits (Nat.pow 16 (all - wanted)), wanted)
      else (bits * Nat.pow 16 (wanted - all), wanted)
  let text := withPoint alternate places (Nat.toDigits 16 digits)
  let text := if places?.isNone then shortened alternate text else text
  '0' :: 'x' :: text ++ 'p' :: exponentText 1 (if n = 0 then 0 else e + 4 * all)

end Decimals

end LineShell
