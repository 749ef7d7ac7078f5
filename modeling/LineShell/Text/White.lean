/-!
White space, and the three operations that are defined by it: trimming a text, and cutting it
into words.

White space is the Unicode property `White_Space`, twenty-five code points; core's
`Char.isWhitespace` knows four of them, so the property is a table here. A word is a maximal run
of characters outside the table, hence words are never empty and contain no white space.
-/

set_option autoImplicit false

namespace LineShell.Text

/-- The code points with the property `White_Space`, as closed ranges in increasing order. -/
def whiteRanges : List (Nat × Nat) :=
  [(0x09, 0x0d), (0x20, 0x20), (0x85, 0x85), (0xa0, 0xa0), (0x1680, 0x1680), (0x2000, 0x200a),
   (0x2028, 0x2029), (0x202f, 0x202f), (0x205f, 0x205f), (0x3000, 0x3000)]

/-- **White space.** The character's code point lies in one of the ranges. -/
def isWhite (c : Char) : Bool :=
  whiteRanges.any fun (low, high) => decide (low ≤ c.toNat) && decide (c.toNat ≤ high)

example : (whiteRanges.map fun (low, high) => high + 1 - low).sum = 25 := by decide

/-! ## Trimming -/

/-- A text without the white space it starts with. -/
def trimStart (text : List Char) : List Char := text.dropWhile isWhite

/-- A text without the white space it ends with. -/
def trimEnd (text : List Char) : List Char := (text.reverse.dropWhile isWhite).reverse

/-- A text without the white space at either end. -/
def trim (text : List Char) : List Char := trimEnd (trimStart text)

@[simp] theorem trimStart_nil : trimStart [] = [] := rfl

@[simp] theorem trimEnd_nil : trimEnd [] = [] := rfl

@[simp] theorem trim_nil : trim [] = [] := rfl

/-! ## Words -/

/-- The maximal runs of characters that are not white space, in order. -/
def words (text : List Char) : List (List Char) :=
  (text.splitOnP isWhite).filter fun run => !run.isEmpty

@[simp] theorem words_nil : words [] = [] := rfl

/-- A white character in front separates nothing. -/
theorem words_cons_white {c : Char} (h : isWhite c) (text : List Char) :
    words (c :: text) = words text := by
  simp [words, List.splitOnP_cons_eq_if_modifyHead, h]

end LineShell.Text
