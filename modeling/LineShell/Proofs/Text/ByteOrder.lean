import LineShell.Proofs.Text.Utf8
import Mathlib.Data.List.Lex
import Mathlib.Data.String.Basic
/-!
The order of texts is the order of their bytes.

Encodings of the same length are compared like numbers, digit by digit from the front
(`lt_of_foldl_lt`), and a longer one starts with a larger byte, since the first byte tells the
length before it tells anything else. So the first character in which two texts differ decides about
their encodings too (`bytesOf_lt_iff`).
-/

set_option autoImplicit false

namespace LineShell.Utf8

/-- What the payload bits of a continuation byte add to a number. -/
def pushBits (n : Nat) (b : UInt8) : Nat := n * 0x40 + b.toNat % 0x40

/-- The payload bits of a first byte. -/
def leadBits (lead : UInt8) : Nat :=
  match width lead with
  | 2 => lead.toNat % 0x20
  | 3 => lead.toNat % 0x10
  | 4 => lead.toNat % 0x08
  | _ => lead.toNat

/-- Of two numbers with as many digits the smaller one has the smaller digits in front, whatever
stands behind them. -/
theorem lt_of_foldl_lt {xs ys : Bytes} (hlength : xs.length = ys.length)
    (hxs : ∀ b ∈ xs, isContinuation b) (hys : ∀ b ∈ ys, isContinuation b) {m n : Nat}
    (h : xs.foldl pushBits m < ys.foldl pushBits n) (s t : Bytes) :
    m < n ∨ m = n ∧ xs ++ s < ys ++ t := by
  induction xs generalizing ys m n with
  | nil =>
    obtain rfl : ys = [] := List.length_eq_zero_iff.1 hlength.symm
    exact .inl h
  | cons x xs ih =>
    cases ys with
    | nil => cases hlength
    | cons y ys =>
      rw [List.forall_mem_cons, isContinuation_iff] at hxs hys
      have hrest := ih (Nat.succ.inj hlength) hxs.2 hys.2 h
      unfold pushBits at hrest
      -- The digits behind decide only if the numbers up to this digit are the same.
      rcases hrest with hless | ⟨hsame, hless⟩
      · by_cases hmn : m < n
        · exact .inl hmn
        · have hxy : x < y := by
            rw [UInt8.lt_iff_toNat_lt]
            omega
          exact .inr ⟨by omega, List.cons_lt_cons_iff.2 (.inl hxy)⟩
      · have hxy : x = y := by
          apply UInt8.toNat_inj.1
          omega
        exact .inr ⟨by omega, List.cons_lt_cons_iff.2 (.inr ⟨hxy, hless⟩)⟩

/-- A larger character has no shorter encoding. -/
theorem utf8Size_le {c d : Char} (h : c < d) : c.utf8Size ≤ d.utf8Size := by
  have hval : c.val < d.val := h
  unfold Char.utf8Size
  grind

/-- Of two bytes that announce different lengths the one that announces more is larger. -/
theorem lt_of_width_lt {a b : UInt8} (h : width a < width b) (ha : 0 < width a) : a < b := by
  rw [UInt8.lt_iff_toNat_lt]
  rw [width_eq] at h ha
  rw [width_eq] at h
  split_ifs at h ha <;> omega

/-- **First bytes that announce the same length** differ by their payload bits alone. -/
theorem lead_lt_iff {a b : UInt8} (h : width a = width b) :
    (a.toNat < b.toNat ↔ leadBits a < leadBits b) ∧ (a = b ↔ leadBits a = leadBits b) := by
  rw [← UInt8.toNat_inj]
  unfold leadBits
  rw [h]
  rw [width_eq, width_eq] at h
  rw [width_eq]
  split_ifs at h ⊢ <;> try simp only [iff_self, and_self]
  all_goals omega

/-- **The first character in which two texts differ decides** about their bytes, whatever
follows. -/
theorem utf8EncodeChar_lt {c d : Char} (h : c < d) (s t : Bytes) :
    String.utf8EncodeChar c ++ s < String.utf8EncodeChar d ++ t := by
  have hsize := utf8Size_le h
  rw [← String.length_utf8EncodeChar, ← String.length_utf8EncodeChar] at hsize
  obtain ⟨a, xs, hc, ha, hxs, hcode⟩ := utf8EncodeChar_shape c
  obtain ⟨b, ys, hd, hb, hys, hcode'⟩ := utf8EncodeChar_shape d
  rw [hc, hd] at hsize ⊢
  rw [List.length_cons, List.length_cons] at hsize
  rw [List.cons_append, List.cons_append, List.cons_lt_cons_iff]
  by_cases hsame : xs.length = ys.length
  · have hless : xs.foldl pushBits (leadBits a) < ys.foldl pushBits (leadBits b) := by
      change payload (a :: xs) < payload (b :: ys)
      rw [hcode, hcode']
      exact h
    obtain ⟨hlt, heq⟩ := lead_lt_iff (show width a = width b by omega)
    rw [UInt8.lt_iff_toNat_lt, hlt, heq]
    exact lt_of_foldl_lt hsame hxs hys hless s t
  · exact .inl (lt_of_width_lt (by omega) (by omega))

theorem encode_lt {s t : List Char} (h : s < t) : encode s < encode t := by
  have hcons (c : Char) (text : List Char) :
      encode (c :: text) = String.utf8EncodeChar c ++ encode text := List.flatMap_cons
  induction s generalizing t with
  | nil =>
    cases t with
    | nil => cases h
    | cons d t =>
      obtain ⟨b, ys, hd, -⟩ := utf8EncodeChar_shape d
      rw [hcons, hd]
      exact List.nil_lt_cons _ _
  | cons c s ih =>
    cases t with
    | nil => cases h
    | cons d t =>
      rw [hcons, hcons]
      rcases List.cons_lt_cons_iff.1 h with hless | ⟨rfl, hless⟩
      · exact utf8EncodeChar_lt hless _ _
      · exact List.append_left_lt (ih hless)

end LineShell.Utf8

namespace LineShell

/-- **Texts are ordered like their bytes.** -/
theorem bytesOf_lt_iff {a b : String} : bytesOf a < bytesOf b ↔ a < b := by
  have hmono {a b : String} (h : a < b) : bytesOf a < bytesOf b :=
    Utf8.encode_lt (String.lt_iff_toList_lt.1 h)
  refine ⟨fun h => ?_, hmono⟩
  rcases lt_trichotomy a b with hless | rfl | hmore
  · exact hless
  · exact absurd h (List.lt_irrefl _)
  · exact absurd (List.lt_trans h (hmono hmore)) (List.lt_irrefl _)

end LineShell
