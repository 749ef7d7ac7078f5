import LineShell.Proofs.Editor.Buffer
import Mathlib.Data.List.Basic
/-!
The edit buffer is a line in two halves.

`Halves` are the text left of the cursor and the text right of it, with no index: an operation adds
or drops a character where the two meet, or takes one across. A buffer is told from its halves
(`Halves.buffer`), an operation on the one is that operation on the other, with the same answer
(`Halves.perform_buffer`), and so are any number of operations (`Halves.performAll_buffer`). The
halves fit into the buffer all the while, and that alone keeps the cursor inside of the line.
-/

set_option autoImplicit false

namespace LineShell

namespace EditBuffer

/-! ## Operations and their answers -/

inductive Operation where
  | insert (c : Char)
  | delete
  | left
  | right
  | replace (text : List Char)
  | clear
deriving DecidableEq, Repr

/-- What an operation answers: whether it was done, or the character that the cursor went over, or
nothing where it can always be done. -/
inductive Answer where
  | done (whether : Bool)
  | passed (c : Option Char)
  | nothing
deriving DecidableEq, Repr

/-- An answer that says that nothing was done. -/
def Answer.Refuses : Answer → Prop
  | .done whether => whether = false
  | .passed c => c = none
  | .nothing => False

instance (answer : Answer) : Decidable answer.Refuses :=
  match answer with
  | .done whether => inferInstanceAs (Decidable (whether = false))
  | .passed c => inferInstanceAs (Decidable (c = none))
  | .nothing => isFalse id

/-- The answer of an operation that may not be possible, and the buffer after it. -/
def tried (b : EditBuffer) (after : Option EditBuffer) : Answer × EditBuffer :=
  (.done after.isSome, after.getD b)

/-- **One operation.** -/
def perform (b : EditBuffer) : Operation → Answer × EditBuffer
  | .insert c => b.tried (b.insert? c)
  | .delete => b.tried b.delete?
  | .left => b.tried b.left?
  | .right => (.passed (b.right?.map (·.1)), (b.right?.map (·.2)).getD b)
  | .replace text => (.nothing, b.replace text)
  | .clear => (.nothing, b.clear)

/-- Operations one after another: their answers, and the buffer after the last. -/
def performAll (b : EditBuffer) : List Operation → List Answer × EditBuffer
  | [] => ([], b)
  | op :: ops =>
    let rest := (b.perform op).2.performAll ops
    ((b.perform op).1 :: rest.1, rest.2)

/-- The place where an operation changes the line is a place of it: a character is put in front of
another one or behind the last, and the one to be taken out is there. -/
def InRange (b : EditBuffer) : Operation → Prop
  | .insert _ => b.isFull = false → b.cursor ≤ b.chars.length
  | .delete => 0 < b.cursor → b.cursor - 1 < b.chars.length
  | .left | .right | .replace _ | .clear => True

theorem tried_of_refuses {b : EditBuffer} {after : Option EditBuffer}
    (h : (b.tried after).1.Refuses) : (b.tried after).2 = b := by
  cases after with
  | none => rfl
  | some later => exact absurd h (Bool.noConfusion : true ≠ false)

/-- An operation that is refused leaves the buffer as it is. -/
theorem perform_of_refuses {b : EditBuffer} {op : Operation} (h : (b.perform op).1.Refuses) :
    (b.perform op).2 = b := by
  cases op with
  | insert c => exact tried_of_refuses h
  | delete => exact tried_of_refuses h
  | left => exact tried_of_refuses h
  | right =>
    have hnone : b.right? = none := Option.map_eq_none_iff.1 h
    show (b.right?.map (·.2)).getD b = b
    rw [hnone]
    rfl
  | replace text => exact h.elim
  | clear => exact h.elim

theorem inRange_of_cursor {b : EditBuffer} (h : b.cursor ≤ b.chars.length) (op : Operation) :
    b.InRange op := by
  cases op with
  | insert c => exact fun _ => h
  | delete =>
    intro hcursor
    omega
  | left => trivial
  | right => trivial
  | replace text => trivial
  | clear => trivial

end EditBuffer

open EditBuffer (Operation Answer)

/-- A line that is cut in two where the cursor is. -/
structure Halves where
  before : List Char
  behind : List Char
deriving DecidableEq, Repr

namespace Halves

def blank : Halves := ⟨[], []⟩

def text (h : Halves) : List Char := h.before ++ h.behind

/-- **One operation** on the halves of a line that takes so many characters. -/
def perform (limit : Nat) (h : Halves) : Operation → Answer × Halves
  | .insert c =>
    if h.before.length + h.behind.length = limit then (.done false, h)
    else (.done true, { h with before := h.before ++ [c] })
  | .delete =>
    match h.before.getLast? with
    | none => (.done false, h)
    | some _ => (.done true, { h with before := h.before.dropLast })
  | .left =>
    match h.before.getLast? with
    | none => (.done false, h)
    | some c => (.done true, ⟨h.before.dropLast, c :: h.behind⟩)
  | .right =>
    match h.behind with
    | [] => (.passed none, h)
    | c :: behind => (.passed (some c), ⟨h.before ++ [c], behind⟩)
  | .replace text => (.nothing, ⟨text.take limit, []⟩)
  | .clear => (.nothing, blank)

def performAll (limit : Nat) (h : Halves) : List Operation → List Answer × Halves
  | [] => ([], h)
  | op :: ops =>
    let rest := (h.perform limit op).2.performAll limit ops
    ((h.perform limit op).1 :: rest.1, rest.2)

def Fits (limit : Nat) (h : Halves) : Prop := h.before.length + h.behind.length ≤ limit

/-- The buffer that two halves make. -/
def buffer (limit : Nat) (h : Halves) : EditBuffer := .between h.before h.behind limit

variable {limit : Nat} {h : Halves}

/-- **One operation** does the same to a buffer and to its halves, and they still fit. -/
theorem perform_buffer (hfits : h.Fits limit) (op : Operation) :
    (h.buffer limit).perform op = ((h.perform limit op).1, (h.perform limit op).2.buffer limit) ∧
      (h.perform limit op).2.Fits limit := by
  obtain ⟨before, behind⟩ := h
  have hsum : before.length + behind.length ≤ limit := hfits
  cases op with
  | insert c =>
    unfold EditBuffer.perform Halves.perform buffer
    dsimp only
    rw [EditBuffer.insert?_between]
    -- The buffer asks whether the bound is reached or passed; halves that fit do not pass it.
    by_cases hfull : before.length + behind.length = limit
    · rw [if_pos hfull, if_pos (Nat.le_of_eq hfull.symm)]
      exact ⟨rfl, hfits⟩
    · rw [if_neg hfull, if_neg (by omega)]
      refine ⟨rfl, ?_⟩
      show (before ++ [c]).length + behind.length ≤ limit
      rw [List.length_append, List.length_singleton]
      omega
  | delete =>
    rcases List.eq_nil_or_concat' before with rfl | ⟨front, c, rfl⟩
    · exact ⟨rfl, hfits⟩
    · unfold EditBuffer.perform Halves.perform buffer
      dsimp only
      rw [EditBuffer.delete?_between, List.getLast?_concat, List.dropLast_concat]
      refine ⟨rfl, ?_⟩
      rw [List.length_append] at hsum
      show front.length + behind.length ≤ limit
      omega
  | left =>
    rcases List.eq_nil_or_concat' before with rfl | ⟨front, c, rfl⟩
    · exact ⟨rfl, hfits⟩
    · unfold EditBuffer.perform Halves.perform buffer
      dsimp only
      rw [EditBuffer.left?_between, List.getLast?_concat, List.dropLast_concat]
      refine ⟨rfl, ?_⟩
      rw [List.length_append, List.length_singleton] at hsum
      show front.length + (c :: behind).length ≤ limit
      rw [List.length_cons]
      omega
  | right =>
    unfold EditBuffer.perform Halves.perform buffer
    cases behind with
    | nil =>
      dsimp only
      rw [EditBuffer.right?_between_nil]
      exact ⟨rfl, hfits⟩
    | cons c behind =>
      dsimp only
      rw [EditBuffer.right?_between]
      refine ⟨rfl, ?_⟩
      rw [List.length_cons] at hsum
      show (before ++ [c]).length + behind.length ≤ limit
      rw [List.length_append, List.length_singleton]
      omega
  | replace text =>
    refine ⟨congrArg (Prod.mk Answer.nothing) (EditBuffer.replace_between _ _ _ text), ?_⟩
    show (text.take limit).length + 0 ≤ limit
    rw [List.length_take]
    omega
  | clear => exact ⟨rfl, Nat.zero_le limit⟩

/-- **Any number of operations** do the same to a buffer and to its halves. -/
theorem performAll_buffer (hfits : h.Fits limit) (ops : List Operation) :
    (h.buffer limit).performAll ops
        = ((h.performAll limit ops).1, (h.performAll limit ops).2.buffer limit) ∧
      (h.performAll limit ops).2.Fits limit := by
  induction ops generalizing h with
  | nil => exact ⟨rfl, hfits⟩
  | cons op ops ih =>
    obtain ⟨hone, hnext⟩ := perform_buffer hfits op
    obtain ⟨hrest, hlast⟩ := ih hnext
    refine ⟨?_, hlast⟩
    rw [EditBuffer.performAll, hone, hrest]
    rfl

end Halves

namespace EditBuffer

/-- **The buffer is a bounded line in two halves.** Whatever is done to a buffer that was empty, in
whatever order, the answers are those of the halves, and the line, the text from the cursor on and
the cursor are theirs, too. The cursor is in the line and the line within its bound, so no operation
that comes next, nor the text from the cursor on, looks up a place outside of the line. What is
refused changes nothing. -/
theorem performAll_halves (maxLength : Nat) (ops : List Operation) :
    let after := (empty maxLength).performAll ops
    let expected := Halves.blank.performAll maxLength ops
    (after.1 = expected.1 ∧ after.2.line = String.ofList expected.2.text ∧
      after.2.suffix = expected.2.behind ∧ after.2.cursor = expected.2.before.length) ∧
    (after.2.cursor ≤ after.2.length ∧ after.2.length ≤ maxLength) ∧
    (∀ op, after.2.InRange op) ∧
    (∀ op, (after.2.perform op).1.Refuses → (after.2.perform op).2 = after.2) := by
  have hblank : Halves.blank.Fits maxLength := Nat.zero_le maxLength
  obtain ⟨hsame, hfits⟩ := Halves.performAll_buffer hblank ops
  have hempty : empty maxLength = Halves.blank.buffer maxLength := empty_eq_between maxLength
  dsimp only
  rw [hempty, hsame]
  generalize Halves.blank.performAll maxLength ops = expected at hfits ⊢
  have hlength : (expected.2.buffer maxLength).length
      = expected.2.before.length + expected.2.behind.length := List.length_append
  have hcursor : (expected.2.buffer maxLength).cursor ≤ (expected.2.buffer maxLength).length := by
    rw [hlength]
    exact Nat.le_add_right _ _
  refine ⟨⟨rfl, rfl, suffix_between _ _ _, rfl⟩, ⟨hcursor, ?_⟩, inRange_of_cursor hcursor,
    fun op => perform_of_refuses⟩
  rw [hlength]
  exact hfits

/-- A line of two characters that is filled, gone through to its end and replaced. -/
theorem performAll_halves_full :
    ((empty 2).performAll [.insert 'a', .insert 'b', .insert 'c', .left, .right, .right,
        .replace ['x', 'y', 'z']]).1
      = [.done true, .done true, .done false, .done true, .passed (some 'b'), .passed none,
        .nothing] ∧
    (((empty 2).performAll [.replace ['x', 'y', 'z']]).2.perform .right).2
      = ((empty 2).performAll [.replace ['x', 'y', 'z']]).2 := by
  obtain ⟨⟨hanswers, -⟩, -⟩ := performAll_halves 2 [.insert 'a', .insert 'b', .insert 'c', .left,
    .right, .right, .replace ['x', 'y', 'z']]
  obtain ⟨-, -, -, hrefused⟩ := performAll_halves 2 [.replace ['x', 'y', 'z']]
  exact ⟨hanswers.trans (by decide), hrefused .right (by decide)⟩

end EditBuffer

end LineShell
