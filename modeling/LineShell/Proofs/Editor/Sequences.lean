import LineShell.Proofs.Editor.Decoding
/-!
Control sequences that stand for no key of the editor.

A keyboard sends a control sequence for a key that has no character: `ESC [`, then parameters and
intermediate bytes, as many as there are, and a final byte. The decoder knows four of them, the
arrows, and drops one byte behind `ESC [` otherwise. That is the whole sequence only where nothing
stands in front of the final byte; where something does, all bytes of the sequence but the first
three are printable and come out as characters that were typed (`keys_of_not_arrow`).
-/

set_option autoImplicit false

namespace LineShell

/-- A control sequence, without the `ESC [` that introduces it. -/
structure ControlSequence where
  parameters : Bytes
  intermediates : Bytes
  final : UInt8
  parameters_range : ∀ b ∈ parameters, 0x30 ≤ b.toNat ∧ b.toNat ≤ 0x3f
  intermediates_range : ∀ b ∈ intermediates, 0x20 ≤ b.toNat ∧ b.toNat ≤ 0x2f
  final_range : 0x40 ≤ final.toNat ∧ final.toNat ≤ 0x7e

namespace Decoder

/-- The key of a printable byte. -/
def typedKey (byte : UInt8) : Key := .char (Char.ofNat byte.toNat)

/-- Of the bytes behind `ESC [` one is read in the light of it. -/
theorem keys_bracket (first : UInt8) (rest : Bytes) :
    normal.keys (escapeByte :: bracketByte :: first :: rest)
        = (arrow? first).toList ++ normal.keys rest ∧
      normal.after (escapeByte :: bracketByte :: first :: rest) = normal.after rest :=
  ⟨rfl, rfl⟩

/-- Printable bytes are typed. -/
theorem keys_ascii {bytes : Bytes} (h : ∀ b ∈ bytes, 0x20 ≤ b.toNat ∧ b.toNat ≤ 0x7e) :
    normal.keys bytes = bytes.map typedKey ∧ normal.after bytes = normal := by
  induction bytes with
  | nil => exact ⟨rfl, rfl⟩
  | cons byte bytes ih =>
    obtain ⟨hlow, hhigh⟩ := h byte List.mem_cons_self
    obtain ⟨hkeys, hafter⟩ := ih fun b hb => h b (List.mem_cons_of_mem _ hb)
    have hstep : normal.step byte = (normal, some (typedKey byte)) := start_of_ascii hlow hhigh
    rw [keys_cons, after_cons, hstep, hkeys]
    exact ⟨rfl, hafter⟩

theorem arrow?_eq_none {byte : UInt8} (h : byte.toNat < 0x41 ∨ 0x44 < byte.toNat) :
    arrow? byte = none := by
  have hne : ∀ letter : UInt8, 0x41 ≤ letter.toNat → letter.toNat ≤ 0x44 → byte ≠ letter := by
    rintro letter hlow hhigh rfl
    omega
  unfold arrow?
  rw [if_neg (hne 0x41 (by decide) (by decide)), if_neg (hne 0x42 (by decide) (by decide)),
    if_neg (hne 0x43 (by decide) (by decide)), if_neg (hne 0x44 (by decide) (by decide))]

end Decoder

namespace ControlSequence

variable (s : ControlSequence)

/-- What follows `ESC [`. -/
def body : Bytes := s.parameters ++ s.intermediates ++ [s.final]

/-- The bytes of a control sequence. -/
def bytes : Bytes := Decoder.escapeByte :: Decoder.bracketByte :: s.body

/-- The sequences of the arrow keys: a letter from `A` to `D` and nothing in front of it. -/
def IsArrow : Prop :=
  s.parameters = [] ∧ s.intermediates = [] ∧ 0x41 ≤ s.final.toNat ∧ s.final.toNat ≤ 0x44

instance : Decidable s.IsArrow := inferInstanceAs (Decidable (_ ∧ _))

/-- A body of one byte is a final byte. -/
theorem body_length : s.body.length = 1 ↔ s.parameters = [] ∧ s.intermediates = [] := by
  rw [body, List.length_append, List.length_append, List.length_singleton,
    ← List.length_eq_zero_iff, ← List.length_eq_zero_iff]
  omega

/-- Each byte of the body is printable. -/
theorem ascii_of_mem_body {b : UInt8} (h : b ∈ s.body) : 0x20 ≤ b.toNat ∧ b.toNat ≤ 0x7e := by
  rw [body, List.mem_append, List.mem_append, List.mem_singleton] at h
  rcases h with (hparameter | hintermediate) | rfl
  · have hrange := s.parameters_range b hparameter
    omega
  · have hrange := s.intermediates_range b hintermediate
    omega
  · have hrange := s.final_range
    omega

/-- What stands in front of the final byte is no letter. -/
theorem lt_of_mem_front {b : UInt8} (h : b ∈ s.parameters ++ s.intermediates) :
    b.toNat < 0x40 := by
  rcases List.mem_append.1 h with hparameter | hintermediate
  · have hrange := s.parameters_range b hparameter
    omega
  · have hrange := s.intermediates_range b hintermediate
    omega

/-- The first byte of the body stands for an arrow only where the sequence does. -/
theorem arrow?_first (h : ¬ s.IsArrow) {first : UInt8} {rest : Bytes}
    (hbody : s.body = first :: rest) : Decoder.arrow? first = none := by
  apply Decoder.arrow?_eq_none
  rw [body] at hbody
  rcases List.append_eq_cons_iff.1 hbody with ⟨hfront, hfinal⟩ | ⟨more, hfront, -⟩
  · obtain ⟨hparameters, hintermediates⟩ := List.append_eq_nil_iff.1 hfront
    obtain ⟨rfl, -⟩ := List.cons_eq_cons.1 hfinal
    by_contra hletter
    exact h ⟨hparameters, hintermediates, by omega, by omega⟩
  · have hlow := s.lt_of_mem_front (hfront ▸ List.mem_cons_self)
    omega

/-- **What a control sequence types** that is no arrow: every byte of it behind the third. So it is
discarded whole if and only if there is no byte between `ESC [` and the final one. The decoder is
between keys after it in any case. -/
theorem keys_of_not_arrow (h : ¬ s.IsArrow) :
    Decoder.normal.after s.bytes = .normal ∧
      Decoder.normal.keys s.bytes = s.body.tail.map Decoder.typedKey ∧
      (Decoder.normal.keys s.bytes = [] ↔ s.parameters = [] ∧ s.intermediates = []) := by
  obtain ⟨first, rest, hbody⟩ : ∃ first rest, s.body = first :: rest :=
    List.exists_cons_of_ne_nil (List.append_ne_nil_of_right_ne_nil _ (List.cons_ne_nil _ _))
  have hascii : ∀ b ∈ rest, 0x20 ≤ b.toNat ∧ b.toNat ≤ 0x7e := fun b hb =>
    s.ascii_of_mem_body (hbody ▸ List.mem_cons_of_mem first hb)
  obtain ⟨hkeys, hafter⟩ := Decoder.keys_ascii hascii
  obtain ⟨hbracket, hend⟩ := Decoder.keys_bracket first rest
  have hall : Decoder.normal.keys s.bytes = rest.map Decoder.typedKey := by
    rw [bytes, hbody, hbracket, s.arrow?_first h hbody, hkeys]
    rfl
  refine ⟨?_, ?_, ?_⟩
  · rw [bytes, hbody, hend, hafter]
  · rw [hall, hbody, List.tail_cons]
  · rw [hall, List.map_eq_nil_iff, ← s.body_length, hbody, List.length_cons,
      ← List.length_eq_zero_iff]
    omega

/-- The sequence of the delete key: a parameter and the final byte `~`. -/
def delete : ControlSequence := ⟨[0x33], [], 0x7e, by simp, by simp, by decide⟩

/-- **The delete key types a character.** -/
theorem delete_typed :
    ¬ delete.IsArrow ∧ delete.bytes = [0x1b, 0x5b, 0x33, 0x7e] ∧
      Decoder.normal.keys delete.bytes = [.char '~'] := by
  decide

/-- The sequence of the right arrow with the control key held down. -/
def controlRight : ControlSequence :=
  ⟨[0x31, 0x3b, 0x35], [], 0x43, by simp, by simp, by decide⟩

/-- It types what follows its first parameter byte. -/
theorem keys_of_not_arrow_controlRight :
    ¬ controlRight.IsArrow ∧
      Decoder.normal.keys controlRight.bytes = [.char ';', .char '5', .char 'C'] ∧
      Decoder.normal.after controlRight.bytes = .normal := by
  have harrow : ¬ controlRight.IsArrow := by decide
  obtain ⟨hafter, hkeys, -⟩ := keys_of_not_arrow controlRight harrow
  exact ⟨harrow, hkeys, hafter⟩

end ControlSequence

end LineShell
