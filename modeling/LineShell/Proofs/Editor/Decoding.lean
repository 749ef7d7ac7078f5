import LineShell.Key
import LineShell.Proofs.Text.Utf8
import Mathlib.Data.List.Basic
/-!
What the decoder makes of bytes.

Whatever the bytes are, a character key is read from the last of them and is no ASCII control
(`step_eq_char`), and the decoder is done when, and only when, it has read the key that ends a line
(`step_done_iff`). The bytes of a
character that is no control complete that key with the last of them (`exists_last_byte`), also
where they break another character off: one byte does so at once (`start_of_ascii`), and of several
the first announces how many there are (`start_of_lead`).
-/

set_option autoImplicit false

namespace LineShell

/-- A character that is no ASCII control. -/
def Printable (c : Char) : Prop := 0x20 ≤ c.toNat ∧ c.toNat ≠ 0x7f

instance (c : Char) : Decidable (Printable c) := inferInstanceAs (Decidable (_ ∧ _))

namespace Utf8

/-- A character below `0x80` is encoded by one byte, its own number. -/
theorem utf8EncodeChar_ascii {c : Char} (h : c.toNat < 0x80) :
    String.utf8EncodeChar c = [UInt8.ofNat c.toNat] := by
  rw [String.utf8EncodeChar, show c.val.toNat = c.toNat from rfl]
  exact if_pos (Nat.le_of_lt_succ h)

/-- A character that one byte encodes is below `0x80`, and its number is that of the byte. -/
theorem toNat_of_utf8EncodeChar_singleton {c : Char} {lead : UInt8}
    (h : String.utf8EncodeChar c = [lead]) : lead.toNat = c.toNat ∧ c.toNat < 0x80 := by
  obtain ⟨lead', tail, henc, hwidth, -, hpayload⟩ := utf8EncodeChar_shape c
  obtain ⟨rfl, rfl⟩ : lead' = lead ∧ tail = [] := List.cons_eq_cons.1 (henc.symm.trans h)
  have hwidth' : width lead' = 1 := hwidth
  have hnumber : lead'.toNat = c.toNat := by
    rw [← hpayload, payload, hwidth']
    rfl
  rw [width_eq] at hwidth'
  refine ⟨hnumber, ?_⟩
  split_ifs at hwidth' <;> omega

/-- A sequence that ends in a continuation byte is no character below `0x80`. -/
theorem le_toNat_of_decodeChar? {seen : Bytes} {b : UInt8} {c : Char} (hb : isContinuation b)
    (h : decodeChar? (seen ++ [b]) = some c) : 0x80 ≤ c.toNat := by
  by_contra hlt
  have henc := utf8EncodeChar_of_decodeChar? h
  rw [utf8EncodeChar_ascii (by omega), List.singleton_eq_append_iff] at henc
  rw [isContinuation_iff] at hb
  rcases henc with ⟨-, hlast⟩ | ⟨-, hlast⟩
  · rw [List.cons.injEq] at hlast
    rw [hlast.1, toNat_ofNat (by omega)] at hb
    omega
  · cases hlast

end Utf8

namespace Decoder

/-! ## Bytes behind bytes -/

theorem after_cons (decoder : Decoder) (byte : UInt8) (back : Bytes) :
    decoder.after (byte :: back) = (decoder.step byte).1.after back := rfl

theorem keys_cons (decoder : Decoder) (byte : UInt8) (back : Bytes) :
    decoder.keys (byte :: back)
      = (decoder.step byte).2.toList ++ (decoder.step byte).1.keys back := rfl

theorem after_append (decoder : Decoder) (front back : Bytes) :
    decoder.after (front ++ back) = (decoder.after front).after back :=
  List.foldl_append

theorem after_snoc (decoder : Decoder) (front : Bytes) (byte : UInt8) :
    decoder.after (front ++ [byte]) = ((decoder.after front).step byte).1 :=
  after_append decoder front [byte]

/-- Bytes that follow others are decoded from where those led to. -/
theorem keys_append (decoder : Decoder) (front back : Bytes) :
    decoder.keys (front ++ back) = decoder.keys front ++ (decoder.after front).keys back := by
  induction front generalizing decoder with
  | nil => rfl
  | cons byte front ih =>
    rw [List.cons_append, keys_cons, keys_cons, ih, List.append_assoc, after_cons]

theorem keys_snoc (decoder : Decoder) (front : Bytes) (byte : UInt8) :
    decoder.keys (front ++ [byte])
      = decoder.keys front ++ ((decoder.after front).step byte).2.toList := by
  rw [keys_append]
  exact congrArg _ (List.append_nil _)

/-! ## Any byte -/

theorem toNat_ofNat_toNat (b : UInt8) : (Char.ofNat b.toNat).toNat = b.toNat := by
  have hvalid : b.toNat.isValidChar := .inl (Nat.lt_trans b.toNat_lt (by decide))
  rw [Char.ofNat, dif_pos hvalid]
  rfl

theorem step_bracket (byte : UInt8) : bracket.step byte = (normal, arrow? byte) := rfl

theorem step_gathering (seen : Bytes) (need : Nat) (byte : UInt8) :
    (gathering seen need).step byte =
      if Utf8.isContinuation byte then
        if (seen ++ [byte]).length < need then (gathering (seen ++ [byte]) need, none)
        else (normal, (Utf8.decodeChar? (seen ++ [byte])).map Key.char)
      else start byte := rfl

theorem arrow?_eq_some {byte : UInt8} {key : Key} (h : arrow? byte = some key) :
    key ∈ [Key.up, .down, .right, .left] := by
  unfold arrow? at h
  split_ifs at h <;> cases h <;> decide

/-- A character key that needs one byte is that byte, a printable one. -/
theorem start_eq_char {byte : UInt8} {c : Char} (h : (start byte).2 = some (.char c)) :
    (start byte).1 = normal ∧ 0x20 ≤ byte.toNat ∧ byte.toNat ≤ 0x7e ∧
      c = Char.ofNat byte.toNat := by
  unfold start at h ⊢
  split_ifs at h ⊢ with _ _ _ _ hascii
  · cases h
  · cases h
  · cases h
  · rw [Option.some.injEq, Key.char.injEq] at h
    rw [UInt8.le_iff_toNat_le, UInt8.le_iff_toNat_le] at hascii
    exact ⟨rfl, hascii.1, hascii.2, h.symm⟩

/-- **What a character key is read from:** the byte by itself, or the bytes that were gathered and
this one. Whatever they are, the character is no ASCII control, and the decoder is between keys. -/
theorem step_eq_char {decoder : Decoder} {byte : UInt8} {c : Char}
    (h : (decoder.step byte).2 = some (.char c)) :
    (decoder.step byte).1 = normal ∧ Printable c ∧ (String.utf8EncodeChar c = [byte] ∨
      ∃ seen need, decoder = gathering seen need ∧
        String.utf8EncodeChar c = seen ++ [byte]) := by
  have hstart (h : (start byte).2 = some (.char c)) :
      (start byte).1 = normal ∧ Printable c ∧ String.utf8EncodeChar c = [byte] := by
    obtain ⟨hnormal, hlow, hhigh, rfl⟩ := start_eq_char h
    rw [Printable, toNat_ofNat_toNat, Utf8.utf8EncodeChar_ascii (by rw [toNat_ofNat_toNat]; omega),
      toNat_ofNat_toNat, UInt8.ofNat_toNat]
    exact ⟨hnormal, ⟨hlow, by omega⟩, rfl⟩
  cases decoder with
  | normal =>
    obtain ⟨hnormal, hprintable, henc⟩ := hstart h
    exact ⟨hnormal, hprintable, .inl henc⟩
  | escape => cases h
  | bracket =>
    rw [step_bracket] at h
    have hmem := arrow?_eq_some h
    simp at hmem
  | gathering seen need =>
    rw [step_gathering] at h ⊢
    by_cases hcont : Utf8.isContinuation byte = true
    · rw [if_pos hcont] at h ⊢
      by_cases hmore : (seen ++ [byte]).length < need
      · rw [if_pos hmore] at h
        cases h
      · rw [if_neg hmore] at h ⊢
        obtain ⟨d, hdecode, hkey⟩ := Option.map_eq_some_iff.1 h
        obtain rfl : d = c := Key.char.inj hkey
        -- No ASCII character has a continuation byte, so it need not be looked at as one.
        have hbehind := Utf8.le_toNat_of_decodeChar? hcont hdecode
        refine ⟨rfl, ⟨by omega, by omega⟩, .inr ⟨seen, need, rfl, ?_⟩⟩
        exact Utf8.utf8EncodeChar_of_decodeChar? hdecode
    · rw [if_neg hcont] at h ⊢
      obtain ⟨hnormal, hprintable, henc⟩ := hstart h
      exact ⟨hnormal, hprintable, .inl henc⟩
  | done => cases h

theorem printable_of_step {decoder : Decoder} {byte : UInt8} {c : Char}
    (h : (decoder.step byte).2 = some (.char c)) : Printable c :=
  (step_eq_char h).2.1

theorem start_done_iff {byte : UInt8} :
    (start byte).1 = .done ↔ (start byte).2 = some .enter := by
  unfold start
  split_ifs <;> simp

/-- **The decoder is done exactly with the key that ends a line.** -/
theorem step_done_iff {decoder : Decoder} {byte : UInt8} (h : decoder ≠ .done) :
    (decoder.step byte).1 = .done ↔ (decoder.step byte).2 = some .enter := by
  cases decoder with
  | normal => exact start_done_iff
  | escape =>
    show (if byte = bracketByte then bracket else normal) = done ↔ none = some Key.enter
    split_ifs <;> simp
  | bracket =>
    rw [step_bracket]
    constructor
    · intro hdone
      cases hdone
    · intro henter
      have hmem := arrow?_eq_some henter
      simp at hmem
  | gathering seen need =>
    rw [step_gathering]
    split_ifs
    · simp
    · simp
    · exact start_done_iff
  | done => exact absurd rfl h

/-! ## The bytes of a character -/

theorem start_of_ascii {byte : UInt8} (hlow : 0x20 ≤ byte.toNat) (hhigh : byte.toNat ≤ 0x7e) :
    start byte = (normal, some (.char (Char.ofNat byte.toNat))) := by
  have hne : ∀ control : UInt8, control.toNat < 0x20 ∨ 0x7e < control.toNat → byte ≠ control := by
    rintro control hcontrol rfl
    omega
  have hascii : 0x20 ≤ byte ∧ byte ≤ 0x7e := by
    rw [UInt8.le_iff_toNat_le, UInt8.le_iff_toNat_le]
    exact ⟨hlow, hhigh⟩
  unfold start
  rw [if_neg (hne escapeByte (by decide)),
    if_neg (not_or.2 ⟨hne 0x0a (by decide), hne 0x0d (by decide)⟩),
    if_neg (not_or.2 ⟨hne 0x7f (by decide), hne 0x08 (by decide)⟩),
    if_neg (hne 0x04 (by decide)), if_pos hascii]

theorem start_of_lead {byte : UInt8} (h : 2 ≤ Utf8.width byte) :
    start byte = (gathering [byte] (Utf8.width byte), none) := by
  have hbyte : 0xc0 ≤ byte.toNat := by
    rw [Utf8.width_eq] at h
    split_ifs at h <;> omega
  have hne : ∀ control : UInt8, control.toNat < 0xc0 → byte ≠ control := by
    rintro control hcontrol rfl
    omega
  have hascii : ¬ (0x20 ≤ byte ∧ byte ≤ 0x7e) := by
    rw [UInt8.le_iff_toNat_le, UInt8.le_iff_toNat_le]
    rintro ⟨-, hhigh⟩
    have hhigh' : byte.toNat ≤ 0x7e := hhigh
    omega
  unfold start
  rw [if_neg (hne escapeByte (by decide)),
    if_neg (not_or.2 ⟨hne 0x0a (by decide), hne 0x0d (by decide)⟩),
    if_neg (not_or.2 ⟨hne 0x7f (by decide), hne 0x08 (by decide)⟩),
    if_neg (hne 0x04 (by decide)), if_neg hascii, if_pos h]

/-- A decoder that reads the next character as one: it is between keys, or in the middle of another
character. -/
def TakesText : Decoder → Prop
  | normal | gathering _ _ => True
  | escape | bracket | done => False

instance (decoder : Decoder) : Decidable decoder.TakesText :=
  match decoder with
  | normal | gathering _ _ => isTrue trivial
  | escape | bracket | done => isFalse id

/-- A byte that continues no character starts something new. -/
theorem TakesText.step_of_fresh {decoder : Decoder} {byte : UInt8} (h : decoder.TakesText)
    (hbyte : Utf8.isContinuation byte = false) : decoder.step byte = start byte := by
  cases decoder with
  | normal => rfl
  | gathering seen need =>
    rw [step_gathering, hbyte]
    rfl
  | escape => exact h.elim
  | bracket => exact h.elim
  | done => exact h.elim

/-- Continuation bytes are gathered as long as more of them are to come. -/
theorem after_gathering {seen more : Bytes} {need : Nat}
    (hmore : ∀ b ∈ more, Utf8.isContinuation b) (hneed : (seen ++ more).length < need) :
    (gathering seen need).keys more = [] ∧
      (gathering seen need).after more = gathering (seen ++ more) need := by
  induction more generalizing seen with
  | nil =>
    rw [List.append_nil]
    exact ⟨rfl, rfl⟩
  | cons byte more ih =>
    have hsplit : seen ++ [byte] ++ more = seen ++ byte :: more := by
      rw [List.append_assoc, List.singleton_append]
    have hbyte : (seen ++ [byte]).length < need := by
      rw [← hsplit, List.length_append] at hneed
      omega
    have hstep : (gathering seen need).step byte = (gathering (seen ++ [byte]) need, none) := by
      rw [step_gathering, if_pos (hmore byte List.mem_cons_self), if_pos hbyte]
    obtain ⟨hkeys, hafter⟩ := ih (fun b hb => hmore b (List.mem_cons_of_mem _ hb))
      (hsplit ▸ hneed)
    rw [keys_cons, after_cons, hstep, ← hsplit]
    exact ⟨hkeys, hafter⟩

/-- **The bytes of a character complete its key with the last of them,** also where they break
another character off. -/
theorem exists_last_byte {decoder : Decoder} (hdecoder : decoder.TakesText) {c : Char}
    (hc : Printable c) : ∃ front last, String.utf8EncodeChar c = front ++ [last] ∧
      decoder.keys front = [] ∧ (decoder.after front).step last = (normal, some (.char c)) := by
  obtain ⟨lead, tail, henc, hwidth, hcont, -⟩ := Utf8.utf8EncodeChar_shape c
  have hdecode := Utf8.decodeChar?_utf8EncodeChar c
  rw [henc] at hdecode
  have hlead : decoder.step lead = start lead :=
    hdecoder.step_of_fresh (Utf8.isContinuation_eq_false_of_width (by omega))
  rcases List.eq_nil_or_concat' tail with rfl | ⟨more, last, rfl⟩
  · obtain ⟨hnumber, hlow⟩ := Utf8.toNat_of_utf8EncodeChar_singleton henc
    have hascii : 0x20 ≤ lead.toNat ∧ lead.toNat ≤ 0x7e := by
      obtain ⟨hspace, hdelete⟩ := hc
      omega
    refine ⟨[], lead, henc, rfl, ?_⟩
    show decoder.step lead = _
    rw [hlead, start_of_ascii hascii.1 hascii.2, hnumber, Char.ofNat_toNat]
  · have hstart : decoder.step lead = (gathering [lead] (Utf8.width lead), none) := by
      rw [hlead, start_of_lead]
      rw [hwidth, List.length_append, List.length_singleton]
      omega
    have hall : ([lead] ++ more ++ [last]).length = Utf8.width lead := hwidth.symm
    have hshort : ([lead] ++ more).length < Utf8.width lead := by
      simp only [List.length_append, List.length_singleton] at hall ⊢
      omega
    obtain ⟨hkeys, hafter⟩ :=
      after_gathering (fun b hb => hcont b (List.mem_append_left _ hb)) hshort
    refine ⟨lead :: more, last, henc, ?_, ?_⟩
    · rw [keys_cons, hstart]
      exact hkeys
    · have hwhole : Utf8.decodeChar? ([lead] ++ more ++ [last]) = some c := hdecode
      rw [after_cons, hstart, hafter, step_gathering, if_pos (hcont last (by simp)),
        if_neg (by omega), hwhole, Option.map_some]

end Decoder

end LineShell
