import LineShell.Proofs.Editor.Decoding
import Mathlib.Data.List.Induction
/-!
Which characters the decoder reads, and from which bytes.

A character key stands for the bytes up to the one that completes it: they end with the encoding of
the character (`suffix_of_char`), and since the decoder is between keys behind a character, those of
the next one begin later. Other way round a text is read as it was typed, from wherever no escape
sequence is open (`keys_encode`); a character that was broken off takes nothing of it along. Both
are in `recovers_text`, with the bounds on what is gathered of a character.

The text that is typed may hold controls, but of one kind only: those that two bytes encode
(`control_iff`). The ASCII controls are one byte each and pass for keys, or for nothing.
-/

set_option autoImplicit false

namespace LineShell

/-- A control character, in ASCII or behind it. -/
def IsControl (c : Char) : Prop := c.toNat < 0x20 ∨ 0x7f ≤ c.toNat ∧ c.toNat < 0xa0

instance (c : Char) : Decidable (IsControl c) := inferInstanceAs (Decidable (_ ∨ _))

namespace Utf8

theorem width_le (lead : UInt8) : width lead ≤ 4 := by
  rw [width_eq]
  split_ifs <;> omega

theorem utf8EncodeChar_control {c : Char} (hlow : 0x80 ≤ c.toNat) (hhigh : c.toNat < 0xa0) :
    String.utf8EncodeChar c = [0xc2, UInt8.ofNat c.toNat] := by
  -- The payload bits of the second byte are those that the number has above `80`.
  have hlead : c.toNat / 64 % 0x20 + 0xc0 = 0xc2 := by omega
  have htail : c.toNat % 64 + 0x80 = c.toNat := by omega
  rw [String.utf8EncodeChar, show c.val.toNat = c.toNat from rfl, if_neg (by omega),
    if_pos (by omega), hlead, htail]
  rfl

end Utf8

namespace Decoder

variable {decoder : Decoder} {front seen : Bytes} {byte : UInt8} {need : Nat} {c : Char}

/-! ## One byte -/

theorem start_eq_gathering (h : (start byte).1 = gathering seen need) :
    seen = [byte] ∧ need = Utf8.width byte ∧ 2 ≤ need := by
  unfold start at h
  split_ifs at h with _ _ _ _ _ hwidth
  cases h
  exact ⟨rfl, rfl, hwidth⟩

/-- **What leads to the middle of a character:** its first byte, or one more of its bytes. -/
theorem step_eq_gathering (h : (decoder.step byte).1 = gathering seen need) :
    (decoder.TakesText ∧ seen = [byte] ∧ need = Utf8.width byte ∧ 2 ≤ need) ∨
      ∃ before, decoder = gathering before need ∧ seen = before ++ [byte] ∧
        seen.length < need := by
  cases decoder with
  | normal => exact .inl ⟨trivial, start_eq_gathering h⟩
  | escape =>
    have hescape : (if byte = bracketByte then bracket else normal) = gathering seen need := h
    split_ifs at hescape
  | bracket => cases h
  | gathering before need' =>
    rw [step_gathering] at h
    by_cases hcont : Utf8.isContinuation byte = true
    · rw [if_pos hcont] at h
      by_cases hmore : (before ++ [byte]).length < need'
      · rw [if_pos hmore] at h
        cases h
        exact .inr ⟨before, rfl, rfl, hmore⟩
      · rw [if_neg hmore] at h
        cases h
    · rw [if_neg hcont] at h
      exact .inl ⟨trivial, start_eq_gathering h⟩
  | done => cases h

/-! ## Any number of bytes -/

/-- **What is gathered of a character** are the last bytes that were read, at least one and fewer
than the first of them announces. -/
theorem gathered (h : normal.after front = gathering seen need) :
    1 ≤ seen.length ∧ seen.length < need ∧ need ≤ 4 ∧ seen <:+ front := by
  -- The last byte was gathered, and so were the bytes in front of it as long as they were not broken
  -- off; the induction goes back to the first one.
  induction front using List.reverseRecOn generalizing seen with
  | nil => cases h
  | append_singleton front byte ih =>
    rw [after_snoc] at h
    rcases step_eq_gathering h with ⟨-, rfl, rfl, hwidth⟩ | ⟨before, hbefore, rfl, hmore⟩
    · exact ⟨Nat.le_refl 1, hwidth, Utf8.width_le byte, List.suffix_append front [byte]⟩
    · obtain ⟨-, -, hneed, hlast⟩ := ih hbefore
      rw [List.length_append, List.length_singleton] at hmore ⊢
      exact ⟨by omega, hmore, hneed, (List.suffix_append_inj_of_length_eq rfl).2 ⟨hlast, rfl⟩⟩

/-- The first byte that is gathered was read where the next character is read as one. -/
theorem exists_before_lead {lead : UInt8} (h : normal.after front = gathering [lead] need) :
    ∃ before, front = before ++ [lead] ∧ (normal.after before).TakesText := by
  obtain ⟨-, -, -, before, rfl⟩ := gathered h
  refine ⟨before, rfl, ?_⟩
  rw [after_snoc] at h
  rcases step_eq_gathering h with ⟨htakes, -⟩ | ⟨earlier, hearlier, hsplit, -⟩
  · exact htakes
  · have hone := (gathered hearlier).1
    have hlength := congrArg List.length hsplit
    rw [List.length_append, List.length_singleton] at hlength
    omega

/-- **The bytes up to a character key end with the character's encoding.** -/
theorem suffix_of_char (h : ((normal.after front).step byte).2 = some (.char c)) :
    String.utf8EncodeChar c <:+ front ++ [byte] := by
  obtain ⟨-, -, henc | ⟨seen, need, hseen, henc⟩⟩ := step_eq_char h
  · rw [henc]
    exact List.suffix_append front [byte]
  · obtain ⟨-, -, -, before, hlast⟩ := gathered hseen
    exact ⟨before, by rw [henc, ← hlast, List.append_assoc]⟩

theorem keys_utf8EncodeChar (hdecoder : decoder.TakesText) (hc : Printable c) :
    decoder.keys (String.utf8EncodeChar c) = [.char c] ∧
      decoder.after (String.utf8EncodeChar c) = normal := by
  obtain ⟨front, last, henc, hkeys, hlast⟩ := exists_last_byte hdecoder hc
  rw [henc, keys_snoc, after_snoc, hkeys, hlast]
  exact ⟨rfl, rfl⟩

/-- **A text is read as it was typed.** -/
theorem keys_encode (hdecoder : decoder.TakesText) {text : List Char}
    (htext : ∀ c ∈ text, Printable c) : decoder.keys (Utf8.encode text) = text.map .char ∧
      (text ≠ [] → decoder.after (Utf8.encode text) = normal) := by
  induction text generalizing decoder with
  | nil => exact ⟨rfl, fun hne => absurd rfl hne⟩
  | cons c text ih =>
    obtain ⟨hkeys, hafter⟩ := keys_utf8EncodeChar hdecoder (htext c List.mem_cons_self)
    have hnormal : normal.TakesText := trivial
    obtain ⟨hrest, hend⟩ := ih hnormal fun d hd => htext d (List.mem_cons_of_mem c hd)
    have hsplit : Utf8.encode (c :: text) = String.utf8EncodeChar c ++ Utf8.encode text :=
      List.flatMap_cons
    rw [hsplit, keys_append, after_append, hkeys, hafter, hrest]
    refine ⟨rfl, fun _ => ?_⟩
    -- The last character is `c` itself where nothing follows it.
    cases text with
    | nil => rfl
    | cons d text => exact hend (List.cons_ne_nil d text)

/-- **The decoder recovers what was typed.** At whatever byte it reads a character, the bytes up to
there end with the encoding of it; the next character begins behind that byte. A text without ASCII
controls is read character by character where the decoder is between keys or in the middle of a
character, and it is between keys after that, whatever had been read before. Of a character that is
not complete at least one byte is gathered, and fewer than it needs, which are four at most. -/
theorem recovers_text (front : Bytes) :
    (∀ byte c, ((normal.after front).step byte).2 = some (.char c) →
      String.utf8EncodeChar c <:+ front ++ [byte] ∧
        ∀ more last d, ((normal.after (front ++ [byte] ++ more)).step last).2 = some (.char d) →
          String.utf8EncodeChar d <:+ more ++ [last]) ∧
    ((normal.after front).TakesText → ∀ text, text ≠ [] → (∀ c ∈ text, Printable c) →
      (normal.after front).keys (Utf8.encode text) = text.map .char ∧
        normal.after (front ++ Utf8.encode text) = normal) ∧
    (∀ seen need, normal.after front = gathering seen need →
      1 ≤ seen.length ∧ seen.length < need ∧ need ≤ 4) := by
  refine ⟨fun byte c hchar => ⟨suffix_of_char hchar, fun more last d hlater => ?_⟩,
    fun hfront text hne htext => ?_, fun seen need hseen => ?_⟩
  · -- Behind a character the decoder is where it was before the first byte.
    have hagain : normal.after (front ++ [byte] ++ more) = normal.after more := by
      rw [after_append, after_snoc, (step_eq_char hchar).1]
    rw [hagain] at hlater
    exact suffix_of_char hlater
  · obtain ⟨hkeys, hafter⟩ := keys_encode hfront htext
    rw [after_append]
    exact ⟨hkeys, hafter hne⟩
  · obtain ⟨hone, hshort, hneed, -⟩ := gathered hseen
    exact ⟨hone, hshort, hneed⟩

/-- A character of three bytes is broken off by two others, which are read. -/
theorem recovers_text_broken :
    (normal.after [0xe2, 0x82] = gathering [0xe2, 0x82] 3 ∧ (2 : Nat) < 3) ∧
    ((normal.after [0xe2, 0x82]).keys (Utf8.encode ['é', 'a']) = [.char 'é', .char 'a'] ∧
      normal.after ([0xe2, 0x82] ++ Utf8.encode ['é', 'a']) = normal) ∧
    (((normal.after [0xe2, 0x82, 0xc3]).step 0xa9).2 = some (.char 'é') ∧
      String.utf8EncodeChar 'é' <:+ [0xe2, 0x82, 0xc3, 0xa9] ∧
      String.utf8EncodeChar 'a' <:+ [0x61]) := by
  obtain ⟨-, htext, hgathered⟩ := recovers_text [0xe2, 0x82]
  obtain ⟨hchar, -, -⟩ := recovers_text [0xe2, 0x82, 0xc3]
  have hmiddle : normal.after [0xe2, 0x82] = gathering [0xe2, 0x82] 3 := by decide
  have hread : ((normal.after [0xe2, 0x82, 0xc3]).step 0xa9).2 = some (.char 'é') := by decide
  have hnext : ((normal.after ([0xe2, 0x82, 0xc3] ++ [0xa9] ++ [])).step 0x61).2
      = some (.char 'a') := by decide
  obtain ⟨hlast, hlater⟩ := hchar 0xa9 'é' hread
  exact ⟨⟨hmiddle, (hgathered _ _ hmiddle).2.1⟩,
    htext (by decide) ['é', 'a'] (List.cons_ne_nil _ _) (by simp [Printable]), hread, hlast,
    hlater [] 0x61 'a' hnext⟩

/-! ## Controls -/

/-- **Which controls are read as characters:** exactly those from `80` to `9F`, each where its own
number follows the byte `C2` and this byte begins a character, between keys or breaking another
character off. No ASCII control is. -/
theorem control_iff (front : Bytes) (byte : UInt8) (c : Char) :
    (((normal.after front).step byte).2 = some (.char c) ∧ IsControl c) ↔
      0x80 ≤ c.toNat ∧ c.toNat < 0xa0 ∧ byte.toNat = c.toNat ∧
        ∃ before, front = before ++ [0xc2] ∧ (normal.after before).TakesText := by
  constructor
  · rintro ⟨hchar, hcontrol⟩
    obtain ⟨-, ⟨hspace, hdelete⟩, hbytes⟩ := step_eq_char hchar
    have hrange : 0x80 ≤ c.toNat ∧ c.toNat < 0xa0 := by
      rcases hcontrol with hlow | ⟨hlow, hhigh⟩ <;> omega
    rw [Utf8.utf8EncodeChar_control hrange.1 hrange.2] at hbytes
    -- Two bytes encode the character, so it was gathered, and `C2` is all that was.
    obtain hone | ⟨seen, need, hseen, htwo⟩ := hbytes
    · cases hone
    · obtain ⟨rfl, hbyte⟩ : [0xc2] = seen ∧ [UInt8.ofNat c.toNat] = [byte] :=
        List.append_inj' htwo rfl
      have hnumber : byte.toNat = c.toNat := by
        rw [← List.singleton_inj.1 hbyte, Utf8.toNat_ofNat (by omega)]
      exact ⟨hrange.1, hrange.2, hnumber, exists_before_lead hseen⟩
  · rintro ⟨hlow, hhigh, hnumber, before, rfl, htakes⟩
    have hprintable : Printable c := ⟨by omega, by omega⟩
    obtain ⟨first, last, henc, -, hlast⟩ := exists_last_byte htakes hprintable
    rw [Utf8.utf8EncodeChar_control hlow hhigh] at henc
    obtain ⟨rfl, hbyte⟩ : [0xc2] = first ∧ [UInt8.ofNat c.toNat] = [last] :=
      List.append_inj' henc rfl
    obtain rfl : byte = last := by
      rw [← List.singleton_inj.1 hbyte, ← hnumber, UInt8.ofNat_toNat]
    rw [after_append, hlast]
    exact ⟨rfl, .inr ⟨by omega, hhigh⟩⟩

/-- The bytes of U+009B, which stands for `ESC [` on a terminal, are read as a character. -/
theorem control_typed :
    ((normal.after [0xc2]).step 0x9b).2 = some (.char '\u009b') ∧ IsControl '\u009b' := by
  decide

end Decoder

end LineShell
