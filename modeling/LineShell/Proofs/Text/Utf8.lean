import LineShell.Text.Utf8
import Mathlib.Tactic.Common
/-!
Reading back what was encoded, and where a byte string can be cut.

The two facts that the rest of the theory uses are `decodeLossy_encode_append` (an encoded text is
read back, whatever bytes stand behind it) and `pieces_append` (a byte string may be cut in front of
any byte that continues no character, and each side is then read by itself). The second one holds
of arbitrary bytes: a broken character in front of the cut ends there, because a sequence that is
refused takes continuation bytes along and nothing else.
-/

set_option autoImplicit false

namespace LineShell.Utf8

/-! ## Bytes by their number -/

/-- The bytes that continue a character are those from `0x80` to `0xbf`. -/
theorem isContinuation_iff {b : UInt8} :
    isContinuation b ↔ 0x80 ≤ b.toNat ∧ b.toNat < 0xc0 := by
  have hall : ∀ n : Fin 256, isContinuation (UInt8.ofNat n) ↔ 0x80 ≤ n.val ∧ n.val < 0xc0 := by
    decide +kernel
  have h := hall ⟨b.toNat, b.toNat_lt⟩
  rwa [UInt8.ofNat_toNat] at h

/-- `width` by the byte's number. -/
theorem width_eq (lead : UInt8) : width lead =
    if lead.toNat < 0x80 then 1
    else if lead.toNat < 0xc0 then 0
    else if lead.toNat < 0xe0 then 2
    else if lead.toNat < 0xf0 then 3
    else if lead.toNat < 0xf8 then 4
    else 0 := by
  unfold width
  simp only [UInt8.lt_iff_toNat_lt]
  rfl

/-- A byte that announces a length continues nothing. -/
theorem isContinuation_eq_false_of_width {b : UInt8} (h : 0 < width b) :
    isContinuation b = false := by
  rw [Bool.eq_false_iff, ne_eq, isContinuation_iff]
  rw [width_eq] at h
  split_ifs at h <;> omega

theorem toNat_ofNat {n : Nat} (h : n < 0x100) : (UInt8.ofNat n).toNat = n :=
  UInt8.toNat_ofNat_of_lt' h

/-! ## The shape of an encoding -/

/-- The byte that continues a character with the lowest six bits of a number. -/
def tailByte (n : Nat) : UInt8 := UInt8.ofNat (n % 0x40 + 0x80)

theorem toNat_tailByte (n : Nat) : (tailByte n).toNat = n % 0x40 + 0x80 :=
  toNat_ofNat (by omega)

theorem isContinuation_tailByte (n : Nat) : isContinuation (tailByte n) := by
  rw [isContinuation_iff, toNat_tailByte]
  omega

/-- **The shape of an encoding.** A byte that announces how many there are, continuation bytes
behind it, and the payload bits spell the code point. -/
theorem utf8EncodeChar_shape (c : Char) : ∃ lead tail, String.utf8EncodeChar c = lead :: tail ∧
    width lead = tail.length + 1 ∧ (∀ b ∈ tail, isContinuation b) ∧
    payload (lead :: tail) = c.toNat := by
  have hc : c.toNat < 0x110000 := by
    rcases c.valid with h | h
    · exact Nat.lt_trans h (by decide)
    · exact h.2
  unfold String.utf8EncodeChar
  rw [show c.val.toNat = c.toNat from rfl]
  generalize c.toNat = v at hc ⊢
  dsimp only
  split
  · have hv : (UInt8.ofNat v).toNat = v := toNat_ofNat (by omega)
    have hw : width (UInt8.ofNat v) = 1 := by rw [width_eq, hv, if_pos (by omega)]
    refine ⟨_, [], rfl, hw, by simp, ?_⟩
    rw [payload, hw, hv]
    rfl
  split
  · have hv : (UInt8.ofNat (v / 64 % 0x20 + 0xc0)).toNat = v / 64 % 0x20 + 0xc0 :=
      toNat_ofNat (by omega)
    have hw : width (UInt8.ofNat (v / 64 % 0x20 + 0xc0)) = 2 := by
      rw [width_eq, hv, if_neg (by omega), if_neg (by omega), if_pos (by omega)]
    refine ⟨_, [tailByte v], rfl, hw, by simp [isContinuation_tailByte], ?_⟩
    rw [payload, hw, hv]
    show [tailByte v].foldl _ ((v / 64 % 0x20 + 0xc0) % 0x20) = v
    simp only [List.foldl_cons, List.foldl_nil, toNat_tailByte]
    omega
  split
  · have hv : (UInt8.ofNat (v / 4096 % 0x10 + 0xe0)).toNat = v / 4096 % 0x10 + 0xe0 :=
      toNat_ofNat (by omega)
    have hw : width (UInt8.ofNat (v / 4096 % 0x10 + 0xe0)) = 3 := by
      rw [width_eq, hv, if_neg (by omega), if_neg (by omega), if_neg (by omega), if_pos (by omega)]
    refine ⟨_, [tailByte (v / 64), tailByte v], rfl, hw, by simp [isContinuation_tailByte], ?_⟩
    rw [payload, hw, hv]
    show [tailByte (v / 64), tailByte v].foldl _ ((v / 4096 % 0x10 + 0xe0) % 0x10) = v
    simp only [List.foldl_cons, List.foldl_nil, toNat_tailByte]
    omega
  · have hv : (UInt8.ofNat (v / 262144 % 0x08 + 0xf0)).toNat = v / 262144 % 0x08 + 0xf0 :=
      toNat_ofNat (by omega)
    have hw : width (UInt8.ofNat (v / 262144 % 0x08 + 0xf0)) = 4 := by
      rw [width_eq, hv, if_neg (by omega), if_neg (by omega), if_neg (by omega), if_neg (by omega),
        if_pos (by omega)]
    refine ⟨_, [tailByte (v / 4096), tailByte (v / 64), tailByte v], rfl, hw,
      by simp [isContinuation_tailByte], ?_⟩
    rw [payload, hw, hv]
    show [tailByte (v / 4096), tailByte (v / 64), tailByte v].foldl _
      ((v / 262144 % 0x08 + 0xf0) % 0x08) = v
    simp only [List.foldl_cons, List.foldl_nil, toNat_tailByte]
    omega

/-- The encoding of a character is read back as this character. -/
theorem decodeChar?_utf8EncodeChar (c : Char) : decodeChar? (String.utf8EncodeChar c) = some c := by
  obtain ⟨lead, tail, henc, -, -, hpay⟩ := utf8EncodeChar_shape c
  rw [decodeChar?, henc, hpay, Char.ofNat_toNat, if_pos henc]

/-- What is accepted has as many bytes as the first of them announces. -/
theorem width_of_decodeChar? {lead : UInt8} {tail : Bytes} {c : Char}
    (h : decodeChar? (lead :: tail) = some c) :
    width lead = tail.length + 1 ∧ ∀ b ∈ tail, isContinuation b := by
  obtain ⟨lead', tail', henc, hw, htail, -⟩ := utf8EncodeChar_shape c
  rw [utf8EncodeChar_of_decodeChar? h, List.cons.injEq] at henc
  obtain ⟨rfl, rfl⟩ := henc
  exact ⟨hw, htail⟩

/-! ## Reading back -/

theorem pieces_utf8EncodeChar_append (c : Char) (rest : Bytes) :
    pieces (String.utf8EncodeChar c ++ rest) = some c :: pieces rest := by
  obtain ⟨lead, tail, henc, hw, -, -⟩ := utf8EncodeChar_shape c
  have hdec := decodeChar?_utf8EncodeChar c
  rw [henc] at hdec ⊢
  rw [List.cons_append, pieces, hw, Nat.add_sub_cancel, List.take_left, List.drop_left, hdec]

theorem pieces_encode_append (text : List Char) (rest : Bytes) :
    pieces (encode text ++ rest) = text.map some ++ pieces rest := by
  induction text with
  | nil => rfl
  | cons c text ih =>
    rw [encode, List.flatMap_cons, List.append_assoc, pieces_utf8EncodeChar_append, ← encode, ih,
      List.map_cons, List.cons_append]

/-- **An encoded text is read back,** whatever stands behind it. -/
theorem decodeLossy_encode_append (text : List Char) (rest : Bytes) :
    decodeLossy (encode text ++ rest) = text ++ decodeLossy rest := by
  rw [decodeLossy, pieces_encode_append, List.map_append, List.map_map]
  have h : (fun piece : Option Char => piece.getD replacement) ∘ some = id := rfl
  rw [h, List.map_id, ← decodeLossy]

@[simp] theorem decodeLossy_encode (text : List Char) : decodeLossy (encode text) = text := by
  have h := decodeLossy_encode_append text []
  rwa [List.append_nil, show decodeLossy [] = [] by rw [decodeLossy, pieces]; rfl,
    List.append_nil] at h

@[simp] theorem encode_append (s t : List Char) : encode (s ++ t) = encode s ++ encode t :=
  List.flatMap_append

/-- All values of a list are there if none is missing. -/
theorem mapM_id_eq_some {α : Type} {l : List (Option α)} {values : List α} :
    l.mapM id = some values ↔ l = values.map some := by
  induction l generalizing values with
  | nil => cases values <;> simp
  | cons first l ih =>
    simp only [List.mapM_cons, id, Option.bind_eq_bind, Option.bind_eq_some_iff, ih]
    cases values <;> simp [and_comm, eq_comm, and_assoc]

/-- Where all pieces are characters they are what was encoded. -/
theorem eq_encode_of_pieces {bytes : Bytes} {text : List Char}
    (h : pieces bytes = text.map some) : bytes = encode text := by
  induction bytes using pieces.induct generalizing text with
  | case1 =>
    rw [pieces] at h
    rw [List.map_eq_nil_iff.1 h.symm]
    rfl
  | case2 lead rest c hdec ih =>
    rw [pieces, hdec] at h
    obtain ⟨d, text, rfl, hd, htext⟩ := List.map_eq_cons_iff.1 h.symm
    cases hd
    rw [encode, List.flatMap_cons, ← encode, ← ih htext.symm, utf8EncodeChar_of_decodeChar? hdec,
      List.cons_append, List.take_append_drop]
  | case3 lead rest hdec ih =>
    rw [pieces, hdec] at h
    obtain ⟨d, text, rfl, hd, -⟩ := List.map_eq_cons_iff.1 h.symm
    cases hd

/-- **The byte strings that are text** are the encodings. -/
theorem decode?_eq_some_iff {bytes : Bytes} {text : List Char} :
    decode? bytes = some text ↔ bytes = encode text := by
  rw [decode?, mapM_id_eq_some]
  constructor
  · exact eq_encode_of_pieces
  · rintro rfl
    have h := pieces_encode_append text []
    rwa [List.append_nil, pieces, List.append_nil] at h

/-! ## Cutting a byte string -/

/-- A byte string that continues no character: empty, or with another first byte. -/
def StartsFresh (bytes : Bytes) : Prop := ∀ b, bytes.head? = some b → isContinuation b = false

theorem startsFresh_encode (text : List Char) : StartsFresh (encode text) := by
  intro b hb
  cases text with
  | nil => simp [encode] at hb
  | cons c text =>
    obtain ⟨lead, tail, henc, hw, -, -⟩ := utf8EncodeChar_shape c
    rw [encode, List.flatMap_cons, henc, List.cons_append, List.head?_cons, Option.some.injEq] at hb
    exact hb ▸ isContinuation_eq_false_of_width (by omega)

/-- A second byte within the range that a first byte allows is a continuation byte. -/
theorem isContinuation_of_secondRange {lead second : UInt8}
    (h : (secondRange lead).1 ≤ second) (h' : second ≤ (secondRange lead).2) :
    isContinuation second := by
  rw [isContinuation_iff]
  rw [UInt8.le_iff_toNat_le] at h h'
  unfold secondRange at h h'
  split_ifs at h h' <;> simp at h h' <;> omega

/-- Continuation bytes at the start of a text are counted without looking past a fresh start. -/
theorem takeWhile_take_append {rest suffix : Bytes} (h : StartsFresh suffix) (n : Nat) :
    ((rest ++ suffix).take n).takeWhile isContinuation
      = (rest.take n).takeWhile isContinuation := by
  induction rest generalizing n with
  | nil =>
    cases suffix with
    | nil => rfl
    | cons b suffix =>
      have hb := h b rfl
      cases n with
      | zero => rfl
      | succ n => simp [hb]
  | cons r rest ih =>
    cases n with
    | zero => rfl
    | succ n =>
      rw [List.cons_append, List.take_succ_cons, List.take_succ_cons, List.takeWhile_cons,
        List.takeWhile_cons, ih n]

/-- A broken sequence ends in front of a fresh start. -/
theorem brokenLength_append {suffix : Bytes} (h : StartsFresh suffix) (lead : UInt8)
    (rest : Bytes) : brokenLength lead (rest ++ suffix) = brokenLength lead rest := by
  cases rest with
  | cons second rest =>
    rw [List.cons_append, brokenLength, brokenLength, takeWhile_take_append h]
  | nil =>
    cases suffix with
    | nil => rfl
    | cons b suffix =>
      have hb := h b rfl
      rw [List.nil_append, brokenLength, brokenLength]
      dsimp only
      rw [if_neg]
      intro hrange
      rw [Bool.and_eq_true, decide_eq_true_eq, decide_eq_true_eq] at hrange
      rw [isContinuation_of_secondRange hrange.1 hrange.2] at hb
      exact Bool.noConfusion hb

theorem brokenLength_le (lead : UInt8) (rest : Bytes) :
    brokenLength lead rest ≤ rest.length + 1 := by
  cases rest with
  | nil => exact Nat.le_refl 1
  | cons second rest =>
    rw [brokenLength]
    dsimp only
    have hle := (List.takeWhile_prefix (p := isContinuation)
      (l := rest.take (width lead - 2))).length_le
    rw [List.length_take] at hle
    rw [List.length_cons]
    split <;> omega

/-- Whether a character is read at the start does not depend on what stands behind a fresh start. -/
theorem decodeChar?_take_append {suffix : Bytes} (h : StartsFresh suffix) (lead : UInt8)
    (rest : Bytes) : decodeChar? (lead :: (rest ++ suffix).take (width lead - 1))
      = decodeChar? (lead :: rest.take (width lead - 1)) := by
  by_cases hlong : width lead - 1 ≤ rest.length
  · rw [List.take_append_of_le_length hlong]
  · -- Too few bytes stand in front of the cut, and what stands behind it does not help.
    have hshort : decodeChar? (lead :: rest.take (width lead - 1)) = none := by
      rw [Option.eq_none_iff_forall_ne_some]
      intro c hc
      have hw := (width_of_decodeChar? hc).1
      rw [List.length_take] at hw
      omega
    rw [hshort, Option.eq_none_iff_forall_ne_some]
    intro c hc
    obtain ⟨hw, htail⟩ := width_of_decodeChar? hc
    cases suffix with
    | nil =>
      rw [List.append_nil, hshort] at hc
      cases hc
    | cons b suffix =>
      have hmem : b ∈ (rest ++ b :: suffix).take (width lead - 1) := by
        rw [List.take_append, List.mem_append]
        obtain ⟨n, hn⟩ : ∃ n, width lead - 1 - rest.length = n + 1 :=
          ⟨width lead - 1 - rest.length - 1, by omega⟩
        rw [hn, List.take_succ_cons]
        exact .inr List.mem_cons_self
      have hb := h b rfl
      rw [htail b hmem] at hb
      exact Bool.noConfusion hb

/-- **A byte string may be cut in front of a fresh start,** and each side is read by itself. -/
theorem pieces_append {bytes suffix : Bytes} (h : StartsFresh suffix) :
    pieces (bytes ++ suffix) = pieces bytes ++ pieces suffix := by
  -- The induction is the one of `pieces`: what is read first is read the same way with `suffix`.
  induction bytes using pieces.induct with
  | case1 => rw [List.nil_append, pieces, List.nil_append]
  | case2 lead rest c hdec ih =>
    have hw := (width_of_decodeChar? hdec).1
    have hfit : width lead - 1 ≤ rest.length := by
      rw [List.length_take] at hw
      omega
    rw [List.cons_append, pieces, pieces, decodeChar?_take_append h, hdec]
    dsimp only
    rw [List.drop_append_of_le_length hfit, ih, List.cons_append]
  | case3 lead rest hdec ih =>
    have hle := brokenLength_le lead rest
    rw [List.cons_append, pieces, pieces, decodeChar?_take_append h, hdec, brokenLength_append h]
    dsimp only
    rw [List.drop_append_of_le_length (by omega), ih, List.cons_append]

theorem decodeLossy_append {bytes suffix : Bytes} (h : StartsFresh suffix) :
    decodeLossy (bytes ++ suffix) = decodeLossy bytes ++ decodeLossy suffix := by
  rw [decodeLossy, pieces_append h, List.map_append, ← decodeLossy, ← decodeLossy]

end LineShell.Utf8

namespace LineShell

@[simp] theorem stringOf?_bytesOf (s : String) : stringOf? (bytesOf s) = some s := by
  simp [stringOf?, bytesOf, Utf8.decode?_eq_some_iff.2 rfl]

/-- Different texts have different bytes. -/
theorem bytesOf_injective : Function.Injective bytesOf := fun s t h => by
  simpa using congrArg stringOf? h

end LineShell
