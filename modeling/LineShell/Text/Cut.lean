/-!
Cutting a text at the first place where some character stands.
-/

set_option autoImplicit false

namespace LineShell.Text

/-- The texts before and behind the first `mark`, which belongs to neither; `none` if there is no
`mark`. -/
def cutAt? (mark : Char) : List Char → Option (List Char × List Char)
  | [] => none
  | c :: rest =>
    if c = mark then some ([], rest)
    else (cutAt? mark rest).map fun (before, behind) => (c :: before, behind)

/-- The parts of a cut, put together around the mark, are the text, and the first part has no
mark. -/
theorem cutAt?_eq_some_iff {mark : Char} {text before behind : List Char} :
    cutAt? mark text = some (before, behind) ↔
      text = before ++ mark :: behind ∧ mark ∉ before := by
  -- The induction is on the text, for every first part: a character in front joins that part.
  induction text generalizing before with
  | nil => simp [cutAt?]
  | cons c rest ih =>
    unfold cutAt?
    split
    · next same => cases before <;> grind
    · next differs =>
      rw [Option.map_eq_some_iff]
      constructor
      · rintro ⟨⟨b, e⟩, h, heq⟩
        simp only [Prod.mk.injEq] at heq
        obtain ⟨rfl, rfl⟩ := heq
        have := ih.1 h
        grind
      · rintro ⟨h, hb⟩
        cases before with
        | nil => simp_all
        | cons b before =>
          simp only [List.cons_append, List.cons.injEq] at h
          exact ⟨(before, behind), ih.2 ⟨h.2, fun hm => hb (List.mem_cons_of_mem _ hm)⟩,
            by rw [h.1]⟩

end LineShell.Text
