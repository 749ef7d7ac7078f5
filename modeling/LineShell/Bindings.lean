/-!
Finite maps from names to texts.

A map is the list of its entries in strictly increasing order of the names, so no name occurs
twice and two maps with the same look-ups are equal. Strings are ordered by code point, which is
the byte order of their UTF-8 forms.
-/

set_option autoImplicit false

namespace LineShell

/-- A finite map from names to texts, kept in increasing order of the names. -/
structure Bindings where
  entries : List (String × String)
  sorted : entries.Pairwise fun a b => a.1 < b.1
deriving DecidableEq

namespace Bindings

/-- The map without entries. -/
def empty : Bindings := ⟨[], .nil⟩

instance : EmptyCollection Bindings := ⟨empty⟩
instance : Inhabited Bindings := ⟨empty⟩

/-- The text a name stands for. -/
def get? (m : Bindings) (name : String) : Option String := m.entries.lookup name

/-- The number of names. -/
def size (m : Bindings) : Nat := m.entries.length

/-! ## Setting a name -/

/-- Puts an entry in its place, over an entry of the same name. -/
def place (name text : String) : List (String × String) → List (String × String)
  | [] => [(name, text)]
  | (n, t) :: rest =>
    if name < n then (name, text) :: (n, t) :: rest
    else if name = n then (name, text) :: rest
    else (n, t) :: place name text rest

theorem mem_place {name text : String} {e : String × String} {l : List (String × String)}
    (h : e ∈ place name text l) : e = (name, text) ∨ e ∈ l := by
  induction l with
  | nil => simpa [place] using h
  | cons head rest ih =>
    obtain ⟨n, t⟩ := head
    grind [place]

theorem sorted_place (name text : String) {l : List (String × String)}
    (h : l.Pairwise fun a b => a.1 < b.1) : (place name text l).Pairwise fun a b => a.1 < b.1 := by
  induction l with
  | nil => simp [place]
  | cons head rest ih =>
    obtain ⟨n, t⟩ := head
    rw [List.pairwise_cons] at h
    unfold place
    split
    · next before =>
      refine .cons (fun e he => ?_) (.cons h.1 h.2)
      rcases List.mem_cons.1 he with rfl | he
      · exact before
      · exact String.lt_trans before (h.1 e he)
    · next notBefore =>
      split
      · next same => exact .cons (fun e he => same ▸ h.1 e he) h.2
      · next differs =>
        refine .cons (fun e he => ?_) (ih h.2)
        rcases mem_place he with rfl | he
        · exact Decidable.byContradiction fun hn =>
            differs (String.le_antisymm (String.not_lt.1 hn) (String.not_lt.1 notBefore))
        · exact h.1 e he

/-- The map with one name set. -/
def insert (m : Bindings) (name text : String) : Bindings :=
  ⟨place name text m.entries, sorted_place name text m.sorted⟩

/-- The map without one name. -/
def erase (m : Bindings) (name : String) : Bindings :=
  ⟨m.entries.filter fun e => e.1 != name, m.sorted.filter _⟩

/-- The map of a list of entries; of two for one name the later counts. -/
def ofList (entries : List (String × String)) : Bindings :=
  entries.foldl (fun m (name, text) => m.insert name text) empty

/-! ## Look-ups after a change -/

@[simp] theorem get?_empty (name : String) : empty.get? name = none := rfl

theorem get?_insert (m : Bindings) (name text other : String) :
    (m.insert name text).get? other = if other = name then some text else m.get? other := by
  obtain ⟨l, hl⟩ := m
  simp only [get?, insert]
  clear hl
  induction l with
  | nil => simp [place, List.lookup_cons]; grind
  | cons head rest ih =>
    obtain ⟨n, t⟩ := head
    unfold place
    split
    · simp [List.lookup_cons]; grind
    · split <;> simp [List.lookup_cons] <;> grind

theorem get?_erase (m : Bindings) (name other : String) :
    (m.erase name).get? other = if other = name then none else m.get? other := by
  obtain ⟨l, hl⟩ := m
  simp only [get?, erase]
  clear hl
  induction l with
  | nil => simp
  | cons head rest ih =>
    obtain ⟨n, t⟩ := head
    rw [List.filter_cons]
    split <;> simp [List.lookup_cons] <;> grind

end Bindings

end LineShell
