import LineShell.History
import Mathlib.Order.Defs.Unbundled
/-!
Running one action after another.

An action is a function on states, and a sequence of two is run by running the first one and then
the second one from where that ended. The lemmas here say no more than this; they stand between the
`do` blocks of the library and the states that the other modules reason about.
-/

set_option autoImplicit false

namespace LineShell

section Sequence

variable {ε σ α β : Type} {x : EStateM ε σ α} {f : α → EStateM ε σ β} {s s' : σ}

/-- A first action that succeeds hands over its value and its state. -/
theorem bind_of_ok {a : α} (h : x s = .ok a s') : (x >>= f) s = f a s' := by
  show EStateM.bind x f s = f a s'
  rw [EStateM.bind, h]

/-- A first action that fails is all that happens. -/
theorem bind_of_error {e : ε} (h : x s = .error e s') : (x >>= f) s = .error e s' := by
  show EStateM.bind x f s = .error e s'
  rw [EStateM.bind, h]

/-- A sequence succeeds if both of its actions do, one from where the other ended. -/
theorem bind_eq_ok {b : β} {s'' : σ} :
    (x >>= f) s = .ok b s'' ↔ ∃ a s', x s = .ok a s' ∧ f a s' = .ok b s'' := by
  constructor
  · intro h
    cases hx : x s with
    | ok a s' => exact ⟨a, s', rfl, by rwa [bind_of_ok hx] at h⟩
    | error e s' => rw [bind_of_error hx] at h; cases h
  · rintro ⟨a, s', hx, hf⟩
    rwa [bind_of_ok hx]

/-- A sequence depends on its first action through what that comes to. -/
theorem bind_congr {y : EStateM ε σ α} (h : x s = y s') : (x >>= f) s = (y >>= f) s' := by
  show EStateM.bind x f s = EStateM.bind y f s'
  rw [EStateM.bind, EStateM.bind, h]

theorem get_bind {f : σ → EStateM ε σ β} : (get >>= f) s = f s s := rfl

theorem modify_bind {g : σ → σ} {f : PUnit → EStateM ε σ β} :
    (modify g >>= f) s = f ⟨⟩ (g s) := rfl

theorem pure_eq (a : α) : (pure a : EStateM ε σ α) s = .ok a s := rfl

/-! ### Where an action ends -/

/-- **Where an action ends:** one thing holds of its value and its state if it succeeds, another one
of its state if it fails. -/
structure Ends (x : EStateM ε σ α) (s : σ) (holds : α → σ → Prop) (broken : σ → Prop) : Prop where
  ok : ∀ a s', x s = .ok a s' → holds a s'
  error : ∀ e s', x s = .error e s' → broken s'

/-- The state that an action ended in, well or not. -/
def endOf : EStateM.Result ε σ α → σ
  | .ok _ s => s
  | .error _ s => s

/-- What holds of the state however the action ends. -/
theorem Ends.endOf {broken : σ → Prop} (h : Ends x s (fun _ s' => broken s') broken) :
    broken (endOf (x s)) := by
  cases hx : x s with
  | ok a s' => exact h.ok a s' hx
  | error e s' => exact h.error e s' hx

theorem ends_of_endOf {broken : σ → Prop} (h : broken (LineShell.endOf (x s))) :
    Ends x s (fun _ s' => broken s') broken := by
  refine ⟨fun a s' hx => ?_, fun e s' hx => ?_⟩
  · rw [hx] at h
    exact h
  · rw [hx] at h
    exact h

/-- An action that gives a value gives it in the state that it ends in. -/
theorem eq_ok_of_run' {a : α} (h : x.run' s = some a) : x s = .ok a (LineShell.endOf (x s)) := by
  delta EStateM.run' EStateM.run at h
  cases hx : x s with
  | ok b s' =>
    rw [hx] at h
    cases h
    rfl
  | error e s' =>
    rw [hx] at h
    cases h

/-- An action that gives no value fails. -/
theorem exists_error_of_run' (h : x.run' s = none) : ∃ e s', x s = .error e s' := by
  delta EStateM.run' EStateM.run at h
  cases hx : x s with
  | ok a s' =>
    rw [hx] at h
    cases h
  | error e s' => exact ⟨e, s', rfl⟩

section

variable {holds : α → σ → Prop} {broken : σ → Prop}

theorem ends_of_ok {a : α} (hx : x s = .ok a s') (h : holds a s') : Ends x s holds broken := by
  refine ⟨fun b s'' hb => ?_, fun e s'' he => ?_⟩
  · rw [hx] at hb
    cases hb
    exact h
  · rw [hx] at he
    cases he

theorem ends_of_error {e : ε} (hx : x s = .error e s') (h : broken s') :
    Ends x s holds broken := by
  refine ⟨fun b s'' hb => ?_, fun e s'' he => ?_⟩
  · rw [hx] at hb
    cases hb
  · rw [hx] at he
    cases he
    exact h

theorem ends_pure {a : α} (h : holds a s) : Ends (pure a : EStateM ε σ α) s holds broken :=
  ends_of_ok rfl h

/-- A sequence whose first action may fail in its own way. -/
theorem Ends.bind_mono {later : β → σ → Prop} {broken' : σ → Prop} (hx : Ends x s holds broken)
    (herror : ∀ s', broken s' → broken' s')
    (hf : ∀ a s', holds a s' → Ends (f a) s' later broken') : Ends (x >>= f) s later broken' := by
  cases h : x s with
  | ok a s' =>
    have hnext := hf a s' (hx.ok a s' h)
    refine ⟨fun b s'' hb => hnext.ok b s'' ?_, fun e s'' he => hnext.error e s'' ?_⟩
    · rwa [bind_of_ok h] at hb
    · rwa [bind_of_ok h] at he
  | error e s' => exact ends_of_error (bind_of_error h) (herror s' (hx.error e s' h))

theorem Ends.bind {later : β → σ → Prop} (hx : Ends x s holds broken)
    (hf : ∀ a s', holds a s' → Ends (f a) s' later broken) : Ends (x >>= f) s later broken :=
  hx.bind_mono (fun _ h => h) hf

/-- A sequence ends where its second action does if the first one succeeds. -/
theorem ends_bind_of_ok {a : α} {later : β → σ → Prop} (hx : x s = .ok a s')
    (hf : Ends (f a) s' later broken) : Ends (x >>= f) s later broken := by
  refine ⟨fun b s'' hb => hf.ok b s'' ?_, fun e s'' he => hf.error e s'' ?_⟩
  · rwa [bind_of_ok hx] at hb
  · rwa [bind_of_ok hx] at he

/-- An action that ends well unless something impossible holds succeeds. -/
theorem Ends.exists_ok (h : Ends x s holds broken) (hnot : ∀ s', ¬ broken s') :
    ∃ a s', x s = .ok a s' ∧ holds a s' := by
  cases hx : x s with
  | ok a s' => exact ⟨a, s', rfl, h.ok a s' hx⟩
  | error e s' => exact absurd (h.error e s' hx) (hnot s')

theorem Ends.mono {holds' : α → σ → Prop} {broken' : σ → Prop} (h : Ends x s holds broken)
    (hok : ∀ a s', holds a s' → holds' a s') (herror : ∀ s', broken s' → broken' s') :
    Ends x s holds' broken' :=
  ⟨fun a s' ha => hok a s' (h.ok a s' ha), fun e s' he => herror s' (h.error e s' he)⟩

end

theorem ends_get_bind {f : σ → EStateM ε σ β} {holds : β → σ → Prop} {broken : σ → Prop} :
    Ends (get >>= f) s holds broken ↔ Ends (f s) s holds broken :=
  ⟨fun h => ⟨h.ok, h.error⟩, fun h => ⟨h.ok, h.error⟩⟩

theorem ends_modify_bind {g : σ → σ} {f : PUnit → EStateM ε σ β} {holds : β → σ → Prop}
    {broken : σ → Prop} :
    Ends (modify g >>= f) s holds broken ↔ Ends (f ⟨⟩) (g s) holds broken :=
  ⟨fun h => ⟨h.ok, h.error⟩, fun h => ⟨h.ok, h.error⟩⟩

end Sequence

/-! ### What an action keeps -/

/-- **An action that keeps a relation:** wherever it starts, it leads to a state in that relation,
whether it succeeds or fails. -/
def Keeps {ε σ α : Type} (R : σ → σ → Prop) (x : EStateM ε σ α) : Prop :=
  ∀ s, Ends x s (fun _ t => R s t) (R s)

namespace Keeps

variable {ε σ α β : Type} {R : σ → σ → Prop} [IsPreorder σ R] {x : EStateM ε σ α}

theorem pure (a : α) : Keeps R (pure a : EStateM ε σ α) := fun s => ends_pure (refl_of R s)

theorem bind {f : α → EStateM ε σ β} (hx : Keeps R x) (hf : ∀ a, Keeps R (f a)) :
    Keeps R (x >>= f) := by
  intro s
  refine (hx s).bind fun a t ht => ?_
  exact (hf a t).mono (fun _ _ hu => trans_of R ht hu) fun _ hu => trans_of R ht hu

omit [IsPreorder σ R] in
theorem get_bind {f : σ → EStateM ε σ α} (hf : ∀ s, Keeps R (f s)) : Keeps R (get >>= f) :=
  fun s => ends_get_bind.2 (hf s s)

omit [IsPreorder σ R] in
theorem ite {c : Prop} [Decidable c] {y : EStateM ε σ α} (hx : Keeps R x) (hy : Keeps R y) :
    Keeps R (if c then x else y) := by
  by_cases hc : c
  · rwa [if_pos hc]
  · rwa [if_neg hc]

theorem forM {f : β → EStateM ε σ PUnit} (hf : ∀ b, Keeps R (f b)) (l : List β) :
    Keeps R (l.forM f) := by
  induction l with
  | nil => exact Keeps.pure PUnit.unit
  | cons b l ih => exact (hf b).bind fun _ => ih

end Keeps

section Failing

variable {ε σ α : Type} {x : EStateM ε σ α} {handle : ε → EStateM ε σ α} {s : σ}
  {holds : α → σ → Prop} {broken broken' : σ → Prop}

/-- What a failed action did stays done, and the other one goes on from there. -/
theorem Ends.tryCatch (hx : Ends x s holds broken')
    (hhandle : ∀ e t, broken' t → Ends (handle e) t holds broken) :
    Ends (tryCatch x handle) s holds broken := by
  cases h : x s with
  | ok a t =>
    have heq : EStateM.tryCatch x handle s = .ok a t := by
      unfold EStateM.tryCatch
      rw [h]
    exact ends_of_ok heq (hx.ok a t h)
  | error e t =>
    have heq : EStateM.tryCatch x handle s = handle e t := by
      unfold EStateM.tryCatch
      rw [h]
      rfl
    have hnext := hhandle e t (hx.error e t h)
    refine ⟨fun a u hu => hnext.ok a u ?_, fun e' u hu => hnext.error e' u ?_⟩
    · rwa [← heq]
    · rwa [← heq]

theorem Keeps.tryCatch {R : σ → σ → Prop} [IsPreorder σ R] (hx : Keeps R x)
    (hhandle : ∀ e, Keeps R (handle e)) : Keeps R (tryCatch x handle) := by
  intro s
  refine (hx s).tryCatch fun e t ht => ?_
  exact (hhandle e t).mono (fun _ _ hu => trans_of R ht hu) fun _ hu => trans_of R ht hu

/-- An action whose failure is told in another way ends in the same states. -/
theorem Ends.adaptExcept {ε' : Type} {f : ε → ε'} (hx : Ends x s holds broken) :
    Ends (EStateM.adaptExcept f x) s holds broken := by
  cases h : x s with
  | ok a t =>
    have heq : EStateM.adaptExcept f x s = .ok a t := by
      unfold EStateM.adaptExcept
      rw [h]
    exact ends_of_ok heq (hx.ok a t h)
  | error e t =>
    have heq : EStateM.adaptExcept f x s = .error (f e) t := by
      unfold EStateM.adaptExcept
      rw [h]
    exact ends_of_error heq (hx.error e t h)

end Failing

/-! ### Results without a state -/

theorem except_ok_bind {ε α β : Type} (a : α) (f : α → Except ε β) :
    (Except.ok a >>= f) = f a := rfl

theorem except_error_bind {ε α β : Type} (e : ε) (f : α → Except ε β) :
    (Except.error e >>= f) = .error e := rfl

theorem except_bind_eq_ok {ε α β : Type} {x : Except ε α} {f : α → Except ε β} {b : β} :
    (x >>= f) = .ok b ↔ ∃ a, x = .ok a ∧ f a = .ok b := by
  cases x with
  | error e =>
    constructor
    · intro h
      cases h
    · rintro ⟨a, h, -⟩
      cases h
  | ok a =>
    constructor
    · intro h
      exact ⟨a, rfl, h⟩
    · rintro ⟨a', h, h'⟩
      cases h
      exact h'

namespace DeskM

variable {α : Type} {effect : Effect α} {fault : Cause → SessionError} {desk : Desk}

theorem onMachine_of_ok {a : α} {m : Machine} (h : effect desk.machine = .ok a m) :
    onMachine fault effect desk = .ok a { desk with machine := m } := by
  rw [onMachine, h]

theorem onMachine_of_error {cause : Cause} {m : Machine}
    (h : effect desk.machine = .error cause m) :
    onMachine fault effect desk = .error (fault cause) { desk with machine := m } := by
  rw [onMachine, h]

theorem onMachine_eq_ok {a : α} {desk' : Desk} : onMachine fault effect desk = .ok a desk' ↔
    ∃ m, effect desk.machine = .ok a m ∧ desk' = { desk with machine := m } := by
  rw [onMachine]
  cases h : effect desk.machine with
  | ok b m =>
    dsimp only
    rw [EStateM.Result.ok.injEq]
    constructor
    · rintro ⟨rfl, rfl⟩
      exact ⟨m, rfl, rfl⟩
    · rintro ⟨m', hm, rfl⟩
      cases hm
      exact ⟨rfl, rfl⟩
  | error cause m =>
    constructor
    · rintro ⟨⟩
    · rintro ⟨m', hm, -⟩
      cases hm

/-- An effect at the desk ends where it ends, and leaves the history alone. -/
theorem ends_onMachine {holds : α → Machine → Prop} {broken : Machine → Prop}
    (h : Ends effect desk.machine holds broken) :
    Ends (onMachine fault effect) desk
      (fun a later => holds a later.machine ∧ later.history = desk.history)
      fun later => broken later.machine ∧ later.history = desk.history := by
  cases heffect : effect desk.machine with
  | ok a m => exact ends_of_ok (onMachine_of_ok heffect) ⟨h.ok a m heffect, rfl⟩
  | error cause m =>
    exact ends_of_error (onMachine_of_error heffect) ⟨h.error cause m heffect, rfl⟩

end DeskM

end LineShell
