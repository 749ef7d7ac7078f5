import LineShell.Proofs.Shell.Deeds
/-!
What is asked of a terminal.

A reader asks three things of its terminal: to take a text, to show what it has taken, and to give a
key (`Request`). Whether a terminal does all that is asked of it can be said beforehand: it has to
have room for every byte, and to last for the flushes and for the keys (`Machine.Grants`,
`exists_askAll_iff`). Each of these is a limit that is used up bit by bit (`Enough`). Asked for
something that it does not do, it has done what was asked before, and a part of the text that it was
to take; nothing else is done to the machine (`Machine.Told`).
-/

set_option autoImplicit false

namespace LineShell

/-- Something that is asked of a terminal. -/
inductive Request where
  | write (text : String)
  | flush
  | key
deriving DecidableEq, Repr

namespace Request

/-- Asks for it. -/
def ask : Request → Effect Unit
  | .write text => Effect.write text
  | .flush => Effect.flush
  | .key => do
    let _ ← Effect.nextByte
    return ()

/-- The bytes that the screen has to take. -/
def bytes : Request → Bytes
  | .write text => bytesOf text
  | .flush | .key => []

end Request

/-- Asks for one thing after another. -/
def Effect.askAll : List Request → Effect Unit
  | [] => return ()
  | request :: requests => do
    request.ask
    askAll requests

/-! ## Limits -/

/-- **A limit that is enough** for some uses: there is none, or there are no more uses than that. -/
def Enough (limit : Option Nat) (uses : Nat) : Prop := ∀ n, limit = some n → uses ≤ n

section Limits

variable {limit : Option Nat} {uses more : Nat}

theorem enough_none (uses : Nat) : Enough none uses := fun _ h => nomatch h

theorem enough_zero (limit : Option Nat) : Enough limit 0 := fun _ _ => Nat.zero_le _

theorem enough_some_iff {n : Nat} : Enough (some n) uses ↔ uses ≤ n :=
  ⟨fun h => h n rfl, fun h _ heq => Option.some.inj heq ▸ h⟩

theorem enough_one_iff : Enough limit 1 ↔ limit ≠ some 0 := by
  constructor
  · rintro h rfl
    exact absurd (h 0 rfl) (by decide)
  · intro h n hlimit
    have hpositive : n ≠ 0 := fun hzero => h (hzero ▸ hlimit)
    omega

/-- Later uses have to do with what the earlier ones leave. -/
theorem enough_add_iff :
    Enough limit (uses + more) ↔ Enough limit uses ∧ Enough (limit.map (· - uses)) more := by
  cases limit with
  | none => exact ⟨fun _ => ⟨enough_none _, enough_none _⟩, fun _ => enough_none _⟩
  | some n =>
    rw [Option.map_some, enough_some_iff, enough_some_iff, enough_some_iff]
    omega

end Limits

/-! ## Whether it is granted -/

/-- **A terminal that does all that is asked of it.** -/
structure Machine.Grants (m : Machine) (requests : List Request) : Prop where
  room : Enough m.screen.room (requests.flatMap Request.bytes).length
  flushes : Enough m.screen.flushes (requests.count .flush)
  keys : Enough m.keys.failsAfter (requests.count .key)

/-- A terminal that never fails does whatever is asked of it. -/
theorem Machine.grants_of_neverFails {m : Machine} (hscreen : m.screen.NeverFails)
    (hkeys : m.keys.failsAfter = none) (requests : List Request) : m.Grants requests where
  room := hscreen.room ▸ enough_none _
  flushes := hscreen.flushes ▸ enough_none _
  keys := hkeys ▸ enough_none _

/-- What is left of a terminal that did something. -/
structure Request.Spent (request : Request) (m n : Machine) : Prop where
  room : n.screen.room = m.screen.room.map (· - request.bytes.length)
  flushes : n.screen.flushes = m.screen.flushes.map (· - [request].count .flush)
  failsAfter : n.keys.failsAfter = m.keys.failsAfter.map (· - [request].count .key)
  unread : n.keys.unread = m.keys.unread.drop ([request].count .key)

namespace Request

variable {m n : Machine} {request : Request} {requests : List Request}

/-- A screen falls short of a text exactly if it has not enough room for it. -/
theorem accepted_lt_iff (screen : Screen) (bytes : Bytes) :
    (screen.accepted bytes).length < bytes.length ↔ ¬ Enough screen.room bytes.length := by
  unfold Screen.accepted
  cases screen.room with
  | none => exact iff_of_false (Nat.lt_irrefl _) fun h => h (enough_none _)
  | some n =>
    rw [enough_some_iff, List.length_take]
    omega

theorem grants_write_iff {text : String} :
    m.Grants [.write text] ↔ Enough m.screen.room (bytesOf text).length := by
  have hbytes : [write text].flatMap bytes = bytesOf text := List.flatMap_singleton _ _
  constructor
  · intro h
    have hroom := h.room
    rwa [hbytes] at hroom
  · exact fun h => ⟨by rwa [hbytes], enough_zero _, enough_zero _⟩

theorem grants_flush_iff : m.Grants [.flush] ↔ m.screen.flushes ≠ some 0 :=
  ⟨fun h => enough_one_iff.1 h.flushes,
    fun h => ⟨enough_zero _, enough_one_iff.2 h, enough_zero _⟩⟩

theorem grants_key_iff : m.Grants [.key] ↔ m.keys.failsAfter ≠ some 0 :=
  ⟨fun h => enough_one_iff.1 h.keys, fun h => ⟨enough_zero _, enough_zero _, enough_one_iff.2 h⟩⟩

/-- **One request** is done where it is granted, and nowhere else. -/
theorem ends_ask (request : Request) (m : Machine) :
    Ends request.ask m (fun _ n => m.Grants [request] ∧ request.Spent m n)
      fun _ => ¬ m.Grants [request] := by
  have hstays (limit : Option Nat) : limit = limit.map (· - 0) := by simp
  cases request with
  | write text =>
    rw [grants_write_iff]
    unfold ask Effect.write Effect.writeBytes
    refine ends_get_bind.2 (ends_modify_bind.2 (ends_modify_bind.2 ?_))
    by_cases hfull : (m.screen.accepted (bytesOf text)).length < (bytesOf text).length
    · rw [if_pos hfull]
      exact ends_of_error rfl ((accepted_lt_iff _ _).1 hfull)
    · rw [if_neg hfull]
      exact ends_of_ok rfl ⟨Classical.not_not.1 fun h => hfull ((accepted_lt_iff _ _).2 h),
        ⟨rfl, hstays _, hstays _, rfl⟩⟩
  | flush =>
    rw [grants_flush_iff]
    unfold ask Effect.flush
    refine ends_get_bind.2 ?_
    by_cases hfails : m.screen.flushes = some 0
    · rw [if_pos hfails]
      exact ends_of_error rfl (not_not_intro hfails)
    · rw [if_neg hfails]
      exact ends_of_ok rfl ⟨hfails, ⟨hstays _, rfl, hstays _, rfl⟩⟩
  | key =>
    have heq := Effect.nextByte_eq m
    rw [grants_key_iff]
    unfold ask
    by_cases hfails : m.keys.failsAfter = some 0
    · rw [if_pos hfails] at heq
      exact ends_of_error (bind_of_error heq) (not_not_intro hfails)
    · rw [if_neg hfails] at heq
      refine ends_bind_of_ok heq (ends_pure ⟨hfails, ⟨hstays _, hstays _, rfl, ?_⟩⟩)
      exact List.drop_one.symm

theorem length_flatMap_cons (request : Request) (requests : List Request) :
    ((request :: requests).flatMap bytes).length
      = request.bytes.length + (requests.flatMap bytes).length := by
  rw [List.flatMap_cons, List.length_append]

theorem count_cons_eq (other request : Request) (requests : List Request) :
    (request :: requests).count other = [request].count other + requests.count other := by
  rw [← List.singleton_append, List.count_append]

/-- Of what is asked one thing after another, the rest is asked of what the first thing leaves. -/
theorem Spent.grants_cons (hspent : request.Spent m n) :
    m.Grants (request :: requests) ↔ m.Grants [request] ∧ n.Grants requests := by
  have hbytes : ([request].flatMap bytes).length = request.bytes.length := by
    rw [List.flatMap_singleton]
  constructor
  · rintro ⟨hroom, hflushes, hkeys⟩
    rw [length_flatMap_cons, enough_add_iff] at hroom
    rw [count_cons_eq, enough_add_iff] at hflushes hkeys
    refine ⟨⟨by rw [hbytes]; exact hroom.1, hflushes.1, hkeys.1⟩, ?_, ?_, ?_⟩
    · exact hspent.room ▸ hroom.2
    · exact hspent.flushes ▸ hflushes.2
    · exact hspent.failsAfter ▸ hkeys.2
  · rintro ⟨hfirst, hrest⟩
    refine ⟨?_, ?_, ?_⟩
    · rw [length_flatMap_cons, enough_add_iff, ← hspent.room, ← hbytes]
      exact ⟨hfirst.room, hrest.room⟩
    · rw [count_cons_eq, enough_add_iff, ← hspent.flushes]
      exact ⟨hfirst.flushes, hrest.flushes⟩
    · rw [count_cons_eq, enough_add_iff, ← hspent.failsAfter]
      exact ⟨hfirst.keys, hrest.keys⟩

/-- What is asked together is asked from the first thing on. -/
theorem grants_first (hall : m.Grants (request :: requests)) : m.Grants [request] := by
  obtain ⟨hroom, hflushes, hkeys⟩ := hall
  rw [length_flatMap_cons, enough_add_iff] at hroom
  rw [count_cons_eq, enough_add_iff] at hflushes hkeys
  exact ⟨by rw [List.flatMap_singleton]; exact hroom.1, hflushes.1, hkeys.1⟩

end Request

namespace Effect

variable {m n : Machine} {requests more : List Request}

/-- **A terminal does all that is asked of it** if and only if it grants it. -/
theorem exists_askAll_iff (requests : List Request) (m : Machine) :
    (∃ n, askAll requests m = .ok () n) ↔ m.Grants requests := by
  induction requests generalizing m with
  | nil =>
    refine ⟨fun _ => ?_, fun _ => ⟨m, rfl⟩⟩
    exact ⟨enough_zero _, enough_zero _, enough_zero _⟩
  | cons request requests ih =>
    have hends := request.ends_ask m
    rw [askAll]
    rcases hask : request.ask m with ⟨⟨⟩, n⟩ | ⟨cause, n⟩
    · obtain ⟨hfirst, hspent⟩ := hends.ok _ _ hask
      rw [bind_of_ok hask, ih n, hspent.grants_cons]
      exact (and_iff_right hfirst).symm
    · have hnot := hends.error _ _ hask
      rw [bind_of_error hask]
      constructor
      · rintro ⟨n', h⟩
        cases h
      · exact fun hall => absurd (Request.grants_first hall) hnot

theorem askAll_append (requests more : List Request) :
    askAll (requests ++ more) = (do askAll requests; askAll more) := by
  induction requests with
  | nil => rfl
  | cons request requests ih => rw [List.cons_append, askAll, askAll, ih, bind_assoc]

end Effect

/-! ## What else it does -/

/-- Something that is done to a terminal. -/
def Event.ofTerminal : Event → Bool
  | .wrote _ | .flushed | .awaited => true
  | _ => false

/-- **A machine of which something was asked of the terminal,** and to which nothing else was
done. -/
structure Machine.Told (m n : Machine) : Prop where
  files : n.files = m.files
  workDir : n.workDir = m.workDir
  errors : n.errors = m.errors
  journal : ∃ events, n.journal = events ++ m.journal ∧ events.all Event.ofTerminal = true

namespace Machine

variable {m n : Machine}

theorem told_event {event : Event} (hterminal : event.ofTerminal = true)
    (hfiles : n.files = m.files) (hworkDir : n.workDir = m.workDir) (herrors : n.errors = m.errors)
    (hjournal : n.journal = event :: m.journal) : m.Told n := by
  refine ⟨hfiles, hworkDir, herrors, [event], hjournal, ?_⟩
  rw [List.all_cons, hterminal]
  rfl

instance : IsPreorder Machine Told where
  refl m := ⟨rfl, rfl, rfl, [], rfl, rfl⟩
  trans m n o h h' := by
    obtain ⟨events, hevents, hall⟩ := h.journal
    obtain ⟨more, hmore, hall'⟩ := h'.journal
    refine ⟨h'.files.trans h.files, h'.workDir.trans h.workDir, h'.errors.trans h.errors,
      more ++ events, ?_, ?_⟩
    · rw [hmore, hevents, List.append_assoc]
    · rw [List.all_append, hall, hall']
      rfl

end Machine

namespace Effect

theorem told_ask (request : Request) : Keeps Machine.Told request.ask := by
  intro m
  cases request with
  | write text =>
    unfold Request.ask write writeBytes
    refine ends_get_bind.2 (ends_modify_bind.2 (ends_modify_bind.2 ?_))
    have htold : m.Told { m with
        screen := m.screen.accept (bytesOf text)
        journal := .wrote (m.screen.accepted (bytesOf text)) :: m.journal } :=
      Machine.told_event rfl rfl rfl rfl rfl
    by_cases hfull : (m.screen.accepted (bytesOf text)).length < (bytesOf text).length
    · rw [if_pos hfull]
      exact ends_of_error rfl htold
    · rw [if_neg hfull]
      exact ends_of_ok rfl htold
  | flush =>
    refine (ends_flush m).mono (fun _ n hn => ?_) fun n hn => ?_
    · rw [hn]
      exact Machine.told_event rfl rfl rfl rfl rfl
    · rw [hn]
      exact refl_of Machine.Told m
  | key =>
    have heq := nextByte_eq m
    unfold Request.ask
    by_cases hfails : m.keys.failsAfter = some 0
    · rw [if_pos hfails] at heq
      exact ends_of_error (bind_of_error heq) (Machine.told_event rfl rfl rfl rfl rfl)
    · rw [if_neg hfails] at heq
      exact ends_bind_of_ok heq (ends_pure (Machine.told_event rfl rfl rfl rfl rfl))

theorem told_askAll (requests : List Request) : Keeps Machine.Told (askAll requests) := by
  induction requests with
  | nil => exact Keeps.pure ()
  | cons request requests ih => exact (told_ask request).bind fun _ => ih

end Effect

end LineShell
