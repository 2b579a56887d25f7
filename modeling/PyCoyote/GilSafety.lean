import PyCoyote.CallInvariant

/-!
# Who holds the GIL when the callable is touched

A call of the callable happens under the GIL in every interleaving. The copy
that the event thread makes of the captured object does not: it never owns the
GIL, so that one interrupt is enough for an unprotected reference count. Nor
does the end of a handler's closure, which comes after the GIL is given back.
-/

namespace PyCoyote.Trampoline

open Library.GlobalLock Library.Transition

/-- The thread that copies, calls or destroys a reference to the callable in a step. -/
def accesses (s : State) : Label → Option ThreadId
  | .run t =>
      match s.threads.code t with
      | .act .copy :: _ => some t
      | .act .destroy :: _ => some t
      | _ => none
  | .enter k _ => some (.handler k)
  | .destroyed => s.destructor.thread
  | _ => none

/-- An instruction is an access of the thread that runs it. -/
theorem accesses_run {s : State} {t u : ThreadId} (h : accesses s (.run u) = some t) :
    t = u := by
  simp only [accesses] at h
  split at h
  · exact (Option.some.inj h).symm
  · exact (Option.some.inj h).symm
  · cases h

/-- In every interleaving the event thread and the handlers own the GIL when
they touch the callable. -/
def GilSafe (outcome : ℕ → CallOutcome) (interrupts : List Int32) : Prop :=
  ∀ s, Reaches outcome interrupts s → ∀ l s', step outcome s l = some s' →
    ∀ t, accesses s l = some t → (∀ p, t ≠ .python p) → s.threads.owner = some t

section Run
variable {outcome : ℕ → CallOutcome} {interrupts : List Int32} {s s' : State}

/-- The callable is called under the GIL only. -/
theorem Reaches.owner_of_enter (h : Reaches outcome interrupts s) {k steps : ℕ}
    (hstep : step outcome s (.enter k steps) = some s') :
    s.threads.owner = some (.handler k) := by
  cases (takes_of_step hstep).2 with
  | enter _ _ rest v hbusy hcode hval => exact h.lockInv.ok.owner_of_guarded hcode rfl

/-- The destructor drops the function's reference under the GIL. -/
theorem Reaches.owner_of_destroyed (h : Reaches outcome interrupts s) {t : ThreadId}
    (ht : s.destructor.thread = some t) : s.threads.owner = some t :=
  h.destructorInv.owns t ht

/-- The event thread touches the callable without the GIL. -/
theorem Reaches.not_owner_event (h : Reaches outcome interrupts s) :
    s.threads.owner ≠ some .event :=
  h.lockInv.event_owner

/-- No interrupt lies ahead, none is being handled and no handler was started. -/
structure Quiet (s : State) : Prop where
  pending : s.pending = []
  values : s.values = []
  event : ∀ v, s.event ≠ .calling v

/-- Without interrupts ahead the trampoline does nothing. -/
theorem quiet_takes {l : Label} (h : Quiet s) (hstep : Takes outcome s l s') : Quiet s' := by
  cases hstep with
  | deliver v rest hevent hpending =>
      rw [h.pending] at hpending
      cases hpending
  | functionReturns v hevent hcode hdetached => exact absurd hevent (h.event v)
  | destroysJoinable v hevent hcode hjoinable => exact absurd hevent (h.event v)
  | eventStops hevent hstop => exact ⟨h.pending, h.values, by simp⟩
  | act t a T s' hbusy hexec heffect =>
      obtain ⟨v, -, hevent, -⟩ | ⟨-, rfl⟩ | ⟨-, -, -, refs, joinable, rfl⟩ := effect_cases heffect
      · exact absurd hevent (h.event v)
      · exact ⟨h.pending, h.values, h.event⟩
      · exact ⟨h.pending, h.values, h.event⟩
  | enter k steps rest v hbusy hcode hval =>
      rw [h.values] at hval
      cases hval
  | _ => exact ⟨h.pending, h.values, h.event⟩

theorem Reaches.quiet (h : Reaches outcome [] s) : Quiet s := by
  refine Reachable.invariant Quiet ⟨rfl, rfl, by simp [initial]⟩ ?_ h
  exact fun s l s' _ hs hstep => quiet_takes hs (takes_of_step hstep).2

end Run

/-- Without interrupts only the destructor touches the callable. -/
theorem gilSafe_nil (outcome : ℕ → CallOutcome) : GilSafe outcome [] := by
  intro s hs l s' hstep t haccess hthread
  have hquiet := hs.quiet
  have hidle := hs.callInv.idle hquiet.event
  have hhandler : ∀ k, s.threads.code (.handler k) = [] := by
    intro k
    apply hs.lockInv.fresh_code
    simp [hquiet.values]
  cases (takes_of_step hstep).2 with
  | lock u T hbusy hexec | act u a T _ hbusy hexec heffect =>
      cases u with
      | event => simp [accesses, hidle] at haccess
      | handler k => simp [accesses, hhandler] at haccess
      | python p => exact absurd (accesses_run haccess) (hthread p)
  | enter k steps rest v hbusy hcode hval =>
      rw [hhandler] at hcode
      cases hcode
  | destroyed u hdestructor => exact hs.owner_of_destroyed haccess
  | _ => cases haccess

/-- The first interrupt makes the event thread copy the callable while a Python
thread owns the GIL. -/
theorem not_gilSafe_cons (outcome : ℕ → CallOutcome) (v : Int32) (rest : List Int32) :
    ¬GilSafe outcome (v :: rest) := by
  intro h
  have hreach : Reaches outcome (v :: rest) _ :=
    (Reachable.refl (initial (v :: rest))).run [.deliver] rfl
  have howner := h _ hreach (.run .event) _ rfl .event rfl (by simp)
  exact hreach.not_owner_event howner

/-- The callable is touched under the GIL only if and only if no interrupt is
ever delivered. -/
theorem gilSafe_iff (outcome : ℕ → CallOutcome) (interrupts : List Int32) :
    GilSafe outcome interrupts ↔ interrupts = [] := by
  constructor
  · intro h
    cases interrupts with
    | nil => rfl
    | cons v rest => exact absurd h (not_gilSafe_cons outcome v rest)
  · rintro rfl
    exact gilSafe_nil outcome

/-- One interrupt with value 73 and a callable that returns. -/
theorem not_gilSafe_one_interrupt : ¬GilSafe (fun _ => .returns) [73] :=
  not_gilSafe_cons _ 73 []

end PyCoyote.Trampoline
