import PyCoyote.CallInvariant

/-!
# Destroying a thread while interrupts arrive

The destructor keeps the GIL and joins the event thread. A handler may wait for
the GIL for as long as that takes, but it is detached, so nobody waits for it;
the event thread waits for nobody. Whoever waits therefore waits for the owner
of the GIL, and an owner that waits does so for the event thread, which can go on.
-/

namespace PyCoyote.Trampoline

open Library.GlobalLock Library.Transition

/-- Thread `t` can go on only after thread `u`: it waits for the GIL that `u`
owns, or its destructor joins the event thread. -/
def WaitsFor (s : State) (t u : ThreadId) : Prop :=
  (s.threads.Waiting t ∧ s.threads.owner = some u) ∨
    (s.destructor = .joining t ∧ u = .event ∧ s.event ≠ .stopped)

/-- The steps of the destructor and of the event thread, except that it
receives one more interrupt. -/
def Label.shutsDown : Label → Bool
  | .functionReturns => true
  | .eventStops => true
  | .run .event => true
  | .tell => true
  | .join => true
  | .destroyed => true
  | _ => false

/-- How many threads stand between a thread and one that waits for nobody. -/
def waitRank (s : State) (t : ThreadId) : ℕ :=
  if t = .event then 0 else if s.threads.owner = some t then 1 else 2

section Reached
variable {outcome : ℕ → CallOutcome} {interrupts : List Int32} {s : State}

/-- The event thread never waits for the GIL. -/
theorem Reaches.not_waiting_event (h : Reaches outcome interrupts s) :
    ¬s.threads.Waiting .event := by
  intro hwait
  obtain ⟨rest, hcode⟩ := List.head?_eq_some_iff.mp hwait
  apply acquire_not_mem_outerLambda
  apply h.lockInv.event_code.subset
  rw [hcode]
  exact List.mem_cons_self

/-- Whoever waits, waits for a thread of lower rank. -/
theorem Reaches.waitRank_lt (h : Reaches outcome interrupts s) {t u : ThreadId}
    (hwait : WaitsFor s t u) : waitRank s u < waitRank s t := by
  obtain ⟨hgil, hown⟩ | ⟨hjoin, rfl, -⟩ := hwait
  · have hevent : t ≠ .event := fun heq => h.not_waiting_event (heq ▸ hgil)
    have hnotown := h.lockInv.ok.not_owner_of_waiting hgil
    have ht : waitRank s t = 2 := by
      rw [waitRank, if_neg hevent, if_neg hnotown]
    have hu : waitRank s u ≤ 1 := by
      unfold waitRank
      rw [if_pos hown]
      split <;> omega
    omega
  · have hown := h.destructorInv.owns t (by rw [hjoin]; rfl)
    have hevent : t ≠ .event := fun heq => h.lockInv.event_owner (heq ▸ hown)
    have ht : waitRank s t = 1 := by
      rw [waitRank, if_neg hevent, if_pos hown]
    have hu : waitRank s .event = 0 := if_pos rfl
    omega

/-- No threads wait for each other in a circle. -/
theorem Reaches.acyclic (h : Reaches outcome interrupts s) (t : ThreadId) :
    ¬Relation.TransGen (WaitsFor s) t t :=
  acyclic_of_rank (waitRank s) (fun _ _ => h.waitRank_lt) t

/-- Inside the function the event thread always has a step. -/
theorem Reaches.event_step (h : Reaches outcome interrupts s) {t : ThreadId} {v : Int32}
    (ht : s.destructor.thread = some t) (hevent : s.event = .calling v) :
    (step outcome s .functionReturns).isSome ∨ (step outcome s (.run .event)).isSome := by
  have hlive := h.destructorInv.live t ht
  have hbusy : t ≠ .event := fun heq =>
    h.lockInv.event_owner (heq ▸ h.destructorInv.owns t ht)
  cases hcode : s.threads.code .event with
  | nil =>
      left
      simp [step, hlive, hevent, hcode, h.callInv.detached hcode]
  | cons i rest =>
      right
      have hthread : s.destructor.thread ≠ some .event := by simpa [ht] using hbusy
      obtain ⟨rfl, rfl⟩ | ⟨rfl, rfl⟩ | ⟨rfl, rfl⟩ :=
        outerLambda_suffix (hcode ▸ h.lockInv.event_code)
      · simp [step, hlive, hthread, Threads.exec, hcode, State.effect]
      · simp [step, hlive, hthread, Threads.exec, hcode, State.effect, hevent]
      · have hjoinable := h.callInv.joinable.mpr hcode
        simp [step, hlive, hthread, Threads.exec, hcode, State.effect, hjoinable]

/-- A destructor in progress is never stuck: it or the event thread has a step. -/
theorem Reaches.shutdown_step (h : Reaches outcome interrupts s) {t : ThreadId}
    (ht : s.destructor.thread = some t) :
    ∃ l : Label, l.shutsDown = true ∧ (step outcome s l).isSome := by
  have hlive := h.destructorInv.live t ht
  cases hdestructor : s.destructor with
  | alive => simp [hdestructor, Destructor.thread] at ht
  | finished => simp [hdestructor, Destructor.thread] at ht
  | telling u => exact ⟨.tell, rfl, by simp [step, hlive, hdestructor]⟩
  | joined u => exact ⟨.destroyed, rfl, by simp [step, hlive, hdestructor]⟩
  | joining u =>
      cases hevent : s.event with
      | waiting =>
          have hstop := h.destructorInv.told u hdestructor
          exact ⟨.eventStops, rfl, by simp [step, hlive, hevent, hstop]⟩
      | stopped => exact ⟨.join, rfl, by simp [step, hlive, hdestructor, hevent]⟩
      | calling v =>
          obtain hstep | hstep := h.event_step ht hevent
          · exact ⟨.functionReturns, rfl, hstep⟩
          · exact ⟨.run .event, rfl, hstep⟩

/-- In every interleaving no threads wait in a circle, the event thread does
not wait for the GIL, and a destructor that has begun can go on. -/
theorem destruction_never_deadlocks (h : Reaches outcome interrupts s) :
    (∀ t, ¬Relation.TransGen (WaitsFor s) t t) ∧ ¬s.threads.Waiting .event ∧
      ∀ t, s.destructor.thread = some t →
        ∃ l : Label, l.shutsDown = true ∧ (step outcome s l).isSome := by
  refine ⟨h.acyclic, h.not_waiting_event, ?_⟩
  intro t ht
  exact h.shutdown_step ht

end Reached

/-- The main thread destroys the object and an interrupt arrives before the join. -/
theorem destruction_during_interrupt :
    ∃ s, s.destructor = .joining (.python 0) ∧ s.event = .calling 73 ∧
      (∀ t, ¬Relation.TransGen (WaitsFor s) t t) ∧ ¬s.threads.Waiting .event ∧
        ∀ t, s.destructor.thread = some t →
          ∃ l : Label, l.shutsDown = true ∧ (step (fun _ => .returns) s l).isSome := by
  have hreach : Reaches (fun _ => .returns) [73] _ :=
    (Reachable.refl (initial [73])).run [.beginDestroy (.python 0), .tell, .deliver] rfl
  exact ⟨_, rfl, rfl, destruction_never_deadlocks hreach⟩

end PyCoyote.Trampoline
