import PyCoyote.LockInvariant

/-!
# A call of the function and the end of the process

Between two calls of the function the event thread has no code left. Within a
call the temporary `std::thread` is joinable only just before its detach, so it
is never destroyed while joinable, and no step ends the process but an exception
of the callable. A thread on which the destructor is in progress keeps the GIL.
-/

namespace PyCoyote.Trampoline

open Library.GlobalLock Library.Transition

/-- What is left of a call of the function, and when its temporary is joinable. -/
structure CallInv (s : State) : Prop where
  idle : (∀ v, s.event ≠ .calling v) → s.threads.code .event = []
  joinable : s.joinable = true ↔ s.threads.code .event = [.act .detach]

section Call
variable {outcome : ℕ → CallOutcome} {interrupts : List Int32} {s s' : State}

theorem CallInv.detached (h : CallInv s) (hcode : s.threads.code .event = []) :
    s.joinable = false := by
  rw [Bool.eq_false_iff]
  intro hjoinable
  rw [h.joinable.mp hjoinable] at hcode
  cases hcode

/-- A step of which the call takes no notice. -/
theorem CallInv.congr (h : CallInv s) (hevent : s'.event = s.event)
    (hjoinable : s'.joinable = s.joinable)
    (hcode : s'.threads.code .event = s.threads.code .event) : CallInv s' where
  idle hidle := by
    rw [hcode]
    exact h.idle (hevent ▸ hidle)
  joinable := by
    rw [hjoinable, hcode]
    exact h.joinable

/-- The event thread runs an instruction of the outer lambda. -/
theorem callInv_event {a : Act} {T : Threads ThreadId Act} (h : CallInv s)
    (hlock : LockInv s.threads s.values.length) (hexec : s.threads.exec .event = some (some a, T))
    (heffect : { s with threads := T }.effect a = some s') : CallInv s' := by
  obtain ⟨rest, hcode, rfl⟩ := Threads.exec_eq_act hexec
  have hcalling : ¬∀ v, s.event ≠ .calling v := by
    intro hidle
    rw [h.idle hidle] at hcode
    cases hcode
  obtain ⟨hfirst, rfl⟩ | ⟨hfirst, rfl⟩ | ⟨hfirst, rfl⟩ :=
    outerLambda_suffix (hcode ▸ hlock.event_code) <;> obtain rfl := Instr.act.inj hfirst
  · have hdetached : s.joinable = false := by
      simpa [hcode] using h.joinable
    cases heffect
    exact ⟨fun hidle => absurd hidle hcalling, by simp [hdetached]⟩
  · obtain ⟨v, -, -, rfl⟩ | ⟨hend, -⟩ | ⟨hstart, -⟩ := effect_cases heffect
    · refine ⟨fun hidle => absurd hidle hcalling, ?_⟩
      simp [Threads.assign_code_of_ne]
    · simp at hend
    · exact absurd rfl hstart
  · have hjoinable : s.joinable = true := h.joinable.mpr hcode
    simp only [State.effect, hjoinable, if_true] at heffect
    cases heffect
    exact ⟨fun hidle => absurd hidle hcalling, by simp⟩

theorem callInv_takes {l : Label} (h : CallInv s) (hlock : LockInv s.threads s.values.length)
    (hcode : CodeInv outcome s) (hstep : Takes outcome s l s') : CallInv s' := by
  cases hstep with
  | deliver v rest hevent hpending =>
      have hdetached := h.detached (h.idle (by simp [hevent]))
      refine ⟨fun hidle => absurd rfl (hidle v), ?_⟩
      simp [hdetached, outerLambda]
  | functionReturns v hevent hempty hdetached =>
      exact ⟨fun _ => hempty, by simp [hdetached, hempty]⟩
  | eventStops hevent hstop => exact ⟨fun _ => h.idle (by simp [hevent]), h.joinable⟩
  | lock t T hbusy hexec =>
      have hne := hlock.ne_event_of_lock hexec
      exact h.congr rfl rfl (Threads.exec_frame hexec hne.symm).1
  | act t a T _ hbusy hexec heffect =>
      obtain ⟨rest, hfirst, -⟩ := Threads.exec_eq_act hexec
      have hruns := hcode t a (by simp [hfirst])
      by_cases ht : t = .event
      · subst ht
        exact callInv_event h hlock hexec heffect
      · have hstart : a ≠ .startThread := fun ha => ht (hruns.eq_event (.inl ha))
        have hdetach : a ≠ .detach := fun ha => ht (hruns.eq_event (.inr ha))
        obtain ⟨hevent, hthreads, hjoinable⟩ := effect_frame hstart hdetach heffect
        refine h.congr hevent hjoinable ?_
        rw [hthreads]
        exact (Threads.exec_frame hexec (Ne.symm ht)).1
  | enter k steps rest v hbusy hcall hval =>
      exact h.congr rfl rfl (Threads.assign_code_of_ne _ (by simp) _)
  | giveUp t hpython hown hbusy =>
      have hne : ThreadId.event ≠ t := fun heq => hlock.event_owner (heq ▸ hown)
      exact h.congr rfl rfl (Threads.giveUp_code_of_ne _ hne)
  | _ => exact h.congr rfl rfl rfl

/-- In every interleaving the temporary is joinable just before its detach and
at no other time. -/
theorem Reaches.callInv (h : Reaches outcome interrupts s) : CallInv s := by
  refine Reachable.invariant CallInv ⟨fun _ => rfl, by simp [initial, initialCode]⟩ ?_ h
  intro s l s' hreach hs hstep
  have hlock := Reaches.lockInv hreach
  have hcode := Reaches.codeInv hreach
  exact callInv_takes hs hlock hcode (takes_of_step hstep).2

/-- Only the end of a call that raises ends the process. -/
theorem Reaches.raises_of_terminated (h : Reaches outcome interrupts s) {l : Label}
    (hstep : step outcome s l = some s') (hend : s'.terminated = true) :
    ∃ t rest, l = .run t ∧ s.threads.code t = .act (.finish .raises) :: rest := by
  obtain ⟨hlive, htakes⟩ := takes_of_step hstep
  have hsame : ¬s.terminated = true := by simp [hlive]
  cases htakes with
  | destroysJoinable v hevent hempty hjoinable =>
      rw [h.callInv.detached hempty] at hjoinable
      cases hjoinable
  | act t a T _ hbusy hexec heffect =>
      obtain ⟨rest, hfirst, -⟩ := Threads.exec_eq_act hexec
      obtain ⟨v, -, -, rfl⟩ | ⟨rfl | ⟨rfl, hdetached⟩, -⟩ | ⟨-, -, -, refs, joinable, rfl⟩ :=
        effect_cases heffect
      · exact absurd hend hsame
      · exact ⟨t, rest, rfl, hfirst⟩
      · have hruns := h.codeInv t .detach (by simp [hfirst])
        obtain rfl := hruns.eq_event (.inr rfl)
        have hsuffix := outerLambda_suffix (hfirst ▸ h.lockInv.event_code)
        obtain rfl : rest = [] := by simpa using hsuffix
        rw [h.callInv.joinable.mpr hfirst] at hdetached
        cases hdetached
      · exact absurd hend hsame
  | _ => exact absurd hend hsame

end Call

/-- A destructor in progress keeps the GIL and the process, and joins only after
it told the event thread to stop. -/
structure DestructorInv (s : State) : Prop where
  owns : ∀ t, s.destructor.thread = some t → s.threads.owner = some t
  live : ∀ t, s.destructor.thread = some t → s.terminated = false
  told : ∀ t, s.destructor = .joining t → s.stop = true

/-- Before and after the destructor there is nothing to keep. -/
theorem DestructorInv.of_idle {s : State}
    (h : s.destructor = .alive ∨ s.destructor = .finished) : DestructorInv s := by
  constructor <;> rcases h with h | h <;> simp [h, Destructor.thread]

/-- Another thread's instruction leaves the GIL with its owner. -/
theorem exec_keeps_owner {T T' : Threads ThreadId Act} {t u : ThreadId} {result : Option Act}
    (hexec : T.exec t = some (result, T')) (hown : T.owner = some u) (hne : u ≠ t) :
    T'.owner = some u := by
  obtain ⟨i, rest, -, -, hcases⟩ := Threads.exec_eq_some hexec
  obtain ⟨-, -, hfree, -⟩ | ⟨-, -, howns, -⟩ | ⟨-, -, -, howner⟩ := hcases
  · rw [hown] at hfree
    cases hfree
  · rw [hown] at howns
    exact absurd (Option.some.inj howns) hne
  · rw [howner, hown]

/-- A thread that runs an instruction is not the one that destroys the object. -/
theorem ne_of_busy {s : State} {t u : ThreadId} (hbusy : s.destructor.thread ≠ some t)
    (hu : s.destructor.thread = some u) : u ≠ t :=
  fun heq => hbusy (heq ▸ hu)

/-- An act leaves the destructor alone. -/
theorem effect_destructor {s s' : State} {a : Act} (h : s.effect a = some s') :
    s'.destructor = s.destructor ∧ s'.stop = s.stop ∧ s'.threads.owner = s.threads.owner := by
  obtain ⟨v, -, -, rfl⟩ | ⟨-, rfl⟩ | ⟨-, -, -, refs, joinable, rfl⟩ := effect_cases h <;>
    exact ⟨rfl, rfl, rfl⟩

/-- While a destructor is in progress no call can raise. -/
theorem DestructorInv.stays_live {outcome : ℕ → CallOutcome} {s s' : State} {l : Label}
    (h : DestructorInv s) (hlock : LockInv s.threads s.values.length)
    (hstep : Takes outcome s l s') (hend : s'.terminated = true →
      ∃ t rest, l = .run t ∧ s.threads.code t = .act (.finish .raises) :: rest)
    {u : ThreadId} (hu : s.destructor.thread = some u) : s'.terminated = false := by
  rw [Bool.eq_false_iff]
  intro hdead
  obtain ⟨t, rest, rfl, hcode⟩ := hend hdead
  have hown := hlock.ok.owner_of_guarded hcode rfl
  have hbusy : s.destructor.thread ≠ some t := by cases hstep <;> assumption
  exact ne_of_busy hbusy hu (Option.some.inj ((h.owns u hu).symm.trans hown))

theorem destructorInv_takes {outcome : ℕ → CallOutcome} {s s' : State} {l : Label}
    (hlock : LockInv s.threads s.values.length) (hlive : s.terminated = false)
    (hend : s'.terminated = true →
      ∃ t rest, l = .run t ∧ s.threads.code t = .act (.finish .raises) :: rest)
    (h : DestructorInv s) (hstep : Takes outcome s l s') : DestructorInv s' := by
  have hstays := fun u => h.stays_live hlock hstep hend (u := u)
  cases hstep with
  | deliver v rest hevent hpending => exact ⟨h.owns, h.live, h.told⟩
  | functionReturns v hevent hcode hdetached => exact ⟨h.owns, h.live, h.told⟩
  | destroysJoinable v hevent hcode hjoinable => exact ⟨h.owns, hstays, h.told⟩
  | eventStops hevent hstop => exact ⟨h.owns, h.live, h.told⟩
  | enter k steps rest v hbusy hcode hval => exact ⟨h.owns, h.live, h.told⟩
  | lock t T hbusy hexec =>
      exact ⟨fun u hu => exec_keeps_owner hexec (h.owns u hu) (ne_of_busy hbusy hu), h.live, h.told⟩
  | act t a T _ hbusy hexec heffect =>
      obtain ⟨hdestructor, hstop, howner⟩ := effect_destructor heffect
      refine ⟨?_, ?_, ?_⟩
      · intro u hu
        rw [hdestructor] at hu
        rw [howner]
        exact exec_keeps_owner hexec (h.owns u hu) (ne_of_busy hbusy hu)
      · intro u hu
        exact hstays u (hdestructor ▸ hu)
      · intro u hu
        rw [hstop]
        exact h.told u (hdestructor ▸ hu)
  | giveUp t hpython hown hbusy =>
      have hnone : ∀ u, s.destructor.thread ≠ some u := by
        intro u hu
        exact ne_of_busy hbusy hu (Option.some.inj ((h.owns u hu).symm.trans hown))
      exact ⟨fun u hu => absurd hu (hnone u), h.live, h.told⟩
  | beginDestroy t halive hpython hown =>
      refine ⟨?_, fun _ _ => hlive, fun u hu => by cases hu⟩
      rintro u hu
      obtain rfl := Option.some.inj hu
      exact hown
  | tell t hdestructor =>
      have hthread : s.destructor.thread = some t := by rw [hdestructor]; rfl
      refine ⟨?_, fun _ _ => hlive, fun _ _ => rfl⟩
      rintro u hu
      obtain rfl := Option.some.inj hu
      exact h.owns t hthread
  | join t hdestructor hevent =>
      have hthread : s.destructor.thread = some t := by rw [hdestructor]; rfl
      refine ⟨?_, fun _ _ => hlive, fun u hu => by cases hu⟩
      rintro u hu
      obtain rfl := Option.some.inj hu
      exact h.owns t hthread
  | destroyed t hdestructor => exact .of_idle (.inr rfl)

theorem Reaches.destructorInv {outcome : ℕ → CallOutcome} {interrupts : List Int32} {s : State}
    (h : Reaches outcome interrupts s) : DestructorInv s := by
  refine Reachable.invariant DestructorInv (.of_idle (.inl rfl)) ?_ h
  intro s l s' hreach hs hstep
  obtain ⟨hlive, htakes⟩ := takes_of_step hstep
  have hend := Reaches.raises_of_terminated hreach hstep
  exact destructorInv_takes (Reaches.lockInv hreach) hlive hend hs htakes

end PyCoyote.Trampoline
