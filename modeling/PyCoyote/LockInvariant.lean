import PyCoyote.Trampoline

/-!
# The GIL discipline of the trampoline

Every thread takes the GIL only when it does not own it, gives it back only
when it does and runs Python code only while owning it. The event thread never
asks for it. All of this follows from the code of the two lambdas. Each thread
runs only the acts of its own code.
-/

namespace PyCoyote.Trampoline

open Library.GlobalLock Library.Transition

/-- The acts that run Python code. -/
def guarded : Act → Bool
  | .call => true
  | .python => true
  | .finish _ => true
  | _ => false

theorem innerLambda_disciplined : Disciplined guarded false innerLambda :=
  ⟨rfl, fun _ => rfl, rfl, (fun h => nomatch h), trivial⟩

theorem outerLambda_disciplined : Disciplined guarded false outerLambda := by
  refine ⟨?_, ?_, ?_, trivial⟩ <;> exact fun h => nomatch h

theorem acquire_not_mem_outerLambda : .acquire ∉ outerLambda := by decide

/-- The instructions of the outer lambda, each with what follows it. -/
theorem outerLambda_suffix {i : Instr Act} {rest : List (Instr Act)}
    (h : i :: rest <:+ outerLambda) :
    (i = .act .copy ∧ rest = [.act .startThread, .act .detach]) ∨
    (i = .act .startThread ∧ rest = [.act .detach]) ∨ (i = .act .detach ∧ rest = []) := by
  simpa only [outerLambda, List.suffix_cons_iff, List.cons.injEq, List.suffix_nil, reduceCtorEq,
    or_false] using h

/-- The threads keep to the discipline of the GIL, with `n` handlers started. -/
structure LockInv (T : Threads ThreadId Act) (n : ℕ) : Prop where
  ok : T.Ok guarded
  event_code : T.code .event <:+ outerLambda
  event_owner : T.owner ≠ some .event
  fresh_code : ∀ k, n ≤ k → T.code (.handler k) = []
  fresh_owner : ∀ k, n ≤ k → T.owner ≠ some (.handler k)

namespace LockInv

variable {T T' : Threads ThreadId Act} {n : ℕ}

theorem lt_of_code (h : LockInv T n) {k : ℕ} (hk : T.code (.handler k) ≠ []) : k < n := by
  by_contra hle
  exact hk (h.fresh_code k (not_lt.mp hle))

theorem initial : LockInv ⟨some (.python 0), initialCode⟩ 0 where
  ok t := by
    cases t with
    | event => exact trivial
    | handler k => exact trivial
    | python p =>
        cases p with
        | zero => exact trivial
        | succ p => exact ⟨by simp, trivial⟩
  event_code := List.nil_suffix
  event_owner := by simp
  fresh_code _ _ := rfl
  fresh_owner _ _ := by simp

/-- The event thread enters the function. -/
theorem deliver (h : LockInv T n) : LockInv (T.assign .event outerLambda) n where
  ok := by
    apply h.ok.assign
    rw [decide_eq_false h.event_owner]
    exact outerLambda_disciplined
  event_code := by simp
  event_owner := h.event_owner
  fresh_code k hk := by
    rw [Threads.assign_code_of_ne T (by simp)]
    exact h.fresh_code k hk
  fresh_owner := h.fresh_owner

/-- The next handler starts. -/
theorem start (h : LockInv T n) : LockInv (T.assign (.handler n) innerLambda) (n + 1) where
  ok := by
    apply h.ok.assign
    rw [decide_eq_false (h.fresh_owner n le_rfl)]
    exact innerLambda_disciplined
  event_code := by
    rw [Threads.assign_code_of_ne T (by simp)]
    exact h.event_code
  event_owner := h.event_owner
  fresh_code k hk := by
    have hne : ThreadId.handler k ≠ .handler n := by
      simp only [ne_eq, ThreadId.handler.injEq]
      omega
    rw [Threads.assign_code_of_ne T hne]
    exact h.fresh_code k (by omega)
  fresh_owner k hk := h.fresh_owner k (by omega)

/-- A handler enters the callable. -/
theorem enter (h : LockInv T n) {k : ℕ} {rest : List (Instr Act)}
    (hcode : T.code (.handler k) = .act .call :: rest) (steps : ℕ) (outcome : CallOutcome) :
    LockInv (T.assign (.handler k) ((callBody steps outcome).map .act ++ rest)) n where
  ok := by
    have howns := h.ok.owner_of_guarded hcode rfl
    have hdisc := h.ok (.handler k)
    apply h.ok.assign
    rw [hcode, decide_eq_true howns] at hdisc
    rw [decide_eq_true howns]
    exact hdisc.2.append_acts _
  event_code := by
    rw [Threads.assign_code_of_ne T (by simp)]
    exact h.event_code
  event_owner := h.event_owner
  fresh_code j hj := by
    have hk : k < n := h.lt_of_code (by simp [hcode])
    have hne : ThreadId.handler j ≠ .handler k := by
      simp only [ne_eq, ThreadId.handler.injEq]
      omega
    rw [Threads.assign_code_of_ne T hne]
    exact h.fresh_code j hj
  fresh_owner := h.fresh_owner

/-- The owner gives the GIL up for a while. -/
theorem giveUp (h : LockInv T n) {t : ThreadId} (hown : T.owner = some t) :
    LockInv (T.giveUp t) n where
  ok := h.ok.giveUp hown
  event_code := by
    have hne : ThreadId.event ≠ t := fun heq => h.event_owner (heq ▸ hown)
    rw [Threads.giveUp_code_of_ne T hne]
    exact h.event_code
  event_owner := by simp
  fresh_code k hk := by
    have hne : ThreadId.handler k ≠ t := fun heq => h.fresh_owner k hk (heq ▸ hown)
    rw [Threads.giveUp_code_of_ne T hne]
    exact h.fresh_code k hk
  fresh_owner _ _ := by simp

/-- A thread runs an instruction. -/
theorem exec (h : LockInv T n) {t : ThreadId} {result : Option Act}
    (hexec : T.exec t = some (result, T')) : LockInv T' n := by
  obtain ⟨i, rest, hcode, hcode', hcases⟩ := Threads.exec_eq_some hexec
  have howner : ∀ u, T'.owner = some u → T.owner = some u ∨ (u = t ∧ i = .acquire) := by
    intro u hu
    obtain ⟨hi, -, -, ho⟩ | ⟨-, -, -, ho⟩ | ⟨-, -, -, ho⟩ := hcases
    · exact .inr ⟨(Option.some.inj (ho.symm.trans hu)).symm, hi⟩
    · rw [ho] at hu
      cases hu
    · exact .inl (ho ▸ hu)
  constructor
  · exact h.ok.exec hexec
  · rw [hcode']
    by_cases ht : ThreadId.event = t
    · subst ht
      rw [Function.update_self]
      exact (List.suffix_cons i rest).trans (hcode ▸ h.event_code)
    · rw [Function.update_of_ne ht]
      exact h.event_code
  · intro hevent
    obtain hold | ⟨rfl, rfl⟩ := howner _ hevent
    · exact h.event_owner hold
    · apply acquire_not_mem_outerLambda
      apply h.event_code.subset
      rw [hcode]
      exact List.mem_cons_self
  · intro k hk
    rw [hcode']
    have hne : ThreadId.handler k ≠ t := by
      rintro rfl
      rw [h.fresh_code k hk] at hcode
      cases hcode
    rw [Function.update_of_ne hne]
    exact h.fresh_code k hk
  · intro k hk hown
    obtain hold | ⟨rfl, -⟩ := howner _ hown
    · exact h.fresh_owner k hk hold
    · rw [h.fresh_code k hk] at hcode
      cases hcode

/-- The event thread has no instruction on the GIL. -/
theorem ne_event_of_lock (h : LockInv T n) {t : ThreadId} (hexec : T.exec t = some (none, T')) :
    t ≠ .event := by
  rintro rfl
  obtain ⟨i, rest, hcode, -, hcases⟩ := Threads.exec_eq_some hexec
  have hact := outerLambda_suffix (hcode ▸ h.event_code)
  obtain ⟨rfl, -⟩ | ⟨rfl, -⟩ | ⟨a, -, hnone, -⟩ := hcases
  · simp at hact
  · simp at hact
  · cases hnone

end LockInv

/-- An act of a thread keeps the discipline. -/
theorem lockInv_effect {s s' : State} {a : Act} (h : LockInv s.threads s.values.length)
    (heffect : s.effect a = some s') : LockInv s'.threads s'.values.length := by
  obtain ⟨v, -, -, rfl⟩ | ⟨-, rfl⟩ | ⟨-, -, -, refs, joinable, rfl⟩ := effect_cases heffect
  · simpa using h.start
  · exact h
  · exact h

/-- Every step keeps the discipline. -/
theorem lockInv_takes {outcome : ℕ → CallOutcome} {s s' : State} {l : Label}
    (h : LockInv s.threads s.values.length) (hstep : Takes outcome s l s') :
    LockInv s'.threads s'.values.length := by
  cases hstep with
  | deliver v rest hevent hpending => exact h.deliver
  | functionReturns v hevent hcode hdetached => exact h
  | destroysJoinable v hevent hcode hjoinable => exact h
  | eventStops hevent hstop => exact h
  | lock t T hbusy hexec => exact h.exec hexec
  | act t a T s' hbusy hexec heffect =>
      have hafter := h.exec hexec
      exact lockInv_effect (s := { s with threads := T }) hafter heffect
  | enter k steps rest v hbusy hcode hval => exact h.enter hcode steps (outcome k)
  | giveUp t hpython hown hbusy => exact h.giveUp hown
  | beginDestroy t halive hpython hown => exact h
  | tell t hdestructor => exact h
  | join t hdestructor hevent => exact h
  | destroyed t hdestructor => exact h

/-- The discipline holds in every interleaving. -/
theorem Reaches.lockInv {outcome : ℕ → CallOutcome} {interrupts : List Int32} {s : State}
    (h : Reaches outcome interrupts s) : LockInv s.threads s.values.length :=
  Reachable.invariant (fun s => LockInv s.threads s.values.length) LockInv.initial
    (fun _ _ _ _ hs hstep => lockInv_takes hs (takes_of_step hstep).2) h

/-- The acts of each thread's code; `outcome k` is how the call of handler `k` ends. -/
def Runs (outcome : ℕ → CallOutcome) : ThreadId → Act → Prop
  | .event, a => .act a ∈ outerLambda
  | .handler k, a => .act a ∈ innerLambda ∨ a = .python ∨ a = .finish (outcome k)
  | .python _, _ => False

/-- Only the event thread starts threads and detaches them. -/
theorem Runs.eq_event {outcome : ℕ → CallOutcome} {t : ThreadId} {a : Act} (h : Runs outcome t a)
    (ha : a = .startThread ∨ a = .detach) : t = .event := by
  cases t with
  | event => rfl
  | handler k => rcases ha with rfl | rfl <;> simp [Runs, innerLambda] at h
  | python p => cases h

/-- Every thread is left with acts of its own code only. -/
def CodeInv (outcome : ℕ → CallOutcome) (s : State) : Prop :=
  ∀ t a, .act a ∈ s.threads.code t → Runs outcome t a

theorem CodeInv.assign {outcome : ℕ → CallOutcome} {s : State} (h : CodeInv outcome s)
    {t u : ThreadId} {code : List (Instr Act)} (hcode : ∀ a, .act a ∈ code → Runs outcome t a)
    {a : Act} (ha : .act a ∈ (s.threads.assign t code).code u) : Runs outcome u a := by
  by_cases hu : u = t
  · subst hu
    rw [Threads.assign_code_self] at ha
    exact hcode a ha
  · rw [Threads.assign_code_of_ne _ hu] at ha
    exact h u a ha

theorem codeInv_effect {outcome : ℕ → CallOutcome} {s s' : State} {a : Act}
    (h : CodeInv outcome s) (heffect : s.effect a = some s') : CodeInv outcome s' := by
  obtain ⟨v, -, -, rfl⟩ | ⟨-, rfl⟩ | ⟨-, -, -, refs, joinable, rfl⟩ := effect_cases heffect
  · have hcode : ∀ a, .act a ∈ innerLambda → Runs outcome (.handler s.values.length) a :=
      fun _ => Or.inl
    exact fun u b hb => h.assign hcode hb
  · exact h
  · exact h

theorem codeInv_takes {outcome : ℕ → CallOutcome} {s s' : State} {l : Label}
    (h : CodeInv outcome s) (hstep : Takes outcome s l s') : CodeInv outcome s' := by
  cases hstep with
  | deliver v rest hevent hpending => exact fun u b hb => h.assign (fun _ ha => ha) hb
  | lock t T hbusy hexec => exact fun u b hb => h u b (Threads.mem_of_exec hexec hb)
  | act t a T s' hbusy hexec heffect =>
      apply codeInv_effect (s := { s with threads := T }) _ heffect
      exact fun u b hb => h u b (Threads.mem_of_exec hexec hb)
  | enter k steps rest v hbusy hcode hval =>
      intro u b hb
      refine h.assign (fun a ha => ?_) hb
      obtain ha | ha := List.mem_append.mp ha
      · simp only [callBody, List.map_append, List.map_replicate, List.map_cons, List.map_nil,
          List.mem_append, List.mem_replicate, List.mem_singleton, Instr.act.injEq] at ha
        obtain ⟨-, rfl⟩ | rfl := ha
        · exact .inr (.inl rfl)
        · exact .inr (.inr rfl)
      · apply h (.handler k)
        rw [hcode]
        exact List.mem_cons_of_mem _ ha
  | giveUp t hpython hown hbusy =>
      intro u b hb
      by_cases hu : u = t
      · subst hu
        rw [Threads.giveUp_code_self] at hb
        exact h u b (by simpa using hb)
      · rw [Threads.giveUp_code_of_ne _ hu] at hb
        exact h u b hb
  | functionReturns v hevent hcode hdetached => exact h
  | destroysJoinable v hevent hcode hjoinable => exact h
  | eventStops hevent hstop => exact h
  | beginDestroy t halive hpython hown => exact h
  | tell t hdestructor => exact h
  | join t hdestructor hevent => exact h
  | destroyed t hdestructor => exact h

theorem Reaches.codeInv {outcome : ℕ → CallOutcome} {interrupts : List Int32} {s : State}
    (h : Reaches outcome interrupts s) : CodeInv outcome s := by
  refine Reachable.invariant (CodeInv outcome) ?_
    (fun _ _ _ _ hs hstep => codeInv_takes hs (takes_of_step hstep).2) h
  intro t a ha
  cases t with
  | event | handler k => cases ha
  | python p => cases p <;> simp [initial, initialCode] at ha

end PyCoyote.Trampoline
