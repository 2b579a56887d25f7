import PyCoyote.Delivery
import PyCoyote.RefCount
import Mathlib.Algebra.BigOperators.Group.Finset.Basic

/-!
# What the trampoline can still do

A schedule that lets the destructor, the event thread and the handlers go on
finishes all of them: the work they have left falls with each step. So no
interleaving leads to a state from which some interrupt cannot be handled any
more. Nothing orders the handlers: they can call the callable in every order.
-/

namespace PyCoyote.Trampoline

open Library.GlobalLock Library.Transition

/-- The steps that some code of a handler has left; a call counts for two, as
its end is not in the code yet. -/
def codeWork (code : List (Instr Act)) : ℕ := code.length + code.count (.act .call)

/-- The steps that a handler has left at each stage. -/
def Stage.work : Stage → ℕ
  | .waiting => 5
  | .holding => 4
  | .inside steps => steps + 3
  | .parked steps => steps + 4
  | .leaving => 2
  | .closing => 1
  | .unstarted => 0
  | .finished => 0

theorem codeWork_code (outcome : CallOutcome) (g : Stage) :
    codeWork (g.code outcome) = g.work := by
  cases g with
  | inside steps | parked steps =>
      simp [codeWork, Stage.code, Stage.work, callBody, List.count_replicate]
  | _ => rfl

namespace State

/-- The steps that the handlers have left. -/
def handlerWork (s : State) : ℕ :=
  ∑ k ∈ Finset.range s.values.length, codeWork (s.threads.code (.handler k))

/-- The steps that the call of the function has left, those of the handler it
will start included. -/
def callWork (s : State) : ℕ :=
  (s.threads.code .event).length + 6 * (s.threads.code .event).count (.act .startThread)

/-- The steps that the event thread has left outside the function. -/
def eventWork (s : State) : ℕ :=
  match s.event with
  | .calling _ => 2
  | .waiting => 1
  | .stopped => 0

/-- The steps that the destructor has left. -/
def destructorWork (s : State) : ℕ :=
  match s.destructor with
  | .telling _ => 3
  | .joining _ => 2
  | .joined _ => 1
  | .alive => 0
  | .finished => 0

/-- A Python thread that owns the GIL has still to give it up. -/
def ownerWork (s : State) : ℕ :=
  match s.threads.owner with
  | some (.python _) => 1
  | _ => 0

/-- All the work left. -/
def work (s : State) : ℕ :=
  s.handlerWork + s.callWork + s.eventWork + 11 * s.pending.length + s.destructorWork + s.ownerWork

/-- Every handler has ended, and the object is destroyed or all interrupts were delivered. -/
def Drained (s : State) : Prop :=
  (∀ k, s.threads.code (.handler k) = []) ∧
    (s.destructor = .finished ∨ (s.destructor = .alive ∧ s.event = .waiting ∧ s.pending = []))

end State

section Step
variable {outcome : ℕ → CallOutcome} {interrupts : List Int32} {s s' : State}

/-- One handler's code changes. -/
theorem handlerWork_update {k : ℕ} (hk : k < s.values.length) (hvalues : s'.values = s.values)
    (hother : ∀ j, j ≠ k → s'.threads.code (.handler j) = s.threads.code (.handler j)) :
    s'.handlerWork + codeWork (s.threads.code (.handler k)) =
      s.handlerWork + codeWork (s'.threads.code (.handler k)) := by
  have hmem : k ∈ Finset.range s.values.length := Finset.mem_range.mpr hk
  have hrest : ∑ j ∈ (Finset.range s.values.length).erase k,
        codeWork (s'.threads.code (.handler j)) =
      ∑ j ∈ (Finset.range s.values.length).erase k, codeWork (s.threads.code (.handler j)) :=
    Finset.sum_congr rfl fun j hj => by rw [hother j (Finset.ne_of_mem_erase hj)]
  rw [State.handlerWork, State.handlerWork, hvalues, ← Finset.add_sum_erase _ _ hmem,
    ← Finset.add_sum_erase _ _ hmem, hrest]
  omega

/-- No handler's code changes. -/
theorem handlerWork_congr (hvalues : s'.values = s.values)
    (hcode : ∀ k, s'.threads.code (.handler k) = s.threads.code (.handler k)) :
    s'.handlerWork = s.handlerWork := by
  rw [State.handlerWork, State.handlerWork, hvalues]
  exact Finset.sum_congr rfl fun k _ => by rw [hcode]

/-- The new handler has its whole code to run. -/
theorem handlerWork_start {T : Threads ThreadId Act} {v : Int32}
    (hvalues : s'.values = s.values ++ [v])
    (hthreads : s'.threads = T.assign (.handler s.values.length) innerLambda)
    (hcode : ∀ k, T.code (.handler k) = s.threads.code (.handler k)) :
    s'.handlerWork = s.handlerWork + 5 := by
  simp only [State.handlerWork, hvalues, hthreads, List.length_append, List.length_singleton,
    Finset.sum_range_succ, Threads.assign_code_self]
  congr 1
  refine Finset.sum_congr rfl fun k hk => ?_
  have hne : k ≠ s.values.length := (Finset.mem_range.mp hk).ne
  rw [Threads.assign_code_of_ne _ (by simpa using hne), hcode]

/-- A step of a thread lowers the work if the code left gets less. -/
theorem work_lt_of_code (hcode : s'.handlerWork + s'.callWork < s.handlerWork + s.callWork)
    (hevent : s'.event = s.event) (hpending : s'.pending = s.pending)
    (hdestructor : s'.destructor = s.destructor) (howner : s'.ownerWork ≤ s.ownerWork) :
    s'.work < s.work := by
  simp only [State.work, State.eventWork, State.destructorWork, hevent, hpending, hdestructor]
  omega

/-- An instruction of the function lowers the work. -/
theorem Reaches.call_moves (h : Reaches outcome interrupts s) (hlive : s.terminated = false)
    (hbusy : s.destructor.thread ≠ some .event) {v : Int32} (hevent : s.event = .calling v)
    {a : Act} {rest : List (Instr Act)} (hcode : s.threads.code .event = .act a :: rest) :
    ∃ s', step outcome s (.run .event) = some s' ∧ s'.work < s.work := by
  have hbefore : s.callWork = (Instr.act a :: rest).length +
      6 * (Instr.act a :: rest).count (.act .startThread) := by rw [State.callWork, hcode]
  let T : Threads ThreadId Act := ⟨s.threads.owner, Function.update s.threads.code .event rest⟩
  have hrun : step outcome s (.run .event) = { s with threads := T }.effect a := by
    simp [step, hlive, hbusy, Threads.exec, hcode, T]
  have hhandlers : ∀ k, T.code (.handler k) = s.threads.code (.handler k) := by
    intro k
    simp [T]
  have hafter : T.code .event = rest := by simp [T]
  by_cases hstart : a = .startThread
  · subst hstart
    refine ⟨{ s with
      values := s.values ++ [v]
      threads := T.assign (.handler s.values.length) innerLambda
      joinable := true },
      hrun.trans (by simp only [State.effect, hevent]), work_lt_of_code ?_ rfl rfl rfl le_rfl⟩
    rw [handlerWork_start rfl rfl hhandlers, hbefore, State.callWork,
      Threads.assign_code_of_ne _ (by simp), hafter, List.length_cons, List.count_cons_self]
    omega
  · have hplain : ∃ refs joinable, State.effect { s with threads := T } a =
        some { s with threads := T, refs := refs, joinable := joinable } := by
      obtain ⟨ha, rfl⟩ | ⟨ha, rfl⟩ | ⟨ha, rfl⟩ := outerLambda_suffix (hcode ▸ h.lockInv.event_code)
        <;> obtain rfl := Instr.act.inj ha
      · exact ⟨_, _, rfl⟩
      · exact absurd rfl hstart
      · have hjoinable := h.callInv.joinable.mpr hcode
        exact ⟨s.refs, false, by simp [State.effect, hjoinable]⟩
    obtain ⟨refs, joinable, heffect⟩ := hplain
    have hsame : State.handlerWork { s with threads := T, refs := refs, joinable := joinable } =
      s.handlerWork := handlerWork_congr rfl hhandlers
    refine ⟨_, hrun.trans heffect, work_lt_of_code ?_ rfl rfl rfl le_rfl⟩
    rw [hsame, hbefore, State.callWork, hafter, List.length_cons,
      List.count_cons_of_ne (by simpa using hstart)]
    omega

/-- Inside the function the event thread has a step that lowers the work. -/
theorem Reaches.event_moves (h : Reaches outcome interrupts s) (hlive : s.terminated = false)
    (hbusy : s.destructor.thread ≠ some .event) {v : Int32} (hevent : s.event = .calling v) :
    ∃ l s', step outcome s l = some s' ∧ s'.work < s.work := by
  cases hcode : s.threads.code .event with
  | nil =>
      refine ⟨.functionReturns, { s with event := .waiting }, ?_, ?_⟩
      · simp [step, hlive, hevent, hcode, h.callInv.detached hcode]
      · have hhandlers : State.handlerWork { s with event := .waiting } = s.handlerWork := rfl
        simp only [State.work, hhandlers, State.callWork, State.eventWork, State.destructorWork,
          State.ownerWork, hevent]
        omega
  | cons i rest =>
      have hmem : i ∈ outerLambda := h.lockInv.event_code.subset (by simp [hcode])
      have hact : ∃ a, i = .act a := by
        cases i with
        | act a => exact ⟨a, rfl⟩
        | acquire | release => simp [outerLambda] at hmem
      obtain ⟨a, rfl⟩ := hact
      exact ⟨.run .event, h.call_moves hlive hbusy hevent hcode⟩

/-- A step of a handler lowers the work if its code gets less. -/
theorem work_lt_of_handler {k : ℕ} {rest : List (Instr Act)} (hk : k < s.values.length)
    (hcode : s'.threads.code = Function.update s.threads.code (.handler k) rest)
    (hless : codeWork rest < codeWork (s.threads.code (.handler k)))
    (hvalues : s'.values = s.values) (hevent : s'.event = s.event)
    (hpending : s'.pending = s.pending) (hdestructor : s'.destructor = s.destructor)
    (howner : ∀ p, s'.threads.owner ≠ some (.python p)) : s'.work < s.work := by
  refine work_lt_of_code ?_ hevent hpending hdestructor ?_
  · have hhandlers := handlerWork_update hk hvalues fun j hj => by
      rw [hcode, Function.update_of_ne (by simpa using hj)]
    have hcall : s'.callWork = s.callWork := by
      rw [State.callWork, State.callWork, hcode, Function.update_of_ne (by simp)]
    rw [hcode, Function.update_self] at hhandlers
    omega
  · have hzero : s'.ownerWork = 0 := by
      unfold State.ownerWork
      split
      · next p hp => exact absurd hp (howner p)
      · rfl
    omega

/-- A handler takes the GIL. -/
theorem run_acquire {t : ThreadId} {rest : List (Instr Act)} (hlive : s.terminated = false)
    (hbusy : s.destructor.thread ≠ some t) (hcode : s.threads.code t = .acquire :: rest)
    (hfree : s.threads.owner = none) : step outcome s (.run t) =
      some { s with threads := ⟨some t, Function.update s.threads.code t rest⟩ } := by
  simp [step, hlive, hbusy, Threads.exec, hcode, hfree]

/-- A handler gives the GIL back. -/
theorem run_release {t : ThreadId} {rest : List (Instr Act)} (hlive : s.terminated = false)
    (hbusy : s.destructor.thread ≠ some t) (hcode : s.threads.code t = .release :: rest)
    (howns : s.threads.owner = some t) : step outcome s (.run t) =
      some { s with threads := ⟨none, Function.update s.threads.code t rest⟩ } := by
  simp [step, hlive, hbusy, Threads.exec, hcode, howns]

theorem run_act {t : ThreadId} {a : Act} {rest : List (Instr Act)} (hlive : s.terminated = false)
    (hbusy : s.destructor.thread ≠ some t) (hcode : s.threads.code t = .act a :: rest) :
    step outcome s (.run t) = State.effect { s with
      threads := ⟨s.threads.owner, Function.update s.threads.code t rest⟩ } a := by
  simp [step, hlive, hbusy, Threads.exec, hcode]

/-- A handler that is not finished has a step that lowers the work, if no other
thread owns the GIL and no destructor runs. -/
theorem Reaches.handler_moves (h : Reaches outcome interrupts s) (hlive : s.terminated = false)
    (hidle : s.destructor.thread = none)
    (hreturns : ∀ k < interrupts.length, outcome k = .returns) {k : ℕ}
    (hk : s.threads.code (.handler k) ≠ [])
    (howner : s.threads.owner = none ∨ s.threads.owner = some (.handler k)) :
    ∃ l s', step outcome s l = some s' ∧ s'.work < s.work := by
  have hlt : k < s.values.length := h.lockInv.lt_of_code hk
  have hbusy : s.destructor.thread ≠ some (.handler k) := by simp [hidle]
  obtain ⟨hcode, hown, -⟩ := h.atStages k
  have hpython : ∀ p, s.threads.owner ≠ some (.python p) := by
    intro p hp
    rcases howner with hnone | hsome <;> simp [hp] at *
  generalize s.stage k = g at hcode hown
  have hwork : ∀ g' : Stage, g'.work < g.work →
      codeWork (g'.code (outcome k)) < codeWork (s.threads.code (.handler k)) := by
    intro g' hless
    rwa [hcode, codeWork_code, codeWork_code]
  cases g with
  | unstarted | finished => exact absurd hcode hk
  | waiting =>
      have hfree : s.threads.owner = none := howner.resolve_right fun ho => Bool.false_ne_true (hown.mp ho)
      refine ⟨_, _, run_acquire hlive hbusy hcode hfree, ?_⟩
      exact work_lt_of_handler hlt rfl (hwork .holding (by decide)) rfl rfl rfl rfl (by simp)
  | holding =>
      have hval := List.getElem?_eq_getElem hlt
      refine ⟨.enter k 0, { s with
        threads := s.threads.assign (.handler k) (Stage.code (outcome k) (.inside 0))
        passed := s.passed ++ [(k, s.values[k])] }, ?_, ?_⟩
      · simp only [step, hlive, hbusy, hcode, hval, Stage.code, Bool.false_eq_true, if_false]
      · exact work_lt_of_handler hlt rfl (hwork (.inside 0) (by decide)) rfl rfl rfl rfl hpython
  | inside steps =>
      cases steps with
      | zero =>
          have hreturn : outcome k = .returns := hreturns k (hlt.trans_le h.values_length_le)
          have hrun : step outcome s (.run (.handler k)) = _ := run_act hlive hbusy hcode
          rw [hreturn] at hrun
          refine ⟨_, _, hrun, ?_⟩
          exact work_lt_of_handler hlt rfl (hwork .leaving (by decide)) rfl rfl rfl rfl hpython
      | succ steps =>
          refine ⟨_, _, run_act hlive hbusy hcode, ?_⟩
          exact work_lt_of_handler hlt rfl (hwork (.inside steps) (by simp [Stage.work]))
            rfl rfl rfl rfl hpython
  | parked steps =>
      have hfree : s.threads.owner = none := howner.resolve_right fun ho => Bool.false_ne_true (hown.mp ho)
      refine ⟨_, _, run_acquire hlive hbusy hcode hfree, ?_⟩
      exact work_lt_of_handler hlt rfl (hwork (.inside steps) (by simp [Stage.work]))
        rfl rfl rfl rfl (by simp)
  | leaving =>
      refine ⟨_, _, run_release hlive hbusy hcode (hown.mpr rfl), ?_⟩
      exact work_lt_of_handler hlt rfl (hwork .closing (by decide)) rfl rfl rfl rfl (by simp)
  | closing =>
      refine ⟨_, _, run_act hlive hbusy hcode, ?_⟩
      exact work_lt_of_handler hlt rfl (hwork .finished (by decide)) rfl rfl rfl rfl hpython

/-- A destructor in progress, or the event thread it waits for, has a step that
lowers the work. -/
theorem Reaches.destructor_moves (h : Reaches outcome interrupts s) (hlive : s.terminated = false)
    {t : ThreadId} (ht : s.destructor.thread = some t) :
    ∃ l s', step outcome s l = some s' ∧ s'.work < s.work := by
  cases hdestructor : s.destructor with
  | alive | finished => simp [hdestructor, Destructor.thread] at ht
  | telling u =>
      refine ⟨.tell, { s with destructor := .joining u, stop := true }, ?_, ?_⟩
      · simp [step, hlive, hdestructor]
      · have hhandlers : State.handlerWork { s with destructor := .joining u, stop := true } =
          s.handlerWork := rfl
        simp only [State.work, hhandlers, State.callWork, State.eventWork, State.destructorWork,
          State.ownerWork, hdestructor]
        omega
  | joined u =>
      refine ⟨.destroyed, { s with destructor := .finished, refs := s.refs - 1 }, ?_, ?_⟩
      · simp [step, hlive, hdestructor]
      · have hhandlers : State.handlerWork { s with
          destructor := .finished, refs := s.refs - 1 } = s.handlerWork := rfl
        simp only [State.work, hhandlers, State.callWork, State.eventWork, State.destructorWork,
          State.ownerWork, hdestructor]
        omega
  | joining u =>
      cases hevent : s.event with
      | calling v =>
          refine h.event_moves hlive (fun hbusy => ?_) hevent
          exact h.lockInv.event_owner (h.destructorInv.owns _ hbusy)
      | stopped =>
          refine ⟨.join, { s with destructor := .joined u }, ?_, ?_⟩
          · simp [step, hlive, hdestructor, hevent]
          · have hhandlers : State.handlerWork { s with destructor := .joined u } =
              s.handlerWork := rfl
            simp only [State.work, hhandlers, State.callWork, State.eventWork,
              State.destructorWork, State.ownerWork, hdestructor]
            omega
      | waiting =>
          have hstop := h.destructorInv.told u hdestructor
          refine ⟨.eventStops, { s with event := .stopped }, ?_, ?_⟩
          · simp [step, hlive, hevent, hstop]
          · have hhandlers : State.handlerWork { s with event := .stopped } =
              s.handlerWork := rfl
            simp only [State.work, hhandlers, State.callWork, State.eventWork,
              State.destructorWork, State.ownerWork, hevent]
            omega

/-- An interrupt that lies ahead can be delivered. -/
theorem deliver_moves (hlive : s.terminated = false) (hwaiting : s.event = .waiting)
    (hidle : s.threads.code .event = []) {v : Int32} {rest : List Int32}
    (hpending : s.pending = v :: rest) : ∃ l s', step outcome s l = some s' ∧ s'.work < s.work := by
  refine ⟨.deliver, { s with
    event := .calling v
    pending := rest
    threads := s.threads.assign .event outerLambda }, ?_, ?_⟩
  · simp [step, hlive, hwaiting, hpending]
  · have hhandlers : State.handlerWork { s with
        event := .calling v
        pending := rest
        threads := s.threads.assign .event outerLambda } = s.handlerWork :=
      handlerWork_congr rfl fun k => Threads.assign_code_of_ne _ (by simp) _
    have hcall : (s.threads.assign .event outerLambda).code .event = outerLambda :=
      Threads.assign_code_self ..
    simp only [State.work, hhandlers, State.callWork, State.eventWork, State.destructorWork,
      State.ownerWork, hwaiting, hidle, hpending, hcall, Threads.assign_owner, List.length_cons]
    have hlength : outerLambda.length = 3 := rfl
    have hcount : outerLambda.count (.act .startThread) = 1 := rfl
    simp only [hlength, hcount, List.length_nil, List.count_nil]
    omega

/-- Short of the end there is always a step that lowers the work. -/
theorem Reaches.moves (h : Reaches outcome interrupts s)
    (hreturns : ∀ k < interrupts.length, outcome k = .returns) (hmore : ¬s.Drained) :
    ∃ l s', step outcome s l = some s' ∧ s'.work < s.work := by
  have hlive := h.live hreturns
  cases hthread : s.destructor.thread with
  | some t => exact h.destructor_moves hlive hthread
  | none =>
      by_cases hcalling : ∃ v, s.event = .calling v
      · obtain ⟨v, hv⟩ := hcalling
        exact h.event_moves hlive (by simp [hthread]) hv
      by_cases hdead : ∀ k, s.threads.code (.handler k) = []
      · -- only the interrupts that lie ahead are left
        have hidle : s.threads.code .event = [] :=
          h.callInv.idle fun v hv => hcalling ⟨v, hv⟩
        have halive : s.destructor = .alive := by
          cases hdestructor : s.destructor with
          | alive => rfl
          | finished => exact absurd ⟨hdead, .inl hdestructor⟩ hmore
          | _ => simp [hdestructor, Destructor.thread] at hthread
        have hwaiting : s.event = .waiting := by
          cases hevent : s.event with
          | waiting => rfl
          | calling v => exact absurd ⟨v, hevent⟩ hcalling
          | stopped => exact absurd halive (h.eventInv.stop (h.eventInv.stopped hevent))
        cases hpending : s.pending with
        | nil => exact absurd ⟨hdead, .inr ⟨halive, hwaiting, hpending⟩⟩ hmore
        | cons v rest => exact deliver_moves hlive hwaiting hidle hpending
      · obtain ⟨k, hk⟩ := not_forall.mp hdead
        cases howner : s.threads.owner with
        | none => exact h.handler_moves hlive hthread hreturns hk (.inl howner)
        | some t =>
            cases t with
            | event => exact absurd howner h.lockInv.event_owner
            | handler j =>
                have hj : s.threads.code (.handler j) ≠ [] := by
                  rw [(h.atStages j).code]
                  exact Stage.code_ne_nil ((h.atStages j).owner.mp howner)
                exact h.handler_moves hlive hthread hreturns hj (.inr howner)
            | python p =>
                refine ⟨.giveUp (.python p), { s with threads := s.threads.giveUp (.python p) }, ?_, ?_⟩
                · simp [step, hlive, State.inPython, howner, hthread]
                · have hhandlers : State.handlerWork { s with
                      threads := s.threads.giveUp (.python p) } = s.handlerWork :=
                    handlerWork_congr rfl fun k => Threads.giveUp_code_of_ne _ (by simp)
                  have hcall : (s.threads.giveUp (.python p)).code .event = s.threads.code .event :=
                    Threads.giveUp_code_of_ne _ (by simp)
                  simp only [State.work, hhandlers, State.callWork, hcall, State.eventWork,
                    State.destructorWork, State.ownerWork, Threads.giveUp_owner, howner]
                  omega

end Step

/-- All interrupts were delivered and the GIL is free; the handlers not chosen
so far have not moved. -/
structure Selecting (interrupts : List Int32) (chosen : List (ℕ × Int32)) (s : State) : Prop where
  values : s.values = interrupts
  passed : s.passed = chosen
  owner : s.threads.owner = none
  handlers : ∀ k < interrupts.length, k ∉ chosen.map Prod.fst →
    s.threads.code (.handler k) = innerLambda
  destructor : s.destructor = .alive
  live : s.terminated = false

/-- Handler `k` takes the GIL, calls the callable and lets the others go on. -/
def callAndPark (k : ℕ) : List Label :=
  [.run (.handler k), .enter k 0, .giveUp (.handler k)]

section Order
variable {outcome : ℕ → CallOutcome} {interrupts : List Int32} {s : State}
  {chosen : List (ℕ × Int32)}

/-- Any handler not chosen so far can be the next one to call. -/
theorem Selecting.choose (h : Selecting interrupts chosen s) {k : ℕ} {v : Int32}
    (hval : interrupts[k]? = some v) (hfresh : k ∉ chosen.map Prod.fst) :
    ∃ s', run (step outcome) s (callAndPark k) = some s' ∧
      Selecting interrupts (chosen ++ [(k, v)]) s' := by
  have hk := (List.getElem?_eq_some_iff.mp hval).1
  have hbusy : s.destructor.thread ≠ some (.handler k) := by simp [h.destructor, Destructor.thread]
  have hcode : s.threads.code (.handler k) = .acquire :: Stage.code (outcome k) .holding :=
    h.handlers k hk hfresh
  let body := Stage.code (outcome k) (.inside 0)
  let held : State := { s with
    threads := ⟨some (.handler k),
      Function.update s.threads.code (.handler k) (Stage.code (outcome k) .holding)⟩ }
  let called : State := { held with
    threads := held.threads.assign (.handler k) body
    passed := held.passed ++ [(k, v)] }
  have hacquire : step outcome s (.run (.handler k)) = some held :=
    run_acquire h.live hbusy hcode h.owner
  have henter : step outcome held (.enter k 0) = some called := by
    simp [step, held, called, body, h.live, hbusy, h.values, hval, Stage.code]
  have hgiveUp : step outcome called (.giveUp (.handler k)) =
      some { called with threads := called.threads.giveUp (.handler k) } := by
    simp [step, held, called, body, h.live, hbusy, State.inPython, Threads.assign, Stage.code,
      callBody]
  refine ⟨{ called with threads := called.threads.giveUp (.handler k) },
    by simp only [run, callAndPark, hacquire, henter, hgiveUp, Option.bind_some],
    h.values, ?_, rfl, ?_, h.destructor, h.live⟩
  · simp [called, held, h.passed]
  · intro j hj hother
    simp only [List.map_append, List.mem_append, not_or] at hother
    have hne : ThreadId.handler j ≠ .handler k := by
      rintro ⟨⟩
      simp at hother
    rw [Threads.giveUp_code_of_ne _ hne, Threads.assign_code_of_ne _ hne]
    exact (Function.update_of_ne hne ..).trans (h.handlers j hj hother.1)

end Order

end PyCoyote.Trampoline
