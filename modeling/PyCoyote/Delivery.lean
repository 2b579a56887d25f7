import PyCoyote.CallInvariant

/-!
# The delivery of interrupts

Handler `k` receives the `k`-th interrupt. In every interleaving each interrupt
delivered to the function belongs to one handler, which holds it until it makes
its one call with it. Nothing catches an exception of the callable: the process
survives every interleaving exactly when no call of a delivered interrupt raises.
-/

namespace PyCoyote.Trampoline

open Library.GlobalLock Library.Transition

namespace State

/-- The calls that handler `k` has still to make. -/
def callsLeft (s : State) (k : ℕ) : ℕ := (s.threads.code (.handler k)).count (.act .call)

/-- The calls made by handler `k`. -/
def callsOf (s : State) (k : ℕ) : List (ℕ × Int32) := s.passed.filter fun p => p.1 = k

/-- The interrupt in the function, before its handler is started. -/
def inFlight (s : State) : List Int32 :=
  match s.event with
  | .calling v => List.replicate ((s.threads.code .event).count (.act .startThread)) v
  | _ => []

end State

/-- The interrupts are those of the handlers, in order, the one in the function
and those ahead; a handler holds its interrupt or has passed it once. -/
structure Accounted (interrupts : List Int32) (s : State) : Prop where
  delivered : interrupts = s.values ++ s.inFlight ++ s.pending
  once : ∀ k v, s.values[k]? = some v →
    (s.callsLeft k = 1 ∧ s.callsOf k = []) ∨ (s.callsLeft k = 0 ∧ s.callsOf k = [(k, v)])
  started : ∀ p ∈ s.passed, p.1 < s.values.length

/-- In every interleaving the process lives and every interrupt is accounted for. -/
def Delivers (outcome : ℕ → CallOutcome) (interrupts : List Int32) : Prop :=
  ∀ s, Reaches outcome interrupts s → s.terminated = false ∧ Accounted interrupts s

section Step
variable {outcome : ℕ → CallOutcome} {interrupts : List Int32} {s s' : State}

/-- A step that starts no handler, makes no call and moves no interrupt. -/
theorem Accounted.congr (h : Accounted interrupts s) (hvalues : s'.values = s.values)
    (hpassed : s'.passed = s.passed) (hpending : s'.pending = s.pending)
    (hflight : s'.inFlight = s.inFlight) (hcalls : ∀ k, s'.callsLeft k = s.callsLeft k) :
    Accounted interrupts s' where
  delivered := by rw [hvalues, hflight, hpending, h.delivered]
  once k v hv := by
    rw [hcalls, State.callsOf, hpassed]
    exact h.once k v (hvalues ▸ hv)
  started := by
    rw [hvalues, hpassed]
    exact h.started

/-- Each interrupt starts one handler. -/
theorem count_startThread {T : Threads ThreadId Act} {n : ℕ} (h : LockInv T n) :
    (T.code .event).count (.act .startThread) ≤ 1 :=
  (h.event_code.sublist.count_le _).trans (by decide)

/-- The value in the function becomes the next handler's. -/
theorem Accounted.start {T : Threads ThreadId Act} {v : Int32}
    (h : Accounted interrupts s) (hlock : LockInv s.threads s.values.length)
    (hexec : s.threads.exec .event = some (some .startThread, T)) (hevent : s.event = .calling v) :
    Accounted interrupts { s with
      values := s.values ++ [v]
      threads := T.assign (.handler s.values.length) innerLambda
      joinable := true } := by
  obtain ⟨rest, hcode, rfl⟩ := Threads.exec_eq_act hexec
  have hrest : rest.count (.act .startThread) = 0 := by
    have := count_startThread hlock
    rw [hcode, List.count_cons_self] at this
    omega
  constructor
  · have hbefore : s.inFlight = [v] := by
      simp [State.inFlight, hevent, hcode, hrest]
    rw [h.delivered, hbefore]
    simp [State.inFlight, hevent, Threads.assign, hrest]
  · intro k w hw
    by_cases hk : k = s.values.length
    · subst hk
      left
      constructor
      · simp [State.callsLeft, innerLambda]
      · apply List.filter_eq_nil_iff.mpr
        intro p hp
        have := h.started p hp
        simp only [decide_eq_true_eq]
        omega
    · have hlt : k < s.values.length := by
        have := (List.getElem?_eq_some_iff.mp hw).1
        simp only [List.length_append, List.length_singleton] at this
        omega
      rw [List.getElem?_append_left hlt] at hw
      have hcalls : (Function.update s.threads.code .event rest) (.handler k) =
          s.threads.code (.handler k) := Function.update_of_ne (by simp) ..
      have hne : ThreadId.handler k ≠ .handler s.values.length := by simpa using hk
      simpa only [State.callsLeft, State.callsOf, Threads.assign, Function.update_of_ne hne,
        hcalls] using h.once k w hw
  · intro p hp
    have := h.started p hp
    simp only [List.length_append, List.length_singleton]
    omega

/-- A handler that has its call to make passes its own value. -/
theorem Accounted.enter {k steps : ℕ} {rest : List (Instr Act)} {v : Int32}
    (h : Accounted interrupts s) (hcode : s.threads.code (.handler k) = .act .call :: rest)
    (hval : s.values[k]? = some v) :
    Accounted interrupts { s with
      threads := s.threads.assign (.handler k) ((callBody steps (outcome k)).map .act ++ rest)
      passed := s.passed ++ [(k, v)] } := by
  have hevent : ThreadId.event ≠ .handler k := by simp
  have hbody : ((callBody steps (outcome k)).map Instr.act).count (.act .call) = 0 := by
    apply List.count_eq_zero.mpr
    simp [callBody]
  have hleft : s.callsLeft k = rest.count (.act .call) + 1 := by
    rw [State.callsLeft, hcode, List.count_cons_self]
  constructor
  · rw [h.delivered]
    simp only [State.inFlight, Threads.assign_code_of_ne _ hevent]
  · intro j w hw
    by_cases hj : j = k
    · subst hj
      obtain rfl : v = w := Option.some.inj (hval.symm.trans hw)
      obtain ⟨hone, hnone⟩ | ⟨hzero, -⟩ := h.once j v hval
      · right
        constructor
        · rw [State.callsLeft, Threads.assign_code_self, List.count_append, hbody]
          omega
        · rw [State.callsOf] at hnone ⊢
          simp [List.filter_append, hnone]
      · omega
    · have hne : ThreadId.handler j ≠ .handler k := by simpa using hj
      have hother : ([(k, v)] : List (ℕ × Int32)).filter (fun p => p.1 = j) = [] := by
        simp [Ne.symm hj]
      simpa only [State.callsLeft, State.callsOf, Threads.assign_code_of_ne _ hne,
        List.filter_append, hother, List.append_nil] using h.once j w hw
  · intro p hp
    obtain hp | hp := List.mem_append.mp hp
    · exact h.started p hp
    · obtain rfl := List.mem_singleton.mp hp
      exact (List.getElem?_eq_some_iff.mp hval).1

/-- An instruction other than the start of a thread and the call. -/
theorem Accounted.exec {T : Threads ThreadId Act} {t : ThreadId} {result : Option Act}
    (h : Accounted interrupts s) (hexec : s.threads.exec t = some (result, T))
    (hstart : result ≠ some .startThread) (hcall : result ≠ some .call) :
    Accounted interrupts { s with threads := T } := by
  refine h.congr rfl rfl rfl ?_ ?_
  · simp only [State.inFlight, Threads.count_exec hexec hstart]
  · intro k
    exact Threads.count_exec hexec hcall _

theorem accounted_act {t : ThreadId} {a : Act} {T : Threads ThreadId Act}
    (h : Accounted interrupts s) (hlock : LockInv s.threads s.values.length)
    (hcode : CodeInv outcome s) (hexec : s.threads.exec t = some (some a, T))
    (heffect : { s with threads := T }.effect a = some s') : Accounted interrupts s' := by
  obtain ⟨v, rfl, hevent, rfl⟩ | ⟨hend, rfl⟩ | ⟨hstart, hcall, -, refs, joinable, rfl⟩ :=
    effect_cases heffect
  · obtain ⟨rest, hfirst, -⟩ := Threads.exec_eq_act hexec
    have hrun := hcode t .startThread (by simp [hfirst])
    obtain rfl := hrun.eq_event (.inl rfl)
    exact h.start hlock hexec hevent
  · have hends : some a ≠ some .startThread ∧ some a ≠ some .call := by
      obtain rfl | ⟨rfl, -⟩ := hend <;> simp
    exact (h.exec hexec hends.1 hends.2).congr rfl rfl rfl rfl fun _ => rfl
  · have hexec' := h.exec hexec (by simpa using hstart) (by simpa using hcall)
    exact hexec'.congr rfl rfl rfl rfl fun _ => rfl

/-- Every step keeps account of every interrupt, also one that ends the process. -/
theorem accounted_takes {l : Label} (h : Accounted interrupts s)
    (hlock : LockInv s.threads s.values.length) (hcode : CodeInv outcome s)
    (hstep : Takes outcome s l s') : Accounted interrupts s' := by
  cases hstep with
  | deliver v rest hevent hpending =>
      constructor
      · rw [h.delivered, hpending]
        simp [State.inFlight, hevent, outerLambda]
      · intro k w hw
        have hne : ThreadId.handler k ≠ .event := by simp
        simpa only [State.callsLeft, State.callsOf, Threads.assign_code_of_ne _ hne]
          using h.once k w hw
      · exact h.started
  | functionReturns v hevent hempty hdetached =>
      refine h.congr rfl rfl rfl ?_ ?_
      · simp [State.inFlight, hevent, hempty]
      · exact fun _ => rfl
  | destroysJoinable v hevent hempty hjoinable => exact h.congr rfl rfl rfl rfl fun _ => rfl
  | eventStops hevent hstop =>
      refine h.congr rfl rfl rfl ?_ ?_
      · simp [State.inFlight, hevent]
      · exact fun _ => rfl
  | lock t T hbusy hexec => exact h.exec hexec (by simp) (by simp)
  | act t a T s' hbusy hexec heffect => exact accounted_act h hlock hcode hexec heffect
  | enter k steps rest v hbusy hcall hval => exact h.enter hcall hval
  | giveUp t hpython hown hbusy =>
      have hcount : ∀ u a, ((s.threads.giveUp t).code u).count (.act a) =
          (s.threads.code u).count (.act a) := by
        intro u a
        by_cases hu : u = t
        · subst hu
          rw [Threads.giveUp_code_self, List.count_cons_of_ne (by simp)]
        · rw [Threads.giveUp_code_of_ne _ hu]
      refine h.congr rfl rfl rfl ?_ ?_
      · simp only [State.inFlight, hcount]
      · exact fun k => hcount _ _
  | beginDestroy t halive hpython hown => exact h.congr rfl rfl rfl rfl fun _ => rfl
  | tell t hdestructor => exact h.congr rfl rfl rfl rfl fun _ => rfl
  | join t hdestructor hevent => exact h.congr rfl rfl rfl rfl fun _ => rfl
  | destroyed t hdestructor => exact h.congr rfl rfl rfl rfl fun _ => rfl

/-- In every interleaving, whatever the calls do, every interrupt is accounted for. -/
theorem Reaches.accounted (h : Reaches outcome interrupts s) : Accounted interrupts s := by
  refine Reachable.invariant (Accounted interrupts) ⟨rfl, by simp [initial], by simp [initial]⟩ ?_ h
  intro s l s' hreach hs hstep
  have hlock := Reaches.lockInv hreach
  have hcode := Reaches.codeInv hreach
  exact accounted_takes hs hlock hcode (takes_of_step hstep).2

theorem Reaches.values_length_le (h : Reaches outcome interrupts s) :
    s.values.length ≤ interrupts.length := by
  have := congrArg List.length h.accounted.delivered
  simp only [List.length_append] at this
  omega

/-- If every call for an interrupt returns, no thread is about to raise. -/
theorem Reaches.not_raising (h : Reaches outcome interrupts s)
    (hreturns : ∀ k < interrupts.length, outcome k = .returns) (t : ThreadId) :
    .act (.finish .raises) ∉ s.threads.code t := by
  intro hmem
  have hrun := h.codeInv t _ hmem
  cases t with
  | event => simp [Runs, outerLambda] at hrun
  | python p => exact hrun
  | handler k =>
      have hraises : outcome k = .raises := by
        simpa [Runs, innerLambda, eq_comm] using hrun
      have hstarted := h.lockInv.lt_of_code (List.ne_nil_of_mem hmem)
      have hlt := hstarted.trans_le h.values_length_le
      rw [hreturns k hlt] at hraises
      cases hraises

/-- The process lives on if every call for an interrupt returns. -/
theorem Reaches.live (h : Reaches outcome interrupts s)
    (hreturns : ∀ k < interrupts.length, outcome k = .returns) : s.terminated = false := by
  refine Reachable.invariant (fun s => s.terminated = false) rfl ?_ h
  intro s l s' hreach _ hstep
  rw [Bool.eq_false_iff]
  intro hend
  obtain ⟨t, rest, -, hcode⟩ := Reaches.raises_of_terminated hreach hstep hend
  have hnone := Reaches.not_raising hreach hreturns t
  exact hnone (by simp [hcode])

/-- The main thread runs, `n` interrupts were delivered and their handlers all
wait for the GIL. -/
structure AllWaiting (interrupts : List Int32) (n : ℕ) (s : State) : Prop where
  event : s.event = .waiting
  pending : s.pending = interrupts.drop n
  values : s.values = interrupts.take n
  owner : s.threads.owner = some (.python 0)
  handlers : ∀ k < n, s.threads.code (.handler k) = innerLambda
  destructor : s.destructor = .alive
  live : s.terminated = false

/-- The event thread delivers an interrupt and returns to waiting. -/
def deliverOne : List Label :=
  [.deliver, .run .event, .run .event, .run .event, .functionReturns]

/-- Nothing keeps the event thread from delivering one more interrupt. -/
theorem AllWaiting.deliver {n : ℕ} (h : AllWaiting interrupts n s) (hn : n < interrupts.length) :
    ∃ s', run (step outcome) s deliverOne = some s' ∧ AllWaiting interrupts (n + 1) s' := by
  obtain ⟨⟨owner, code⟩, event, pending, values, passed, refs, joinable, stop, destructor,
    terminated⟩ := s
  obtain ⟨rfl, hpending, hvalues, rfl, hhandlers, rfl, rfl⟩ := h
  obtain rfl : pending = interrupts[n] :: interrupts.drop (n + 1) := by
    rw [← List.drop_eq_getElem_cons hn]
    exact hpending
  have hlength : values.length = n := by
    rw [show values = interrupts.take n from hvalues, List.length_take]
    omega
  simp only [run, deliverOne, step, Threads.exec, Threads.assign, outerLambda, State.effect,
    Destructor.thread, Bool.false_eq_true, if_false, if_true, Option.bind_some, Function.update_self,
    Function.update_of_ne, Function.update_idem, Option.some.injEq, exists_eq_left', reduceCtorEq,
    ne_eq, not_false_eq_true]
  refine ⟨rfl, rfl, ?_, rfl, ?_, rfl, rfl⟩
  · rw [List.take_succ_eq_append_getElem hn, ← hvalues]
  · intro k hk
    dsimp only
    rw [Function.update_of_ne (by simp), hlength]
    by_cases hkn : k = n
    · rw [hkn, Function.update_self]
    · rw [Function.update_of_ne (by simpa using hkn), Function.update_of_ne (by simp)]
      exact hhandlers k (by omega)

theorem exists_allWaiting (outcome : ℕ → CallOutcome) (interrupts : List Int32) (n : ℕ)
    (h : n ≤ interrupts.length) :
    ∃ s, Reaches outcome interrupts s ∧ AllWaiting interrupts n s := by
  induction n with
  | zero => exact ⟨_, Reachable.refl _, rfl, rfl, rfl, rfl, by simp, rfl, rfl⟩
  | succ n ih =>
      obtain ⟨s, hreach, hs⟩ := ih (by omega)
      obtain ⟨s', hrun, hs'⟩ := hs.deliver (by omega)
      exact ⟨s', hreach.run deliverOne hrun, hs'⟩

/-- Handler `k` takes the GIL from the main thread, calls the callable and the
call ends at once. -/
def handleOne (k : ℕ) : List Label :=
  [.giveUp (.python 0), .run (.handler k), .enter k 0, .run (.handler k)]

/-- A handler whose call raises ends the process. -/
theorem AllWaiting.terminate {n k : ℕ} (h : AllWaiting interrupts n s) (hk : k < n)
    (hn : n ≤ interrupts.length) (hraises : outcome k = .raises) :
    ∃ s', run (step outcome) s (handleOne k) = some s' ∧ s'.terminated = true := by
  obtain ⟨⟨owner, code⟩, event, pending, values, passed, refs, joinable, stop, destructor,
    terminated⟩ := s
  obtain ⟨rfl, hpending, hvalues, rfl, hhandlers, rfl, rfl⟩ := h
  have hcode : code (.handler k) = innerLambda := hhandlers k hk
  have hval : ∃ v, values[k]? = some v := by
    have hlength : values.length = n := by
      rw [show values = interrupts.take n from hvalues, List.length_take]
      omega
    exact ⟨values[k], List.getElem?_eq_getElem (by omega)⟩
  obtain ⟨v, hv⟩ := hval
  simp [run, handleOne, step, Threads.exec, Threads.assign, Threads.giveUp, State.inPython,
    State.effect, Destructor.thread, callBody, innerLambda, hcode, hv, hraises]

/-- With one call that raises, some interleaving ends the process. -/
theorem not_delivers_of_raises {k : ℕ} (hk : k < interrupts.length)
    (hraises : outcome k = .raises) : ¬Delivers outcome interrupts := by
  intro h
  obtain ⟨s, hreach, hs⟩ := exists_allWaiting outcome interrupts interrupts.length le_rfl
  obtain ⟨s', hrun, hdead⟩ := hs.terminate hk le_rfl hraises
  obtain ⟨hlive, -⟩ := h s' (hreach.run (handleOne k) hrun)
  rw [hlive] at hdead
  cases hdead

/-- The process survives every interleaving, with every interrupt accounted for
in every state, if and only if no call for an interrupt raises. -/
theorem delivers_iff (outcome : ℕ → CallOutcome) (interrupts : List Int32) :
    Delivers outcome interrupts ↔ ∀ k < interrupts.length, outcome k = .returns := by
  constructor
  · intro h k hk
    cases hout : outcome k with
    | returns => rfl
    | raises => exact absurd h (not_delivers_of_raises hk hout)
  · intro h s hs
    exact ⟨hs.live h, hs.accounted⟩

end Step

/-- One interrupt whose call raises. -/
theorem not_delivers_raising : ¬Delivers (fun _ => .raises) [73] :=
  not_delivers_of_raises Nat.zero_lt_one rfl

end PyCoyote.Trampoline
