import PyCoyote.Library.GlobalLock
import PyCoyote.Library.Transition

/-!
# The user-interrupt trampoline

The constructor of a thread wraps the Python callable `uisr` into a
`std::function`. Coyote's event thread calls it for each interrupt; each call
starts a detached thread that takes the GIL and calls `uisr`. The machine runs
the event thread, the handler threads, the Python threads and the destructor
of the object, one instruction at a time and in any order. A `uisr` of `None`
installs no function, so that no interrupt is delivered.

An update of the reference count is one indivisible step, also when two threads
make one without the GIL, and starting a thread never fails.
-/

namespace PyCoyote.Trampoline

open Library.GlobalLock Library.Transition

/-- Coyote's event thread, the handler of each interrupt, numbered in the order
they are started, and the threads of the Python program. -/
inductive ThreadId where
  | event
  | handler (k : ℕ)
  | python (p : ℕ)
deriving DecidableEq, Repr

/-- How a call of the callable ends. -/
inductive CallOutcome where
  | returns
  | raises
deriving DecidableEq, Repr

/-- What the trampoline does besides taking and giving back the GIL. -/
inductive Act where
  /-- Copy a captured `pybind11::object`: the reference count goes up. -/
  | copy
  /-- Destroy a captured `pybind11::object`: the reference count goes down. -/
  | destroy
  /-- Construct the temporary `std::thread`, which starts to run the inner lambda. -/
  | startThread
  /-- Detach the thread from the temporary, which is then no longer joinable. -/
  | detach
  /-- `uisr(val)`, up to the first Python instruction of the callable. -/
  | call
  /-- One step of the callable. -/
  | python
  /-- The callable returns, or raises an exception that pybind11 throws. -/
  | finish (outcome : CallOutcome)
deriving DecidableEq, Repr

/-- The body of the outer lambda: capture `uisr` in the inner closure, start the
thread and detach it. The closure is moved into the state of the new thread, so
the temporary one holds no reference when it is destroyed and no count changes. -/
def outerLambda : List (Instr Act) :=
  [.act .copy, .act .startThread, .act .detach]

/-- The thread's function: `gil` is constructed, `uisr` called and `gil`
destroyed at the end of the body; the thread then destroys its closure. -/
def innerLambda : List (Instr Act) :=
  [.acquire, .act .call, .release, .act .destroy]

/-- A call of the callable: some Python steps, then its end. -/
def callBody (steps : ℕ) (outcome : CallOutcome) : List Act :=
  List.replicate steps .python ++ [.finish outcome]

/-- The event thread between interrupts, inside the `std::function` called with
a value, or stopped for good. -/
inductive EventThread where
  | waiting
  | calling (val : Int32)
  | stopped
deriving DecidableEq, Repr

/-- How far the destructor of the object is, and on which thread. -/
inductive Destructor where
  | alive
  | telling (t : ThreadId)
  | joining (t : ThreadId)
  | joined (t : ThreadId)
  | finished
deriving DecidableEq, Repr

/-- The thread on which a destructor is in progress. -/
def Destructor.thread : Destructor → Option ThreadId
  | .telling t => some t
  | .joining t => some t
  | .joined t => some t
  | .alive => none
  | .finished => none

/-- The state of the process. `values` are the values captured by the handlers
started so far, `passed` the calls made, each as the handler and the value it
passed, `refs` the references to the callable that the trampoline holds, and
`joinable` tells whether the temporary `std::thread` of a call is joinable. -/
structure State where
  threads : Threads ThreadId Act
  event : EventThread
  pending : List Int32
  values : List Int32
  passed : List (ℕ × Int32)
  refs : ℕ
  joinable : Bool
  stop : Bool
  destructor : Destructor
  terminated : Bool

/-- The code each thread starts with: the first Python thread runs, the others
wait for the GIL. -/
def initialCode : ThreadId → List (Instr Act)
  | .python 0 => []
  | .python _ => [.acquire]
  | .handler _ => []
  | .event => []

/-- The first Python thread has constructed the object and interrupts with the
given values lie ahead. -/
def initial (interrupts : List Int32) : State where
  threads := ⟨some (.python 0), initialCode⟩
  event := .waiting
  pending := interrupts
  values := []
  passed := []
  refs := 1
  joinable := false
  stop := false
  destructor := .alive
  terminated := false

namespace State

/-- Thread `t` runs Python code when it owns the GIL: a Python thread always, a
handler inside the callable. -/
def inPython (s : State) (t : ThreadId) : Bool :=
  match t, s.threads.code t with
  | .python _, _ => true
  | .handler _, .act .python :: _ => true
  | .handler _, .act (.finish _) :: _ => true
  | _, _ => false

/-- The effect of an act. A call is not made here but by the step `enter`. An
exception that leaves a thread's function terminates the process; the detach of
a thread that is not joinable throws one. -/
def effect (s : State) : Act → Option State
  | .copy => some { s with refs := s.refs + 1 }
  | .destroy => some { s with refs := s.refs - 1 }
  | .startThread =>
      match s.event with
      | .calling v => some { s with
          values := s.values ++ [v]
          threads := s.threads.assign (.handler s.values.length) innerLambda
          joinable := true }
      | _ => none
  | .detach =>
      if s.joinable then some { s with joinable := false }
      else some { s with terminated := true }
  | .call => none
  | .python => some s
  | .finish .returns => some s
  | .finish .raises => some { s with terminated := true }

end State

/-- The steps. -/
inductive Label where
  /-- The event thread receives an interrupt and calls the function. -/
  | deliver
  /-- The temporary `std::thread` is destroyed and the function returns to the
  event thread. -/
  | functionReturns
  /-- The event thread sees that it was told to stop. -/
  | eventStops
  /-- A thread runs its next instruction. -/
  | run (t : ThreadId)
  /-- Handler `k` calls the callable, which will take some Python steps. -/
  | enter (k steps : ℕ)
  /-- A thread in Python code lets another thread have the GIL. -/
  | giveUp (t : ThreadId)
  /-- The last reference to the object goes, on a thread in Python code. -/
  | beginDestroy (t : ThreadId)
  /-- The destructor tells the event thread to stop. -/
  | tell
  /-- The destructor's join of the event thread returns. -/
  | join
  /-- The destructor ends; the function and its copy of `uisr` are gone. -/
  | destroyed
deriving DecidableEq, Repr

/-- One step of the process; `outcome k` is how the call of handler `k` ends.
A thread on which the destructor is in progress does nothing else, and nothing
happens once the process is terminated, which the destructor of a joinable
`std::thread` does. -/
def step (outcome : ℕ → CallOutcome) (s : State) (l : Label) : Option State :=
  if s.terminated then none else
  match l with
  | .deliver =>
      match s.event, s.pending with
      | .waiting, v :: rest => some { s with
          event := .calling v
          pending := rest
          threads := s.threads.assign .event outerLambda }
      | _, _ => none
  | .functionReturns =>
      match s.event, s.threads.code .event with
      | .calling _, [] =>
          if s.joinable then some { s with terminated := true }
          else some { s with event := .waiting }
      | _, _ => none
  | .eventStops =>
      if s.event = .waiting ∧ s.stop = true then some { s with event := .stopped } else none
  | .run t =>
      if s.destructor.thread = some t then none else
      (s.threads.exec t).bind fun r =>
        match r.1 with
        | none => some { s with threads := r.2 }
        | some a => { s with threads := r.2 }.effect a
  | .enter k steps =>
      if s.destructor.thread = some (.handler k) then none else
      match s.threads.code (.handler k), s.values[k]? with
      | .act .call :: rest, some v => some { s with
          threads := s.threads.assign (.handler k)
            ((callBody steps (outcome k)).map .act ++ rest)
          passed := s.passed ++ [(k, v)] }
      | _, _ => none
  | .giveUp t =>
      if s.inPython t = true ∧ s.threads.owner = some t ∧ s.destructor.thread ≠ some t then
        some { s with threads := s.threads.giveUp t }
      else none
  | .beginDestroy t =>
      if s.destructor = .alive ∧ s.inPython t = true ∧ s.threads.owner = some t then
        some { s with destructor := .telling t }
      else none
  | .tell =>
      match s.destructor with
      | .telling t => some { s with destructor := .joining t, stop := true }
      | _ => none
  | .join =>
      match s.destructor with
      | .joining t =>
          if s.event = .stopped then some { s with destructor := .joined t } else none
      | _ => none
  | .destroyed =>
      match s.destructor with
      | .joined _ => some { s with destructor := .finished, refs := s.refs - 1 }
      | _ => none

/-- The states of the process under any interleaving. -/
def Reaches (outcome : ℕ → CallOutcome) (interrupts : List Int32) (s : State) : Prop :=
  Reachable (step outcome) (initial interrupts) s

/-- What a step can do: the guards it passed and the state it leads to. -/
inductive Takes (outcome : ℕ → CallOutcome) (s : State) : Label → State → Prop
  | deliver (v : Int32) (rest : List Int32) (hevent : s.event = .waiting)
      (hpending : s.pending = v :: rest) :
      Takes outcome s .deliver { s with
        event := .calling v
        pending := rest
        threads := s.threads.assign .event outerLambda }
  | functionReturns (v : Int32) (hevent : s.event = .calling v)
      (hcode : s.threads.code .event = []) (hdetached : s.joinable = false) :
      Takes outcome s .functionReturns { s with event := .waiting }
  | destroysJoinable (v : Int32) (hevent : s.event = .calling v)
      (hcode : s.threads.code .event = []) (hjoinable : s.joinable = true) :
      Takes outcome s .functionReturns { s with terminated := true }
  | eventStops (hevent : s.event = .waiting) (hstop : s.stop = true) :
      Takes outcome s .eventStops { s with event := .stopped }
  | lock (t : ThreadId) (T : Threads ThreadId Act) (hbusy : s.destructor.thread ≠ some t)
      (hexec : s.threads.exec t = some (none, T)) :
      Takes outcome s (.run t) { s with threads := T }
  | act (t : ThreadId) (a : Act) (T : Threads ThreadId Act) (s' : State)
      (hbusy : s.destructor.thread ≠ some t) (hexec : s.threads.exec t = some (some a, T))
      (heffect : { s with threads := T }.effect a = some s') :
      Takes outcome s (.run t) s'
  | enter (k steps : ℕ) (rest : List (Instr Act)) (v : Int32)
      (hbusy : s.destructor.thread ≠ some (.handler k))
      (hcode : s.threads.code (.handler k) = .act .call :: rest) (hval : s.values[k]? = some v) :
      Takes outcome s (.enter k steps) { s with
        threads := s.threads.assign (.handler k)
          ((callBody steps (outcome k)).map .act ++ rest)
        passed := s.passed ++ [(k, v)] }
  | giveUp (t : ThreadId) (hpython : s.inPython t = true) (hown : s.threads.owner = some t)
      (hbusy : s.destructor.thread ≠ some t) :
      Takes outcome s (.giveUp t) { s with threads := s.threads.giveUp t }
  | beginDestroy (t : ThreadId) (halive : s.destructor = .alive) (hpython : s.inPython t = true)
      (hown : s.threads.owner = some t) :
      Takes outcome s (.beginDestroy t) { s with destructor := .telling t }
  | tell (t : ThreadId) (hdestructor : s.destructor = .telling t) :
      Takes outcome s .tell { s with destructor := .joining t, stop := true }
  | join (t : ThreadId) (hdestructor : s.destructor = .joining t) (hevent : s.event = .stopped) :
      Takes outcome s .join { s with destructor := .joined t }
  | destroyed (t : ThreadId) (hdestructor : s.destructor = .joined t) :
      Takes outcome s .destroyed { s with destructor := .finished, refs := s.refs - 1 }

theorem takes_of_step {outcome : ℕ → CallOutcome} {s s' : State} {l : Label}
    (h : step outcome s l = some s') : s.terminated = false ∧ Takes outcome s l s' := by
  unfold step at h
  split at h
  · cases h
  next hlive =>
  refine ⟨by simpa using hlive, ?_⟩
  cases l with
  | deliver =>
      simp only at h
      split at h
      · next v rest hevent hpending =>
          cases h
          exact .deliver v rest hevent hpending
      · cases h
  | functionReturns =>
      simp only at h
      split at h
      · next v hevent hcode =>
          split at h
          · next hjoinable =>
              cases h
              exact .destroysJoinable v hevent hcode hjoinable
          · next hdetached =>
              cases h
              exact .functionReturns v hevent hcode (by simpa using hdetached)
      · cases h
  | eventStops =>
      obtain ⟨hguard, heq⟩ := Option.ite_none_right_eq_some.mp h
      cases heq
      exact .eventStops hguard.1 hguard.2
  | run t =>
      obtain ⟨hbusy, hrun⟩ := Option.ite_none_left_eq_some.mp h
      obtain ⟨⟨result, T⟩, hexec, hresult⟩ := Option.bind_eq_some_iff.mp hrun
      cases result with
      | none =>
          obtain rfl := Option.some.inj hresult
          exact .lock t T hbusy hexec
      | some a => exact .act t a T s' hbusy hexec hresult
  | enter k steps =>
      obtain ⟨hbusy, hcall⟩ := Option.ite_none_left_eq_some.mp h
      split at hcall
      · next rest v hcode hval =>
          cases hcall
          exact .enter k steps rest v hbusy hcode hval
      · cases hcall
  | giveUp t =>
      obtain ⟨hguard, heq⟩ := Option.ite_none_right_eq_some.mp h
      cases heq
      exact .giveUp t hguard.1 hguard.2.1 hguard.2.2
  | beginDestroy t =>
      obtain ⟨hguard, heq⟩ := Option.ite_none_right_eq_some.mp h
      cases heq
      exact .beginDestroy t hguard.1 hguard.2.1 hguard.2.2
  | tell =>
      simp only at h
      split at h
      · next t hdestructor =>
          cases h
          exact .tell t hdestructor
      · cases h
  | join =>
      simp only at h
      split at h
      · next t hdestructor =>
          obtain ⟨hevent, heq⟩ := Option.ite_none_right_eq_some.mp h
          cases heq
          exact .join t hdestructor hevent
      · cases h
  | destroyed =>
      simp only at h
      split at h
      · next t hdestructor =>
          cases h
          exact .destroyed t hdestructor
      · cases h

/-- What an act can do: it starts a handler, ends the process, or changes the
count of references and the temporary `std::thread` only. -/
theorem effect_cases {s s' : State} {a : Act} (h : s.effect a = some s') :
    (∃ v, a = .startThread ∧ s.event = .calling v ∧ s' = { s with
      values := s.values ++ [v]
      threads := s.threads.assign (.handler s.values.length) innerLambda
      joinable := true }) ∨
    ((a = .finish .raises ∨ (a = .detach ∧ s.joinable = false)) ∧
      s' = { s with terminated := true }) ∨
    (a ≠ .startThread ∧ a ≠ .call ∧ a ≠ .finish .raises ∧
      ∃ refs joinable, s' = { s with refs := refs, joinable := joinable }) := by
  cases a with
  | copy | destroy | python =>
      obtain rfl := Option.some.inj h
      exact .inr (.inr ⟨by simp, by simp, by simp, _, _, rfl⟩)
  | call => cases h
  | detach =>
      simp only [State.effect] at h
      split at h
      · obtain rfl := Option.some.inj h
        exact .inr (.inr ⟨by simp, by simp, by simp, _, _, rfl⟩)
      · next hdetached =>
          obtain rfl := Option.some.inj h
          exact .inr (.inl ⟨.inr ⟨rfl, by simpa using hdetached⟩, rfl⟩)
  | finish outcome =>
      cases outcome with
      | returns =>
          obtain rfl := Option.some.inj h
          exact .inr (.inr ⟨by simp, by simp, by simp, _, _, rfl⟩)
      | raises =>
          obtain rfl := Option.some.inj h
          exact .inr (.inl ⟨.inl rfl, rfl⟩)
  | startThread =>
      simp only [State.effect] at h
      split at h
      · next v hevent =>
          obtain rfl := Option.some.inj h
          exact .inl ⟨v, rfl, hevent, rfl⟩
      · cases h

/-- An act that neither starts nor detaches a thread leaves the event thread and
its temporary as they are. -/
theorem effect_frame {s s' : State} {a : Act} (hstart : a ≠ .startThread) (hdetach : a ≠ .detach)
    (h : s.effect a = some s') :
    s'.event = s.event ∧ s'.threads = s.threads ∧ s'.joinable = s.joinable := by
  cases a with
  | startThread => exact absurd rfl hstart
  | detach => exact absurd rfl hdetach
  | call => cases h
  | copy | destroy | python =>
      cases h
      exact ⟨rfl, rfl, rfl⟩
  | finish outcome => cases outcome <;> cases h <;> exact ⟨rfl, rfl, rfl⟩

end PyCoyote.Trampoline
