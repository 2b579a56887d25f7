import PyCoyote.Session
import PyCoyote.BufferAccess
import PyCoyote.Library.Completion

/-!
# Python scripts that use the wrapper

A script calls methods of its threads, loops until `get_completed` shows what it
waits for, and reads and writes the elements of its buffers. Coyote and the card
are a parameter: all a script relies on is that Coyote accepts its calls, that an
operation is in flight from its call until it completes, in any order, and that a
thread's counters count the completions since `clear_completed`. A script does to
them what a program of the counting library does, so that the library's results
hold of the script.
-/

namespace PyCoyote

open Library

theorem validStream_host : validStream "host" = true := by decide

theorem completedOper_localTransfer :
    CThread.completedOper "local_transfer" = some .localTransfer := by decide +kernel

theorem completedOper_localRead :
    CThread.completedOper "local_read" = some .localRead := by decide +kernel

theorem completedOper_localWrite :
    CThread.completedOper "local_write" = some .localWrite := by decide +kernel

/-- The completion counter of an operation on the thread with some number. -/
structure Counter where
  thread : ℕ
  oper : CoyoteOper
deriving DecidableEq

/-- The asynchronous operation that a call launches. -/
def CoyoteCall.launches : CoyoteCall → Option CoyoteOper
  | .invokeLocal oper _ _ => some oper
  | .invokeTransfer oper _ _ _ => some oper
  | .invokeRdma oper _ _ => some oper
  | _ => none

/-- An operation completes: it is not in flight any more, and its counter goes up. -/
def Completes (inflight completed inflight' completed' : Counter → ℕ) (k : Counter) : Prop :=
  0 < inflight k ∧ inflight' = Function.update inflight k (inflight k - 1) ∧
    completed' = Function.update completed k (completed k + 1)

/-- Coyote with its card, as far as a script can tell. Counters are read as
32-bit numbers. -/
structure Card where
  State : Type
  /-- The answer to a call on a thread, and the state after it. -/
  call : State → ℕ → CoyoteCall → Answer × State
  /-- What the card does between the calls. -/
  Evolves : State → State → Prop
  inflight : State → Counter → ℕ
  completed : State → Counter → ℕ
  accepts : ∀ s i c, (call s i c).1.isOk = true
  check : ∀ s i oper v, (call s i (.checkCompleted oper)).1 = .ok v →
    v.toUInt32 = UInt32.ofNat (completed s ⟨i, oper⟩)
  launch : ∀ s i c oper, c.launches = some oper → inflight (call s i c).2 =
    Function.update (inflight s) ⟨i, oper⟩ (inflight s ⟨i, oper⟩ + 1)
  keep_inflight : ∀ s i c, c.launches = none → inflight (call s i c).2 = inflight s
  clear : ∀ s i, completed (call s i (.method .clearCompleted)).2 =
    fun k => if k.thread == i then 0 else completed s k
  keep_completed : ∀ s i c, c ≠ .method .clearCompleted →
    completed (call s i c).2 = completed s
  evolves : ∀ s s', Evolves s s' →
    (∃ k, Completes (inflight s) (completed s) (inflight s') (completed s') k) ∨
      (inflight s' = inflight s ∧ completed s' = completed s)
  completes : ∀ s k, 0 < inflight s k → ∃ s', Evolves s s' ∧
    Completes (inflight s) (completed s) (inflight s') (completed s') k

/-- A card that does nothing but count: the state is what is in flight and what
is complete. -/
def Card.counting : Card where
  State := (Counter → ℕ) × (Counter → ℕ)
  call := fun (inflight, completed) i c =>
    match c with
    | .checkCompleted oper =>
        (.ok (UInt32.ofNat (completed ⟨i, oper⟩)).toUInt64, inflight, completed)
    | .method .clearCompleted =>
        (.ok 0, inflight, fun k => if k.thread == i then 0 else completed k)
    | c =>
        match c.launches with
        | some oper => (.ok 0,
            Function.update inflight ⟨i, oper⟩ (inflight ⟨i, oper⟩ + 1), completed)
        | none => (.ok 0, inflight, completed)
  Evolves := fun (inflight, completed) (inflight', completed') =>
    ∃ k, Completes inflight completed inflight' completed' k
  inflight := Prod.fst
  completed := Prod.snd
  accepts s i c := by
    rcases c with _ | _ | _ | _ | _ | _ | _ | _ | _ | m
    case method => cases m <;> rfl
    all_goals rfl
  check s i oper v h := by
    cases h
    exact UInt32.toUInt32_toUInt64 _
  launch s i c oper h := by
    cases c with
    | invokeLocal | invokeTransfer | invokeRdma =>
        obtain rfl := Option.some.inj h
        rfl
    | userMap | userUnmap | getMem | invokeSync | checkCompleted | initRDMA | method => cases h
  keep_inflight s i c h := by
    rcases c with _ | _ | _ | _ | _ | _ | _ | _ | _ | m
    case method => cases m <;> rfl
    all_goals first | rfl | cases h
  clear s i := rfl
  keep_completed s i c h := by
    rcases c with _ | _ | _ | _ | _ | _ | _ | _ | _ | m
    case method => cases m <;> first | rfl | exact absurd rfl h
    all_goals rfl
  evolves s s' h := .inl h
  completes s k h := ⟨(_, _), ⟨k, h, rfl, rfl⟩, h, rfl, rfl⟩

/-- The buffer has the elements that are counted. -/
def Counted.InBounds : Counted → Prop
  | .ofBuffer buff size => size ≤ buff.size
  | .ofQueuePair _ => False

/-- The bytes of a scatter-gather entry lie in the buffer's view. -/
def Entry.Within (e : Entry) (buff : CBuffer) : Prop :=
  ∃ start, e.start = some start ∧ Set.Ico start.toNat (start.toNat + e.len.toNat) ⊆
    ⋃ i < buff.size.toNat, buff.bufferInfo.element i

namespace Operation

/-- The asynchronous operation that a method launches. -/
def launches : Operation → Option CoyoteOper
  | .localRead .. => some .localRead
  | .localWrite .. => some .localWrite
  | .localTransfer .. => some .localTransfer
  | .rdmaRead .. => some .remoteRdmaRead
  | .rdmaWrite .. => some .remoteRdmaWrite
  | _ => none

/-- The method clears the counters of its thread. -/
def clears : Operation → Bool
  | .method .clearCompleted => true
  | _ => false

/-- The elements that a method transfers are elements of its buffers. -/
def InBounds (op : Operation) : Prop := ∀ c ∈ op.counted, c.InBounds

theorem InBounds.method (m : CThreadMethod) : (Operation.method m).InBounds :=
  List.forall_mem_nil _

section Header
variable [CoyoteHeader]

/-- Whatever Coyote answers, a method names to it only bytes of its buffers. -/
def Stays (op : Operation) (w : WrapperState) : Prop :=
  ∀ answer, ∀ call ∈ (op.run answer w).calls, ∀ e ∈ call.entries,
    ∃ buff size, Counted.ofBuffer buff size ∈ op.counted ∧ e.Within buff

/-- A method that makes one call in every case makes this one. -/
theorem Makes.call_eq {op : Operation} {s : WrapperState} {c c' : CoyoteCall}
    {storage : List StorageObject} (h : op.Makes s c storage) {v : UInt64}
    (hcalls : (op.run (.ok v) s).calls = [c']) : c = c' := by
  obtain ⟨value, hrun⟩ := h.returns v
  rw [hrun] at hcalls
  simpa [Outcome.calls] using hcalls

/-- What the call of a validated method does to the counters. -/
theorem Makes.launches_eq {op : Operation} {s : WrapperState} {c : CoyoteCall}
    {storage : List StorageObject} (h : op.Makes s c storage) (hvalid : op.valid = true)
    (hcalls : op.callsCoyote = true) :
    c.launches = op.launches ∧ (c = .method .clearCompleted ↔ op.clears = true) := by
  cases op with
  | allocateBuffer size allocType dtype gpuDev =>
      obtain ⟨hsome, ha⟩ := Bool.and_eq_true_iff.mp hvalid
      obtain ⟨d, hd⟩ := Option.isSome_iff_exists.mp hsome
      obtain ⟨alloc, -, hok, -⟩ := run_allocateBuffer hd ha size gpuDev
      obtain ⟨b, -, -, -, hrun⟩ := hok 0 s
      obtain rfl := h.call_eq (v := 0) (by rw [hrun]; rfl)
      simp [CoyoteCall.launches, Operation.launches, clears]
  | initRDMA bufferSize dtype port serverAddress =>
      obtain ⟨hsome, hc⟩ := Bool.and_eq_true_iff.mp hvalid
      obtain ⟨d, hd⟩ := Option.isSome_iff_exists.mp hsome
      obtain ⟨addr, storage', hok, -⟩ := run_initRDMA hd hc bufferSize port s
      obtain ⟨b, -, -, -, hrun⟩ := hok 0
      obtain rfl := h.call_eq (v := 0) (by rw [hrun]; rfl)
      simp [CoyoteCall.launches, Operation.launches, clears]
  | localRead buff size stream dest last =>
      have hbody := congrFun₂ (CThread.oneSided_of_valid hvalid .localRead buff size dest last)
        (.ok 0) s
      obtain rfl := h.call_eq (v := 0) (by rw [run, CThread.localRead, hbody]; rfl)
      simp [CoyoteCall.launches, Operation.launches, clears]
  | localWrite buff size stream dest last =>
      have hbody := congrFun₂ (CThread.oneSided_of_valid hvalid .localWrite buff size dest last)
        (.ok 0) s
      obtain rfl := h.call_eq (v := 0) (by rw [run, CThread.localWrite, hbody]; rfl)
      simp [CoyoteCall.launches, Operation.launches, clears]
  | localTransfer srcBuff dstBuff srcSize dstSize srcStream dstStream srcDest dstDest last =>
      obtain ⟨hs, hd⟩ := Bool.and_eq_true_iff.mp hvalid
      have hbody := congrFun₂ (CThread.localTransfer_of_valid hs hd srcBuff dstBuff srcSize
        dstSize srcDest dstDest last) (.ok 0) s
      obtain rfl := h.call_eq (v := 0) (by rw [run, hbody]; rfl)
      simp [CoyoteCall.launches, Operation.launches, clears]
  | rdmaWrite size localStream localDest localOffs remoteDest remoteOffs last =>
      obtain rfl := h.call_eq (v := 0) (run_rdmaWrite_calls _ s hvalid _ _ _ _ _ _)
      simp [CoyoteCall.launches, Operation.launches, clears]
  | rdmaRead size localStream localDest localOffs remoteDest remoteOffs last =>
      obtain rfl := h.call_eq (v := 0) (run_rdmaRead_calls _ s hvalid _ _ _ _ _ _)
      simp [CoyoteCall.launches, Operation.launches, clears]
  | getCompleted oper => cases hcalls
  | method m =>
      obtain rfl : c = .method m := h.call_eq (v := 0) rfl
      cases m <;> simp [CoyoteCall.launches, Operation.launches, clears]
  | mapBuffer buff =>
      obtain rfl := h.call_eq (v := 0) rfl
      simp [CoyoteCall.launches, Operation.launches, clears]
  | unmapBuffer buff =>
      obtain rfl := h.call_eq (v := 0) rfl
      simp [CoyoteCall.launches, Operation.launches, clears]
  | sync buff size =>
      obtain rfl := h.call_eq (v := 0) rfl
      simp [CoyoteCall.launches, Operation.launches, clears]
  | offload buff size =>
      obtain rfl := h.call_eq (v := 0) rfl
      simp [CoyoteCall.launches, Operation.launches, clears]

omit [CoyoteHeader] in
/-- Fewer elements take up no more bytes than the buffer's view. -/
theorem within_entry {buff : CBuffer} {size : UInt32} (h : size ≤ buff.size) (s : WrapperState) :
    ((Counted.ofBuffer buff size).entry s).Within buff := by
  refine ⟨buff.data, rfl, ?_⟩
  rw [BufferInfo.biUnion_element]
  apply Set.Ico_subset_Ico le_rfl
  have hlen : (byteCount size buff.dtype).toNat ≤ size.toNat * buff.dtype.size.toNat := by
    rw [byteCount_toNat]
    exact Nat.mod_le _ _
  have hsize := Nat.mul_le_mul_right buff.dtype.size.toNat (UInt32.le_iff_toNat_le.mp h)
  exact Nat.add_le_add_left (hlen.trans hsize) _

/-- A validated method on elements that its buffers have stays in them. -/
theorem InBounds.stays {op : Operation} (h : op.InBounds) (hvalid : op.valid = true)
    (w : WrapperState) : op.Stays w := by
  intro answer call hcall e he
  rw [entries_of_valid answer w hvalid call hcall] at he
  obtain ⟨c, hc, rfl⟩ := List.mem_map.mp he
  have hbounds := h c hc
  cases c with
  | ofBuffer buff size => exact ⟨buff, size, hc, within_entry hbounds w⟩
  | ofQueuePair size => exact hbounds.elim

/-- A method as it runs: what it does with a device's answer to the call that it
makes, and the device's state after it. -/
def against {σ : Type} (device : CoyoteCall → Answer × σ) (idle : σ) (op : Operation)
    (w : WrapperState) : Outcome Value × σ :=
  match (op.run (.ok 0) w).calls with
  | [] => (op.run (.ok 0) w, idle)
  | c :: _ => (op.run (device c).1 w, (device c).2)

variable {σ : Type} {device : CoyoteCall → Answer × σ}

/-- A validated method returns, and changes the device as its call does. -/
theorem against_of_valid {op : Operation} (hvalid : op.valid = true)
    (hcalls : op.callsCoyote = true) (haccepts : ∀ c, (device c).1.isOk = true) (idle : σ)
    (w : WrapperState) : ∃ c storage value, op.Makes w c storage ∧
      op.against device idle w = (⟨.ok value, ⟨op.qpDtypeAfter w.qpDtype, storage⟩,
        [⟨c, storage, true⟩]⟩, (device c).2) := by
  obtain ⟨c, storage, hmakes⟩ := op.exists_makes w hvalid hcalls
  obtain ⟨value, hrun⟩ := hmakes.returns 0
  obtain ⟨v, hv⟩ := answer_of_isOk (haccepts c)
  obtain ⟨value', hrun'⟩ := hmakes.returns v
  refine ⟨c, storage, value', hmakes, ?_⟩
  simp only [against, hrun, Outcome.calls, List.map_cons, List.map_nil, hv, hrun']

/-- `get_completed` returns the counter that the device shows. -/
theorem against_getCompleted {name : String} {oper : CoyoteOper}
    (h : CThread.completedOper name = some oper)
    (haccepts : (device (.checkCompleted oper)).1.isOk = true) (idle : σ) (w : WrapperState) :
    ∃ v, (device (.checkCompleted oper)).1 = .ok v ∧
      (Operation.getCompleted name).against device idle w =
        (⟨.ok (.number v.toUInt32.toUInt64), w, [⟨.checkCompleted oper, w.storage, true⟩]⟩,
          (device (.checkCompleted oper)).2) := by
  obtain ⟨v, hv⟩ := answer_of_isOk haccepts
  have hcalls : ∀ answer, ((Operation.getCompleted name).run answer w).calls =
      [.checkCompleted oper] := by
    intro answer
    rw [Operation.run, Outcome.map_calls, CThread.getCompleted_calls, h]
    rfl
  have hrun : (Operation.getCompleted name).run (.ok v) w =
      ⟨.ok (.number v.toUInt32.toUInt64), w, [⟨.checkCompleted oper, w.storage, true⟩]⟩ := by
    simp only [Operation.run, CThread.getCompleted, h]
    rfl
  refine ⟨v, hv, ?_⟩
  simp only [against, hcalls, hv, hrun]

end Header

end Operation

/-- The value that `get_completed` returned. -/
def Outcome.reading (o : Outcome Value) : ℕ :=
  match o.result with
  | .ok (.number v) => v.toNat
  | _ => 0

namespace Script

/-- A test in a waiting loop: `get_completed(oper)` on a thread, and what the
loop compares its value with. -/
structure Test where
  thread : ℕ
  oper : String
  holds : ℕ → Bool

/-- The counter that a test reads. -/
def Test.counter (t : Test) : Counter :=
  ⟨t.thread, (CThread.completedOper t.oper).getD .localSync⟩

/-- An access of a buffer: `b[i]`, `b[i] = value`, or a copy of its first bytes
through its address or its exported view. -/
inductive Access where
  | getItem (b : CoyoteBuffer) (i : ℤ)
  | setItem (b : CoyoteBuffer) (i : ℤ) (value : PyObject)
  | copy (b : CoyoteBuffer) (bytes : ℕ)

/-- The access returns, or copies no more than the buffer has. -/
def Access.returns : Access → Bool
  | .getItem b i => b.readable i
  | .setItem b i value => b.writable i value
  | .copy b bytes => bytes ≤ b.len * b.base.dtype.size.toNat

/-- A statement of a script. `poll all left` is a waiting loop that has still to
make the tests in `left`; `collect all left pending` is one that goes over all
its tests each time and appends a latency when a test in `pending` succeeds,
which it then takes out; `divide` divides by a number that may depend on the
lengths of the lists of latencies. -/
inductive Stmt where
  | call (i : ℕ) (op : Operation)
  | poll (all left : List Test)
  | collect (all left : List Test) (pending : List Counter)
  | access (a : Access)
  | divide (divisor : (Counter → ℕ) → ℕ)

/-- A waiting loop at its start. -/
def Stmt.wait (tests : List Test) : Stmt := .poll tests tests

/-- A loop that appends latencies at its start, with every test to succeed. -/
def Stmt.gather (tests : List Test) : Stmt := .collect tests [] (tests.map Test.counter)

/-- What is left of the script, the wrapper's state on each thread, the card's
state and how many latencies each list has; an exception ends the script. -/
structure State (C : Card) where
  code : List Stmt
  wrapper : ℕ → WrapperState
  card : C.State
  latencies : Counter → ℕ
  failed : Bool

section Header
variable [CoyoteHeader] {C : Card}

/-- A method as it runs on thread `i`, and the card's state after it. -/
def exec (C : Card) (card : C.State) (i : ℕ) (op : Operation) (w : WrapperState) :
    Outcome Value × C.State := op.against (C.call card i) card w

/-- The state after a method returned or raised. -/
def State.after (s : State C) (i : ℕ) (rest : List Stmt) (r : Outcome Value × C.State) : State C :=
  match r.1.result with
  | .ok _ => { s with
      code := rest, wrapper := Function.update s.wrapper i r.1.state, card := r.2 }
  | .error _ => { s with
      code := [], wrapper := Function.update s.wrapper i r.1.state, card := r.2, failed := true }

/-- An exception of Python itself ends the script. -/
def State.raise (s : State C) : State C := { s with code := [], failed := true }

/-- The script goes on. -/
def State.advance (s : State C) : Option (State C) :=
  match s.code with
  | [] => none
  | .call i op :: rest => some (s.after i rest (exec C s.card i op (s.wrapper i)))
  | .poll _ [] :: rest => some { s with code := rest }
  | .poll all (t :: left) :: rest =>
      let r := exec C s.card t.thread (.getCompleted t.oper) (s.wrapper t.thread)
      let next := if t.holds (r.1.reading) = true then left else all
      some (s.after t.thread (.poll all next :: rest) r)
  | .collect all [] pending :: rest =>
      if pending = [] then some { s with code := rest }
      else some { s with code := .collect all all pending :: rest }
  | .collect all (t :: left) pending :: rest =>
      let r := exec C s.card t.thread (.getCompleted t.oper) (s.wrapper t.thread)
      if t.holds (r.1.reading) = true ∧ t.counter ∈ pending then
        some ({ s with
          latencies := Function.update s.latencies t.counter (s.latencies t.counter + 1) }.after
            t.thread (.collect all left (pending.erase t.counter) :: rest) r)
      else some (s.after t.thread (.collect all left pending :: rest) r)
  | .access a :: rest => some (if a.returns = true then { s with code := rest } else s.raise)
  | .divide divisor :: rest =>
      some (if divisor s.latencies ≠ 0 then { s with code := rest } else s.raise)

/-- One step of the script or of the card. -/
inductive Step (s : State C) : State C → Prop
  | advance {s' : State C} (h : s.advance = some s') : Step s s'
  | card {card' : C.State} (h : C.Evolves s.card card') : Step s { s with card := card' }

/-- The states of a script under every interleaving with the card. -/
def Reaches : State C → State C → Prop := Relation.ReflTransGen Step

/-- A thread's method is valid and transfers elements that its buffers have, a
test names an operation that is counted, and an access returns. -/
def Stmt.Sound : Stmt → Prop
  | .call _ op => op.valid = true ∧ op.callsCoyote = true ∧ op.InBounds
  | .poll all left => (∀ t ∈ all, (CThread.completedOper t.oper).isSome) ∧
      ∀ t ∈ left, (CThread.completedOper t.oper).isSome
  | .collect all left _ => (∀ t ∈ all, (CThread.completedOper t.oper).isSome) ∧
      ∀ t ∈ left, (CThread.completedOper t.oper).isSome
  | .access a => a.returns = true
  | .divide _ => True

/-- How many latencies a statement appends to the list of `k`. -/
def Stmt.appends (k : Counter) : Stmt → ℕ
  | .collect _ _ pending => pending.count k
  | _ => 0

/-- With these numbers of latencies a statement does not divide by zero. -/
def Stmt.Divides (latencies : Counter → ℕ) : Stmt → Prop
  | .divide divisor => divisor latencies ≠ 0
  | _ => True

/-- The same of a script that starts with these numbers of latencies. -/
def Divides : (Counter → ℕ) → List Stmt → Prop
  | _, [] => True
  | latencies, stmt :: rest =>
      stmt.Divides latencies ∧ Divides (fun k => latencies k + stmt.appends k) rest

/-- A test of a counter, through the 32-bit value that the script sees. -/
def Test.condition (t : Test) : Completion.Condition Counter :=
  (t.counter, fun n => t.holds (UInt32.ofNat n).toNat)

omit [CoyoteHeader] in
@[simp] theorem Test.condition_fst (t : Test) : t.condition.1 = t.counter := rfl

/-- What a statement does to the counters. -/
def Stmt.abstract : Stmt → List (Completion.Stmt Counter)
  | .call i op =>
      match op.launches with
      | some oper => [.launch ⟨i, oper⟩]
      | none => if op.clears then [.clear fun k => k.thread == i] else []
  | .poll all left => [.poll (all.map Test.condition) (left.map Test.condition)]
  | .collect all left pending =>
      [.collect (all.map Test.condition) (left.map Test.condition) pending]
  | .access _ => [.need fun _ => true]
  | .divide _ => []

/-- What a script does to the counters. -/
def abstract (code : List Stmt) : List (Completion.Stmt Counter) := code.flatMap Stmt.abstract

/-- The state as the counting library sees it. -/
def State.abstract (s : State C) : Completion.State Counter :=
  ⟨Script.abstract s.code, C.inflight s.card, C.completed s.card, s.latencies⟩

/-- The script runs well so far and what is left of it is sound. -/
structure Sound (s : State C) : Prop where
  ok : s.failed = false
  code : ∀ stmt ∈ s.code, stmt.Sound
  divides : Divides s.latencies s.code

omit [CoyoteHeader] in
/-- A latency that is appended is not to be appended any more. -/
theorem latencies_append {c : Counter} {pending : List Counter} (h : c ∈ pending)
    (latencies : Counter → ℕ) :
    (fun k => Function.update latencies c (latencies c + 1) k + (pending.erase c).count k) =
      fun k => latencies k + pending.count k := by
  funext k
  by_cases hk : k = c
  · subst hk
    have hpos : 0 < pending.count k := List.count_pos_iff.mpr h
    rw [Function.update_self, List.count_erase_self]
    omega
  · rw [Function.update_of_ne hk, List.count_erase_of_ne hk]

/-- A sound method returns, and changes the card as its call does. -/
theorem exec_of_sound {i : ℕ} {op : Operation} (h : Stmt.Sound (.call i op)) (card : C.State)
    (w : WrapperState) : ∃ c value w' xs,
      exec C card i op w = (⟨.ok value, w', xs⟩, (C.call card i c).2) ∧
        c.launches = op.launches ∧ (c = .method .clearCompleted ↔ op.clears = true) := by
  obtain ⟨hvalid, hcalls, -⟩ := h
  obtain ⟨c, storage, value, hmakes, heq⟩ :=
    Operation.against_of_valid hvalid hcalls (C.accepts card i) card w
  exact ⟨c, value, _, _, heq, hmakes.launches_eq hvalid hcalls⟩

/-- A test sees the counter as a 32-bit value and changes nothing that the
counters depend on. -/
theorem exec_test {t : Test} (h : (CThread.completedOper t.oper).isSome) (card : C.State)
    (w : WrapperState) : ∃ oper value w' xs, exec C card t.thread (.getCompleted t.oper) w =
      (⟨.ok value, w', xs⟩, (C.call card t.thread (.checkCompleted oper)).2) ∧
        t.condition.2 (C.completed card t.counter) =
          t.holds (Outcome.reading ⟨.ok value, w', xs⟩) := by
  obtain ⟨oper, hoper⟩ := Option.isSome_iff_exists.mp h
  obtain ⟨v, hv, heq⟩ := Operation.against_getCompleted hoper (C.accepts card t.thread _) card w
  refine ⟨oper, _, _, _, heq, ?_⟩
  have hread : Outcome.reading ⟨.ok (.number v.toUInt32.toUInt64), w,
      [⟨.checkCompleted oper, w.storage, true⟩]⟩ = v.toUInt32.toNat := UInt32.toNat_toUInt64 _
  rw [hread, C.check card t.thread oper v hv]
  simp only [Test.condition, Test.counter, hoper, Option.getD_some]

/-- The script goes on in the same way as its abstraction, or does nothing to
the counters. -/
theorem advance_abstract {s s' : State C} (h : Sound s) (hadvance : s.advance = some s') :
    Sound s' ∧ ((s'.abstract = s.abstract ∧ s'.code.length < s.code.length) ∨
      Completion.step s.abstract .advance = some s'.abstract) := by
  obtain ⟨code, wrapper, card, latencies, failed⟩ := s
  obtain ⟨rfl, hcode, hdivides⟩ := h
  cases code with
  | nil => cases hadvance
  | cons stmt rest =>
      have hrest : ∀ stmt ∈ rest, stmt.Sound := fun stmt hstmt => hcode stmt (by simp [hstmt])
      have hfirst : stmt.Sound := hcode stmt (by simp)
      cases stmt with
      | access a =>
          have hreturns : a.returns = true := hfirst
          simp only [State.advance, if_pos hreturns] at hadvance
          cases hadvance
          exact ⟨⟨rfl, hrest, hdivides.2⟩, .inr rfl⟩
      | divide divisor =>
          have hdivisor : divisor latencies ≠ 0 := hdivides.1
          simp only [State.advance, if_pos hdivisor] at hadvance
          cases hadvance
          exact ⟨⟨rfl, hrest, hdivides.2⟩, .inl ⟨rfl, Nat.lt_succ_self _⟩⟩
      | call i op =>
          obtain ⟨c, value, w', xs, hexec, hlaunches, hclears⟩ :=
            exec_of_sound hfirst card (wrapper i)
          simp only [State.advance, hexec, State.after, Option.some.injEq] at hadvance
          subst hadvance
          refine ⟨⟨rfl, hrest, hdivides.2⟩, ?_⟩
          cases hop : op.launches with
          | some oper =>
              have hlaunch : c.launches = some oper := hlaunches.trans hop
              have hclear : c ≠ .method .clearCompleted := by
                rintro rfl
                cases hlaunch
              right
              simp [State.abstract, abstract, Stmt.abstract, hop, Completion.step,
                C.launch card i c oper hlaunch, C.keep_completed card i c hclear]
          | none =>
              have hnone : c.launches = none := hlaunches.trans hop
              cases hclear : op.clears with
              | true =>
                  obtain rfl := hclears.mpr hclear
                  right
                  simp [State.abstract, abstract, Stmt.abstract, hop, hclear, Completion.step,
                    C.clear, C.keep_inflight card i _ hnone]
              | false =>
                  have hne : c ≠ .method .clearCompleted := fun heq => by
                    rw [hclears.mp heq] at hclear
                    cases hclear
                  refine .inl ⟨?_, Nat.lt_succ_self _⟩
                  simp [State.abstract, abstract, Stmt.abstract, hop, hclear,
                    C.keep_inflight card i c hnone, C.keep_completed card i c hne]
      | poll all left =>
          cases left with
          | nil =>
              cases hadvance
              exact ⟨⟨rfl, hrest, hdivides.2⟩, .inr rfl⟩
          | cons t left =>
              obtain ⟨oper, value, w', xs, hexec, htest⟩ :=
                exec_test (hfirst.2 t (by simp)) card (wrapper t.thread)
              simp only [State.advance, hexec, State.after, Option.some.injEq] at hadvance
              subst hadvance
              have hinflight := C.keep_inflight card t.thread (.checkCompleted oper) rfl
              have hcompleted := C.keep_completed card t.thread (.checkCompleted oper) (by simp)
              by_cases hholds : t.holds (Outcome.reading ⟨.ok value, w', xs⟩) = true
              · refine ⟨⟨rfl, ?_, hdivides⟩, .inr ?_⟩
                · simp only [hholds, if_true, List.forall_mem_cons]
                  exact ⟨⟨hfirst.1, fun u hu => hfirst.2 u (by simp [hu])⟩, hrest⟩
                · simp [State.abstract, abstract, Stmt.abstract, Completion.step, htest, hholds,
                    hinflight, hcompleted]
              · refine ⟨⟨rfl, ?_, hdivides⟩, .inr ?_⟩
                · simp only [hholds, List.forall_mem_cons]
                  exact ⟨⟨hfirst.1, hfirst.1⟩, hrest⟩
                · simp [State.abstract, abstract, Stmt.abstract, Completion.step, htest, hholds,
                    hinflight, hcompleted]
      | collect all left pending =>
          cases left with
          | nil =>
              simp only [State.advance] at hadvance
              split at hadvance <;> cases hadvance
              · next hnil =>
                  subst hnil
                  refine ⟨⟨rfl, hrest, hdivides.2⟩, .inr ?_⟩
                  simp [State.abstract, abstract, Stmt.abstract, Completion.step]
              · next hnil =>
                  refine ⟨⟨rfl, List.forall_mem_cons.mpr ⟨⟨hfirst.1, hfirst.1⟩, hrest⟩,
                    hdivides⟩, .inr ?_⟩
                  simp [State.abstract, abstract, Stmt.abstract, Completion.step, hnil]
          | cons t left =>
              obtain ⟨oper, value, w', xs, hexec, htest⟩ :=
                exec_test (hfirst.2 t (by simp)) card (wrapper t.thread)
              have hinflight := C.keep_inflight card t.thread (.checkCompleted oper) rfl
              have hcompleted := C.keep_completed card t.thread (.checkCompleted oper) (by simp)
              have hleft : ∀ u ∈ left, (CThread.completedOper u.oper).isSome :=
                fun u hu => hfirst.2 u (by simp [hu])
              simp only [State.advance, hexec, State.after] at hadvance
              split at hadvance <;> cases hadvance
              · next hholds =>
                  have hsame := latencies_append hholds.2 latencies
                  refine ⟨⟨rfl, List.forall_mem_cons.mpr ⟨⟨hfirst.1, hleft⟩, hrest⟩,
                    trivial, ?_⟩, .inr ?_⟩
                  · simp only [Stmt.appends, hsame]
                    exact hdivides.2
                  rw [← htest] at hholds
                  simp [State.abstract, abstract, Stmt.abstract, Completion.step, hholds,
                    hinflight, hcompleted]
              · next hholds =>
                  refine ⟨⟨rfl, List.forall_mem_cons.mpr ⟨⟨hfirst.1, hleft⟩, hrest⟩,
                    hdivides⟩, .inr ?_⟩
                  rw [← htest] at hholds
                  simp [State.abstract, abstract, Stmt.abstract, Completion.step, hholds,
                    hinflight, hcompleted]

/-- A script that is not at its end goes on. -/
theorem exists_advance {s : State C} (h : s.code ≠ []) : ∃ s', s.advance = some s' := by
  obtain ⟨code, wrapper, card, latencies, failed⟩ := s
  cases code with
  | nil => exact absurd rfl h
  | cons stmt rest =>
      cases stmt with
      | call | access | divide => exact ⟨_, rfl⟩
      | poll all left => cases left <;> exact ⟨_, rfl⟩
      | collect all left pending =>
          cases left <;> simp only [State.advance] <;> split <;> exact ⟨_, rfl⟩

omit [CoyoteHeader] in
/-- The card's steps are completions, or nothing to the counters. -/
theorem card_abstract {s : State C} (h : Sound s) {card' : C.State}
    (hevolves : C.Evolves s.card card') : Sound { s with card := card' } ∧
      (State.abstract { s with card := card' } = s.abstract ∨
        ∃ k, Completion.step s.abstract (.complete k) =
          some (State.abstract { s with card := card' })) := by
  refine ⟨⟨h.ok, h.code, h.divides⟩, ?_⟩
  obtain ⟨k, hpos, hinflight, hcompleted⟩ | ⟨hinflight, hcompleted⟩ := C.evolves _ _ hevolves
  · refine .inr ⟨k, ?_⟩
    simp [State.abstract, Completion.step, hpos, hinflight, hcompleted]
  · left
    simp [State.abstract, hinflight, hcompleted]

/-- A step of the script or the card is a step of the abstraction, or none. -/
theorem Step.abstract {s s' : State C} (hstep : Step s s') (h : Sound s) :
    Sound s' ∧ (s'.abstract = s.abstract ∨
      ∃ l, Completion.step s.abstract l = some s'.abstract) := by
  cases hstep with
  | advance hadvance =>
      obtain ⟨hsound, ⟨hsame, -⟩ | hstep⟩ := advance_abstract h hadvance
      · exact ⟨hsound, .inl hsame⟩
      · exact ⟨hsound, .inr ⟨_, hstep⟩⟩
  | card hevolves =>
      obtain ⟨hsound, hsame | ⟨k, hstep⟩⟩ := card_abstract h hevolves
      · exact ⟨hsound, .inl hsame⟩
      · exact ⟨hsound, .inr ⟨_, hstep⟩⟩

theorem Reaches.keep {s s' : State C} (h : Reaches s s')
    (hs : Sound s ∧ Completion.Ok s.abstract) : Sound s' ∧ Completion.Ok s'.abstract := by
  induction h with
  | refl => exact hs
  | tail _ hstep ih =>
      obtain ⟨hsound, hsame | ⟨l, hl⟩⟩ := hstep.abstract ih.1
      · exact ⟨hsound, hsame ▸ ih.2⟩
      · exact ⟨hsound, ih.2.keep hl⟩

/-- The latencies appended and those that the rest of the script appends are
always as many. -/
theorem Reaches.latencies {s s' : State C} (h : Reaches s s') (hs : Sound s) (k : Counter) :
    Sound s' ∧ s'.latencies k + Completion.owed k (Script.abstract s'.code) =
      s.latencies k + Completion.owed k (Script.abstract s.code) := by
  induction h with
  | refl => exact ⟨hs, rfl⟩
  | @tail mid last _ hstep ih =>
      obtain ⟨hsound, heq⟩ := ih
      obtain ⟨hsound', hsame | ⟨l, hl⟩⟩ := hstep.abstract hsound
      · have hrecords : last.latencies = mid.latencies := congrArg Completion.State.records hsame
        have hcode : Script.abstract last.code = Script.abstract mid.code :=
          congrArg Completion.State.code hsame
        exact ⟨hsound', by rw [hrecords, hcode, heq]⟩
      · exact ⟨hsound', (Completion.step_records hl k).trans heq⟩

/-- What the abstraction does next the script can do, after calls that are
nothing to the counters. -/
theorem Sound.lift_advance {s : State C} (h : Sound s) {a : Completion.State Counter}
    (hstep : Completion.step s.abstract .advance = some a) :
    ∃ s', Reaches s s' ∧ Sound s' ∧ s'.abstract = a := by
  induction hn : s.code.length using Nat.strongRecOn generalizing s with
  | ind n ih =>
      have hne : s.code ≠ [] := by
        intro hnil
        simp [State.abstract, abstract, hnil, Completion.step] at hstep
      obtain ⟨mid, hadvance⟩ := exists_advance hne
      obtain ⟨hmid, ⟨hsame, hless⟩ | hnext⟩ := advance_abstract h hadvance
      · obtain ⟨s', hreach, hs'⟩ := ih _ (hn ▸ hless) hmid (hsame ▸ hstep) rfl
        exact ⟨s', .head (.advance hadvance) hreach, hs'⟩
      · exact ⟨mid, .single (.advance hadvance), hmid, Option.some.inj (hnext.symm.trans hstep)⟩

/-- What the abstract device completes the card can complete. -/
theorem Sound.lift_complete {s : State C} (h : Sound s) {k : Counter}
    {a : Completion.State Counter} (hstep : Completion.step s.abstract (.complete k) = some a) :
    ∃ s', Reaches s s' ∧ Sound s' ∧ s'.abstract = a := by
  obtain ⟨hpos, heq⟩ := Option.ite_none_right_eq_some.mp hstep
  obtain ⟨card', hevolves, -, hinflight, hcompleted⟩ := C.completes s.card k hpos
  refine ⟨{ s with card := card' }, .single (.card hevolves), ⟨h.ok, h.code, h.divides⟩, ?_⟩
  rw [← Option.some.inj heq]
  simp [State.abstract, hinflight, hcompleted]

/-- Every run of the abstraction can be followed. -/
theorem Sound.lift {s : State C} (h : Sound s) {a : Completion.State Counter}
    (labels : List (Completion.Label Counter))
    (hrun : Transition.run Completion.step s.abstract labels = some a) :
    ∃ s', Reaches s s' ∧ Sound s' ∧ s'.abstract = a := by
  induction labels generalizing s with
  | nil => exact ⟨s, .refl, h, Option.some.inj hrun⟩
  | cons l rest ih =>
      obtain ⟨mid, hmid, hrest⟩ := Option.bind_eq_some_iff.mp hrun
      have hfirst : ∃ s', Reaches s s' ∧ Sound s' ∧ s'.abstract = mid := by
        cases l with
        | advance => exact h.lift_advance hmid
        | complete k => exact h.lift_complete hmid
      obtain ⟨u, hreach, hu, rfl⟩ := hfirst
      obtain ⟨s', hreach', hs'⟩ := ih hu hrest
      exact ⟨s', hreach.trans hreach', hs'⟩

/-- Calls that are nothing to the counters run to the end of the script. -/
theorem Sound.exists_end {s : State C} (h : Sound s) (hend : s.abstract.code = []) :
    ∃ s', Reaches s s' ∧ Sound s' ∧ s'.code = [] := by
  induction hn : s.code.length using Nat.strongRecOn generalizing s with
  | ind n ih =>
      by_cases hnil : s.code = []
      · exact ⟨s, .refl, h, hnil⟩
      · obtain ⟨mid, hadvance⟩ := exists_advance hnil
        obtain ⟨hmid, ⟨hsame, hless⟩ | hnext⟩ := advance_abstract h hadvance
        · obtain ⟨s', hreach, hs'⟩ := ih _ (hn ▸ hless) hmid (hsame ▸ hend) rfl
          exact ⟨s', .head (.advance hadvance) hreach, hs'⟩
        · simp [Completion.step, hend] at hnext

/-- The script before its first statement. -/
def State.start (C : Card) (code : List Stmt) (wrapper : ℕ → WrapperState) (card : C.State) :
    State C := ⟨code, wrapper, card, fun _ => 0, false⟩

/-- Nothing has raised. The buffers are accessed, a thread's counters cleared and
a latency taken only while nothing (of that thread, or of the operation) is in
flight, and a method transfers only bytes of its buffers. -/
structure Safe (s : State C) : Prop where
  ok : s.failed = false
  access : ∀ a rest, s.code = .access a :: rest → ∀ k, C.inflight s.card k = 0
  clear : ∀ i rest, s.code = .call i (.method .clearCompleted) :: rest →
    ∀ oper, C.inflight s.card ⟨i, oper⟩ = 0
  latency : ∀ s' k, s.advance = some s' → s'.latencies k ≠ s.latencies k →
    C.inflight s.card k = 0
  transfer : ∀ i op rest, s.code = .call i op :: rest → op.Stays (s.wrapper i)

/-- With any card, and counters that satisfy `fresh`, the script is always safe
and can run to its end from every state: no waiting loop has missed what it
waits for. -/
def Correct (fresh : (Counter → ℕ) → Prop) (code : List Stmt) : Prop :=
  ∀ (C : Card) (wrapper : ℕ → WrapperState) (card : C.State),
    (∀ k, C.inflight card k = 0) → fresh (C.completed card) →
      ∀ s, Reaches (State.start C code wrapper card) s → Safe s ∧
        ∃ s', Reaches s s' ∧ s'.code = [] ∧ s'.failed = false

/-- A run of the script appends `n` latencies to the list of `k`. -/
def Appends (code : List Stmt) (k : Counter) (n : ℕ) : Prop :=
  ∀ (C : Card) (wrapper : ℕ → WrapperState) (card : C.State) (s : State C),
    Reaches (State.start C code wrapper card) s →
      s.latencies k ≤ n ∧ (s.code = [] → s.latencies k = n)

theorem appends_owed {code : List Stmt} (hsound : ∀ stmt ∈ code, stmt.Sound)
    (hdivides : Divides (fun _ => 0) code) (k : Counter) :
    Appends code k (Completion.owed k (abstract code)) := by
  intro C wrapper card s hreach
  obtain ⟨-, heq⟩ := hreach.latencies ⟨rfl, hsound, hdivides⟩ k
  simp only [State.start, Nat.zero_add] at heq
  refine ⟨by omega, fun hend => ?_⟩
  rw [hend] at heq
  exact heq

/-- A sound script is correct if its abstraction is disciplined. -/
theorem correct_of_disciplined {fresh : (Counter → ℕ) → Prop} {code : List Stmt}
    (hsound : ∀ stmt ∈ code, stmt.Sound) (hdivides : Divides (fun _ => 0) code)
    (hdisciplined : ∀ count, fresh count →
      Completion.Disciplined count Completion.idle (abstract code)) : Correct fresh code := by
  intro C wrapper card hidle hfresh s hreach
  have hstart : Completion.Ok (State.start C code wrapper card).abstract :=
    ⟨C.completed card, Completion.idle, fun k => by simp [State.abstract, State.start, hidle k],
      fun k => (hidle k).le, hdisciplined _ hfresh⟩
  obtain ⟨hs, hok⟩ := hreach.keep ⟨⟨rfl, hsound, hdivides⟩, hstart⟩
  refine ⟨⟨hs.ok, ?_, ?_, ?_, ?_⟩, ?_⟩
  · intro a rest hcode k
    have hneed : s.abstract.code = .need (fun _ => true) :: abstract rest := by
      simp [State.abstract, abstract, hcode, Stmt.abstract]
    exact hok.quiet (.inl hneed) rfl
  · intro i rest hcode oper
    have hclear : s.abstract.code = .clear (fun k => k.thread == i) :: abstract rest := by
      simp [State.abstract, abstract, hcode, Stmt.abstract, Operation.launches, Operation.clears]
    exact hok.quiet (.inr hclear) (by simp)
  · intro s' k hadvance hk
    obtain ⟨-, ⟨hsame, -⟩ | hstep⟩ := advance_abstract hs hadvance
    · exact absurd (congrFun (congrArg Completion.State.records hsame) k) hk
    · exact hok.records_quiet hstep hk
  · intro i op rest hcode
    obtain ⟨hvalid, -, hbounds⟩ : (Stmt.call i op).Sound := hs.code _ (by simp [hcode])
    exact hbounds.stays hvalid _
  · obtain ⟨labels, a, hrun, hdone⟩ := hok.exists_done
    obtain ⟨u, hreach', hu, rfl⟩ := hs.lift labels hrun
    obtain ⟨s', hreach'', hs', hend⟩ := hu.exists_end hdone
    exact ⟨s', hreach'.trans hreach'', hend, hs'.ok⟩

end Header

end Script

end PyCoyote
