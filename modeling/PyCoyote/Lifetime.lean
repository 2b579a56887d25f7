import PyCoyote.Allocation
import PyCoyote.Library.ObjectGraph
import PyCoyote.Library.Transition

/-!
# Buffers and the life of the thread that allocated them

A `CoyoteBuffer` holds an address and a view of itself, but no reference to
the `CoyoteThread` that allocated its memory. Its elements stay in memory that
the thread owns for as long as the thread lives; dropping the last reference
to the thread releases the memory, whatever buffers are still in use.
-/

namespace PyCoyote.Lifetime

open Library.ObjectGraph Library.Transition

/-- The Python objects of a program: threads with their interrupt callables and
buffers with the memoryviews `_mv`, each numbered in the order of creation. -/
inductive Obj where
  | thread (t : ℕ)
  | callable (t : ℕ)
  | buffer (m : ℕ)
  | view (m : ℕ)
deriving DecidableEq, Repr

/-- The references that the bindings and `CoyoteBuffer.__init__` create: the
thread's function captures `uisr`, `_mv` is an attribute of the buffer, and the
view keeps the object it exports. -/
def refers : Obj → Obj → Bool
  | .thread t, .callable t' => t = t'
  | .buffer m, .view m' => m = m'
  | .view m, .buffer m' => m = m'
  | _, _ => false

/-- Memory that Coyote allocated for a thread. -/
structure Region where
  thread : ℕ
  base : UInt64
  len : UInt32
deriving DecidableEq, Repr

/-- The bytes of a region. -/
def Region.bytes (r : Region) : Set ℕ := Set.Ico r.base.toNat (r.base.toNat + r.len.toNat)

/-- A buffer with the thread whose method returned it. -/
structure Handed where
  thread : ℕ
  buffer : CoyoteBuffer

/-- The program's objects, the references it holds, the threads' own state, the
buffers handed out so far and the memory owned by threads. -/
structure State where
  live : List Obj
  roots : List Obj
  sessions : List Session
  handed : List Handed
  memory : List Region

/-- A program that has created nothing yet. -/
def initial : State := ⟨[], [], [], [], []⟩

/-- The steps of a program. -/
inductive Label where
  /-- Construct a thread; `bits` is what `qp_dtype` happens to hold. -/
  | newThread (bits : UInt64)
  /-- Call a method of a thread. -/
  | call (t : ℕ) (e : Event)
  /-- Copy a reference. -/
  | copyRef (x : Obj)
  /-- Take the reference to `y` that `x` holds. -/
  | follow (x y : Obj)
  /-- Drop one reference. -/
  | drop (x : Obj)
  /-- Objects that nothing else refers to are destroyed, alone or as a cycle. -/
  | destroy (dead : List Obj)

namespace State

/-- The returned buffer and its view live, and the program holds the buffer. -/
def addBuffer (s : State) (t : ℕ) (b : CoyoteBuffer) : State := { s with
  live := [.buffer s.handed.length, .view s.handed.length] ++ s.live
  roots := .buffer s.handed.length :: s.roots
  handed := s.handed ++ [⟨t, b⟩] }

/-- What a returned value adds to the program. -/
def addValue (s : State) (t : ℕ) : Except PyError Value → State
  | .ok (.buffer b) => s.addBuffer t b
  | _ => s

end State

section Header
variable [CoyoteHeader]

/-- The memory that Coyote allocates for the calls of a method. -/
def allocated (t : ℕ) (session : Session) (e : Event) : List Region :=
  match e.answer with
  | .error _ => []
  | .ok ptr =>
      ((session.outcome e).calls.filterMap Allocation.requestedBytes).map fun len => ⟨t, ptr, len⟩

/-- One step of a program. Destroying a thread releases its memory. -/
def step (s : State) : Label → Option State
  | .newThread bits =>
      let t := s.sessions.length
      some { s with
        live := [.thread t, .callable t] ++ s.live
        roots := [.thread t, .callable t] ++ s.roots
        sessions := s.sessions ++ [Session.constructed bits] }
  | .call t e =>
      if .thread t ∈ s.roots then
        (s.sessions[t]?).map fun session =>
          { s with
            sessions := s.sessions.set t (session.step e)
            memory := allocated t session e ++ s.memory }.addValue t (session.outcome e).result
      else none
  | .copyRef x => if x ∈ s.roots then some { s with roots := x :: s.roots } else none
  | .follow x y =>
      if x ∈ s.roots ∧ refers x y = true then some { s with roots := y :: s.roots } else none
  | .drop x => if x ∈ s.roots then some { s with roots := s.roots.erase x } else none
  | .destroy dead =>
      if Collectable refers s.live s.roots dead then
        some { s with
          live := collect s.live dead
          memory := s.memory.filter fun r => .thread r.thread ∉ dead }
      else none

/-- The states of a program under any order of steps. -/
def Reaches (s : State) : Prop := Reachable step initial s

/-- Every element of the buffer lies in one region owned by the thread. -/
def InMemoryOf (s : State) (t : ℕ) (b : CoyoteBuffer) : Prop :=
  ∃ r ∈ s.memory, r.thread = t ∧ ∀ i < b.size.toNat, b.mv.info.element i ⊆ r.bytes

/-- The region allocated for a buffer. -/
def Handed.region (h : Handed) : Region :=
  ⟨h.thread, h.buffer.base.data, byteCount h.buffer.base.size h.buffer.base.dtype⟩

/-- References are good, and a thread that lives owns the memory it allocated. -/
structure Inv (s : State) : Prop where
  sound : Sound refers s.live s.roots
  known : ∀ h ∈ s.handed, h.thread < s.sessions.length
  owned : ∀ h ∈ s.handed, .thread h.thread ∈ s.live → h.region ∈ s.memory

omit [CoyoteHeader] in
theorem inv_initial : Inv initial where
  sound := ⟨nofun, nofun⟩
  known := nofun
  owned := nofun

omit [CoyoteHeader] in
theorem refers_iff {x y : Obj} : refers x y = true ↔
    (∃ t, x = .thread t ∧ y = .callable t) ∨ (∃ m, x = .buffer m ∧ y = .view m) ∨
      ∃ m, x = .view m ∧ y = .buffer m := by
  cases x <;> cases y <;> simp [refers, eq_comm]

omit [CoyoteHeader] in
/-- Nothing refers to a thread, so that no object but the program keeps it alive. -/
theorem refers_thread (x : Obj) (t : ℕ) : refers x (.thread t) = false := by
  cases x <;> rfl

omit [CoyoteHeader] in
/-- The references of a new buffer and its view are to each other. -/
theorem refers_new_buffer (m : ℕ) :
    ∀ x ∈ [Obj.buffer m, Obj.view m], ∀ y, refers x y = true → y ∈ [Obj.buffer m, Obj.view m] := by
  intro x hx y hxy
  obtain ⟨t, rfl, rfl⟩ | ⟨n, rfl, rfl⟩ | ⟨n, rfl, rfl⟩ := refers_iff.mp hxy <;> simp_all

omit [CoyoteHeader] in
/-- A new thread refers to its callable, which refers to nothing here. -/
theorem refers_new_thread (t : ℕ) :
    ∀ x ∈ [Obj.thread t, Obj.callable t], ∀ y, refers x y = true →
      y ∈ [Obj.thread t, Obj.callable t] := by
  intro x hx y hxy
  obtain ⟨u, rfl, rfl⟩ | ⟨n, rfl, rfl⟩ | ⟨n, rfl, rfl⟩ := refers_iff.mp hxy <;> simp_all

omit [CoyoteHeader] in
/-- A buffer returned by a method lives with its view. -/
theorem Inv.addBuffer {s : State} (h : Inv s) {t : ℕ} {b : CoyoteBuffer}
    (ht : t < s.sessions.length) (hregion : (⟨t, b⟩ : Handed).region ∈ s.memory) :
    Inv (s.addBuffer t b) where
  sound := by
    have hadd : Sound refers ([.buffer s.handed.length, .view s.handed.length] ++ s.live)
        s.roots :=
      h.sound.add fun x hx y hxy => List.mem_append_left _ (refers_new_buffer _ x hx y hxy)
    apply hadd.of_roots
    intro x hx
    obtain rfl | hx := List.mem_cons.mp hx
    · simp
    · exact hadd.roots_live x hx
  known x hx := by
    obtain hx | hx := List.mem_append.mp hx
    · exact h.known x hx
    · obtain rfl := List.mem_singleton.mp hx
      exact ht
  owned x hx hlive := by
    obtain hx | hx := List.mem_append.mp hx
    · exact h.owned x hx (by simpa [State.addBuffer] using hlive)
    · obtain rfl := List.mem_singleton.mp hx
      exact hregion

/-- A method that returns a buffer made Coyote allocate its region. -/
theorem region_allocated {t : ℕ} {session : Session} {e : Event} {b : CoyoteBuffer}
    (h : (session.outcome e).result = .ok (.buffer b)) :
    (⟨t, b⟩ : Handed).region ∈ allocated t session e := by
  obtain ⟨call, -, hanswer, -, hcalls, hlen⟩ := Allocation.granted_of_buffer h
  simp [allocated, hanswer, hcalls, hlen, Handed.region]

/-- A method call keeps the memory of the buffers handed out before. -/
theorem Inv.call {s : State} (h : Inv s) {t : ℕ} {session : Session} (e : Event)
    (hsession : s.sessions[t]? = some session) :
    Inv ({ s with
      sessions := s.sessions.set t (session.step e)
      memory := allocated t session e ++ s.memory }.addValue t (session.outcome e).result) := by
  have ht : t < s.sessions.length := (List.getElem?_eq_some_iff.mp hsession).1
  have hcalled : Inv { s with
      sessions := s.sessions.set t (session.step e)
      memory := allocated t session e ++ s.memory } := by
    refine ⟨h.sound, ?_, ?_⟩
    · intro x hx
      rw [List.length_set]
      exact h.known x hx
    · exact fun x hx hlive => List.mem_append_right _ (h.owned x hx hlive)
  cases hresult : (session.outcome e).result with
  | error err => exact hcalled
  | ok value =>
      cases value with
      | none => exact hcalled
      | number v => exact hcalled
      | buffer b =>
          apply hcalled.addBuffer
          · rwa [List.length_set]
          · exact List.mem_append_left _ (region_allocated hresult)

omit [CoyoteHeader] in
/-- The memory of destroyed threads goes, that of the others stays. -/
theorem Inv.destroy {s : State} (h : Inv s) {dead : List Obj}
    (hdead : Collectable refers s.live s.roots dead) :
    Inv { s with
      live := collect s.live dead
      memory := s.memory.filter fun r => .thread r.thread ∉ dead } where
  sound := h.sound.collect hdead
  known := h.known
  owned x hx hlive := by
    obtain ⟨hlive, hkept⟩ := mem_collect.mp hlive
    apply List.mem_filter.mpr
    exact ⟨h.owned x hx hlive, decide_eq_true hkept⟩

theorem inv_step {s s' : State} {l : Label} (h : Inv s) (hstep : step s l = some s') :
    Inv s' := by
  cases l with
  | newThread bits =>
      obtain rfl := Option.some.inj hstep
      have hadd := h.sound.add fun x hx y hxy =>
        List.mem_append_left s.live (refers_new_thread s.sessions.length x hx y hxy)
      refine ⟨hadd.of_roots ?_, ?_, ?_⟩
      · intro x hx
        obtain hx | hx := List.mem_append.mp hx
        · exact List.mem_append_left _ hx
        · exact hadd.roots_live x hx
      · intro x hx
        have := h.known x hx
        simp only [List.length_append]
        omega
      · intro x hx hlive
        have hold : .thread x.thread ∈ s.live := by
          have hne := (h.known x hx).ne
          simpa [hne] using hlive
        exact h.owned x hx hold
  | call t e =>
      obtain ⟨-, hcall⟩ := Option.ite_none_right_eq_some.mp hstep
      obtain ⟨session, hsession, rfl⟩ := Option.map_eq_some_iff.mp hcall
      exact h.call e hsession
  | copyRef x =>
      obtain ⟨hx, heq⟩ := Option.ite_none_right_eq_some.mp hstep
      obtain rfl := Option.some.inj heq
      refine ⟨h.sound.of_roots ?_, h.known, h.owned⟩
      exact List.forall_mem_cons.mpr ⟨h.sound.roots_live x hx, h.sound.roots_live⟩
  | follow x y =>
      obtain ⟨⟨hx, hxy⟩, heq⟩ := Option.ite_none_right_eq_some.mp hstep
      obtain rfl := Option.some.inj heq
      have hy := h.sound.refers_live x (h.sound.roots_live x hx) y hxy
      refine ⟨h.sound.of_roots ?_, h.known, h.owned⟩
      exact List.forall_mem_cons.mpr ⟨hy, h.sound.roots_live⟩
  | drop x =>
      obtain ⟨hx, heq⟩ := Option.ite_none_right_eq_some.mp hstep
      obtain rfl := Option.some.inj heq
      refine ⟨h.sound.of_roots ?_, h.known, h.owned⟩
      exact fun y hy => h.sound.roots_live y (List.mem_of_mem_erase hy)
  | destroy dead =>
      obtain ⟨hdead, heq⟩ := Option.ite_none_right_eq_some.mp hstep
      obtain rfl := Option.some.inj heq
      exact h.destroy hdead

theorem Reaches.inv {s : State} (h : Reaches s) : Inv s :=
  Reachable.invariant Inv inv_initial (fun _ _ _ _ hs hstep => inv_step hs hstep) h

omit [CoyoteHeader] in
/-- A buffer whose byte length fits lies in the memory of its thread while the
thread lives. -/
theorem Inv.inMemoryOf {s : State} (h : Inv s) {x : Handed} (hx : x ∈ s.handed)
    (hlive : .thread x.thread ∈ s.live) (hfits : Fits x.buffer.size x.buffer.base.dtype.size) :
    InMemoryOf s x.thread x.buffer :=
  ⟨x.region, h.owned x hx hlive, rfl, (Allocation.elements_within_iff x.buffer).mpr hfits⟩

omit [CoyoteHeader] in
/-- A thread the program has no reference to can be destroyed at once. -/
theorem collectable_thread {s : State} {t : ℕ} (h : .thread t ∉ s.roots) :
    Collectable refers s.live s.roots [.thread t] := by
  intro x hx
  obtain rfl := List.mem_singleton.mp hx
  refine ⟨h, fun y _ hy => ?_⟩
  rw [refers_thread] at hy
  cases hy

/-- In every state a thread the program references lives; a buffer in use whose
thread lives and whose byte length fits lies in memory of that thread; and a
thread that the program does not reference can be destroyed, which leaves the
program its buffers but releases the memory. -/
theorem buffers_in_memory_of_live_threads {s : State} (h : Reaches s) :
    (∀ t, .thread t ∈ s.roots → .thread t ∈ s.live) ∧
      (∀ m x, .buffer m ∈ s.roots → s.handed[m]? = some x → .thread x.thread ∈ s.live →
        Fits x.buffer.size x.buffer.base.dtype.size → InMemoryOf s x.thread x.buffer) ∧
      ∀ t, .thread t ∉ s.roots → ∃ s', step s (.destroy [.thread t]) = some s' ∧
        s'.roots = s.roots ∧ ∀ r ∈ s'.memory, r.thread ≠ t := by
  refine ⟨?_, ?_, ?_⟩
  · exact fun t ht => h.inv.sound.roots_live _ ht
  · intro m x _ hx hlive hfits
    exact h.inv.inMemoryOf (List.mem_of_getElem? hx) hlive hfits
  · intro t ht
    refine ⟨_, if_pos (collectable_thread ht), rfl, ?_⟩
    intro r hr
    have hkept := (List.mem_filter.mp hr).2
    simpa using hkept

end Header

/-- The request of the README: sixteen integers of regular memory. -/
def exampleRequest : Event := ⟨.allocateBuffer 16 "reg" "int" 0, .ok 0x7f0000000000⟩

/-- With the thread in scope the sixteen integers are in its memory. -/
theorem example_buffer_in_memory : ∃ s x, @Reaches exampleHeader s ∧ s.handed = [x] ∧
    x.buffer.size = 16 ∧ InMemoryOf s x.thread x.buffer := by
  let _ := exampleHeader
  have hreach : Reaches _ :=
    (Reachable.refl initial).run [.newThread 0, .call 0 exampleRequest] rfl
  exact ⟨_, _, hreach, rfl, rfl,
    (buffers_in_memory_of_live_threads hreach).2.1 0 _ (by decide) rfl (by decide) (by decide)⟩

/-- A helper that returns only the buffer: the thread goes out of scope, is
destroyed, and no live thread owns the memory of the buffer still in use. -/
theorem not_in_memory_after_drop :
    ¬∀ s, @Reaches exampleHeader s → ∀ m x, .buffer m ∈ s.roots → s.handed[m]? = some x →
      ∃ t, .thread t ∈ s.live ∧ InMemoryOf s t x.buffer := by
  let _ := exampleHeader
  intro h
  have hreach : Reaches _ := (Reachable.refl initial).run
    [.newThread 0, .call 0 exampleRequest, .drop (.thread 0), .destroy [.thread 0]] rfl
  obtain ⟨t, -, r, hr, -⟩ := h _ hreach 0 _ (by decide) rfl
  exact absurd hr List.not_mem_nil

end PyCoyote.Lifetime
