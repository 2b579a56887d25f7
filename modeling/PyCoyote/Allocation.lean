import PyCoyote.ByteCount

/-!
# Buffers and the memory allocated for them

`allocate_buffer` and `init_rdma` ask Coyote for a truncated number of bytes
but return a buffer of the full element count. A run hands out only buffers
that lie in their allocations exactly when every granted request fits.
-/

namespace PyCoyote.Allocation

open Op Library.EventTrace

/-- The number of bytes a call asks Coyote to allocate. -/
def requestedBytes : CoyoteCall → Option UInt32
  | .getMem alloc => some alloc.size
  | .initRDMA size _ _ => some size
  | _ => none

/-- The elements an operation asks memory for, with their data type. -/
def request : Operation → Option (UInt32 × DataType)
  | .allocateBuffer size _ dtype _ => (findDataType dtype).map fun d => (size, d)
  | .initRDMA bufferSize dtype _ _ => (findDataType dtype).map fun d => (bufferSize, d)
  | _ => none

section Header
variable [CoyoteHeader]

/-- Every element of a returned buffer's view lies in the region Coyote was
asked for: it starts at the pointer Coyote answered and has the requested length. -/
def WithinAllocation (s : Session) (e : Event) : Prop :=
  ∀ b, (s.outcome e).result = .ok (.buffer b) → ∃ call ptr len,
    (s.outcome e).calls = [call] ∧ requestedBytes call = some len ∧ e.answer = .ok ptr ∧
      ∀ i < b.size.toNat,
        b.mv.info.element i ⊆ Set.Ico ptr.toNat (ptr.toNat + len.toNat)

/-- A request whose byte length does not fit is answered with an exception. -/
def OversizedRefused (s : Session) (e : Event) : Prop :=
  ∀ size d, request e.op = some (size, d) → ¬Fits size d.size → (s.outcome e).Raised

/-- A request that passes validation and that Coyote grants fits in 32 bits. -/
def GrantedFits (e : Event) : Prop :=
  ∀ size d, request e.op = some (size, d) → e.op.valid = true → e.answer.isOk = true →
    Fits size d.size

omit [CoyoteHeader] in
theorem request_cases {op : Operation} {size : UInt32} {d : DataType}
    (h : request op = some (size, d)) :
    (∃ allocType dtype gpuDev, op = .allocateBuffer size allocType dtype gpuDev ∧
      findDataType dtype = some d) ∨
    (∃ dtype port serverAddress, op = .initRDMA size dtype port serverAddress ∧
      findDataType dtype = some d) := by
  cases op with
  | allocateBuffer size' allocType dtype gpuDev =>
      obtain ⟨d', hd, heq⟩ := Option.map_eq_some_iff.mp h
      cases heq
      exact Or.inl ⟨allocType, dtype, gpuDev, rfl, hd⟩
  | initRDMA bufferSize dtype port serverAddress =>
      obtain ⟨d', hd, heq⟩ := Option.map_eq_some_iff.mp h
      cases heq
      exact Or.inr ⟨dtype, port, serverAddress, rfl, hd⟩
  | _ => cases h

omit [CoyoteHeader] in
theorem callsCoyote_of_request {op : Operation} {r : UInt32 × DataType}
    (h : request op = some r) : op.callsCoyote = true := by
  rcases request_cases h with ⟨_, _, _, rfl, -⟩ | ⟨_, _, _, rfl, -⟩ <;> rfl

/-- A granted request returns a buffer at the answered pointer with the full
count, after asking for the truncated number of bytes. -/
theorem granted (s : Session) {e : Event} {size : UInt32} {d : DataType} {ptr : UInt64}
    (hreq : request e.op = some (size, d)) (hv : e.op.valid = true)
    (hans : e.answer = .ok ptr) :
    ∃ b call, (s.outcome e).result = .ok (.buffer b) ∧ b.base.data = ptr ∧
      b.base.size = size ∧ b.base.dtype = d ∧ (s.outcome e).calls = [call] ∧
      requestedBytes call = some (byteCount size d) := by
  obtain ⟨op, answer⟩ := e
  obtain rfl : answer = .ok ptr := hans
  rcases request_cases hreq with ⟨allocType, dtype, gpuDev, hop, hd⟩ |
    ⟨dtype, port, serverAddress, hop, hd⟩
  · obtain rfl : op = _ := hop
    have ha := (Bool.and_eq_true_iff.mp hv).2
    obtain ⟨alloc, hlen, hok, -⟩ := Operation.run_allocateBuffer hd ha size gpuDev
    obtain ⟨b, hdata, hsize, hdtype, hrun⟩ := hok ptr s.wrapper
    refine ⟨b, .getMem alloc, ?_, hdata, hsize, hdtype, ?_, congrArg some hlen⟩ <;>
      simp [Session.outcome, hrun, Outcome.calls]
  · obtain rfl : op = _ := hop
    have hc := (Bool.and_eq_true_iff.mp hv).2
    obtain ⟨addr, storage, hok, -⟩ := Operation.run_initRDMA hd hc size port s.wrapper
    obtain ⟨b, hdata, hsize, hdtype, hrun⟩ := hok ptr
    refine ⟨b, .initRDMA (byteCount size d) port addr, ?_, hdata, hsize, hdtype, ?_, rfl⟩ <;>
      simp [Session.outcome, hrun, Outcome.calls]

omit [CoyoteHeader] in
/-- The elements of a buffer lie in a truncated allocation exactly when
nothing was cut off. -/
theorem elements_within_iff (b : CoyoteBuffer) :
    (∀ i < b.size.toNat, b.mv.info.element i ⊆ Set.Ico b.base.data.toNat
      (b.base.data.toNat + (byteCount b.base.size b.base.dtype).toNat)) ↔
      Fits b.base.size b.base.dtype.size := by
  rw [b.mv_eq, ← byteLength_le_byteCount_iff]
  simp only [BufferInfo.element_of_buffer]
  exact Library.Tiling.forall_Ico_subset_iff (size_pos b.base.registered)

/-- Only a request returns a buffer. -/
theorem request_of_buffer {s : Session} {e : Event} {b : CoyoteBuffer}
    (h : (s.outcome e).result = .ok (.buffer b)) : ∃ size d, request e.op = some (size, d) := by
  obtain ⟨op, answer⟩ := e
  cases hop : op with
  | allocateBuffer size allocType dtype gpuDev =>
      cases hd : findDataType dtype with
      | some d => exact ⟨size, d, by simp only [request, hd, Option.map_some]⟩
      | none =>
          have hrej : findDataType dtype = none ∨ CThread.knownAllocType allocType = false :=
            Or.inl hd
          obtain ⟨err, herr⟩ := CThread.allocateBuffer_of_rejected hrej size gpuDev
          simp [Session.outcome, hop, Operation.run, herr, Outcome.map, Except.map] at h
  | initRDMA bufferSize dtype port serverAddress =>
      cases hd : findDataType dtype with
      | some d => exact ⟨bufferSize, d, by simp only [request, hd, Option.map_some]⟩
      | none =>
          simp [Session.outcome, hop, Operation.run, CThread.initRDMAWrapper_of_unknown hd,
            Outcome.map, Except.map] at h
  | _ =>
      simp only [Session.outcome, hop, Operation.run, Outcome.map] at h
      obtain ⟨a, -, ha⟩ := except_map_eq_ok h
      cases ha

/-- A buffer comes from a validated request that Coyote granted, at the
address Coyote answered and with the requested count. -/
theorem granted_of_buffer {s : Session} {e : Event} {b : CoyoteBuffer}
    (h : (s.outcome e).result = .ok (.buffer b)) :
    ∃ call, e.op.valid = true ∧ e.answer = .ok b.base.data ∧
      request e.op = some (b.base.size, b.base.dtype) ∧ (s.outcome e).calls = [call] ∧
      requestedBytes call = some (byteCount b.base.size b.base.dtype) := by
  obtain ⟨size, d, hreq⟩ := request_of_buffer h
  have hraised := Operation.run_raised_iff e.answer s.wrapper (callsCoyote_of_request hreq)
  have hok : ¬(s.outcome e).Raised := fun ⟨err, herr⟩ => by rw [h] at herr; cases herr
  rw [Session.outcome, hraised, not_or, Bool.not_eq_false, Bool.not_eq_false] at hok
  obtain ⟨hv, hans⟩ := hok
  obtain ⟨ptr, hptr⟩ := answer_of_isOk hans
  obtain ⟨b', call, hb', rfl, rfl, rfl, hcalls, hlen⟩ := granted s hreq hv hptr
  obtain rfl : b = b' := Value.buffer.inj (Except.ok.inj (h.symm.trans hb'))
  exact ⟨call, hv, hptr, hreq, hcalls, hlen⟩

theorem withinAllocation_iff (s : Session) (e : Event) :
    WithinAllocation s e ↔ GrantedFits e := by
  constructor
  · intro h size d hreq hv hans
    obtain ⟨ptr, hptr⟩ := answer_of_isOk hans
    obtain ⟨b, call, hb, hdata, rfl, rfl, hcalls, hlen⟩ := granted s hreq hv hptr
    obtain ⟨call', ptr', len, hcalls', hlen', hptr', hsub⟩ := h b hb
    obtain rfl : call = call' := (List.cons.inj (hcalls.symm.trans hcalls')).1
    obtain rfl : byteCount b.base.size b.base.dtype = len :=
      Option.some.inj (hlen.symm.trans hlen')
    obtain rfl : ptr = ptr' := Except.ok.inj (hptr.symm.trans hptr')
    subst hdata
    exact (elements_within_iff b).mp hsub
  · intro h b hb
    obtain ⟨call, hv, hans, hreq, hcalls, hlen⟩ := granted_of_buffer hb
    refine ⟨call, b.base.data, _, hcalls, hlen, hans, ?_⟩
    exact (elements_within_iff b).mpr (h _ _ hreq hv (by rw [hans]; rfl))

theorem oversizedRefused_iff (s : Session) (e : Event) :
    OversizedRefused s e ↔ GrantedFits e := by
  refine forall₃_congr fun size d hreq => ?_
  rw [Session.outcome, Operation.run_raised_iff _ _ (callsCoyote_of_request hreq)]
  cases e.op.valid <;> cases e.answer.isOk <;> simp

/-- In a run of a thread, every buffer handed out lies in the memory allocated
for it and every request too large for the length argument is refused, if and
only if every request that Coyote grants fits in 32 bits. -/
theorem allocations_cover_iff (bits : UInt64) (events : List Event) :
    (∀ p ∈ visits Session.step (Session.constructed bits) events,
      WithinAllocation p.1 p.2 ∧ OversizedRefused p.1 p.2) ↔
      ∀ e ∈ events, GrantedFits e := by
  conv_rhs => rw [← visits_map_snd Session.step (Session.constructed bits) events]
  rw [List.forall_mem_map]
  refine forall₂_congr fun p _ => ?_
  rw [withinAllocation_iff, oversizedRefused_iff, and_self]

end Header

/-- A request for `2 ^ 29` eight-byte elements, granted at some address. -/
def exampleOversizedRequest : Event :=
  ⟨.allocateBuffer 0x20000000 "hpf" "float64" 0, .ok 0x7f0000000000⟩

/-- The request asks for no bytes at all and returns a buffer of `2 ^ 29` elements. -/
theorem not_within_oversized :
    ¬∀ p ∈ visits (@Session.step exampleHeader) (Session.constructed 0) [exampleOversizedRequest],
      @WithinAllocation exampleHeader p.1 p.2 ∧ @OversizedRefused exampleHeader p.1 p.2 := by
  let _ := exampleHeader
  intro h
  obtain ⟨-, hrefused⟩ := h _ (List.mem_singleton.mpr rfl)
  obtain ⟨err, herr⟩ := hrefused 0x20000000 ⟨"float64", "d", 8⟩ rfl (by decide)
  cases herr

end PyCoyote.Allocation
