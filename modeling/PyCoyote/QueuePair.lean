import PyCoyote.ByteCount

/-!
# The element type of the queue pair

`qp_dtype` is meant to be the data type of the RDMA buffer in force. The
constructor leaves it unassigned and `init_rdma` overwrites it before the
connection it describes exists. A run keeps the meaning exactly when it makes
no RDMA operation before a set-up has succeeded and when every set-up that
fails late names the data type already in force.
-/

namespace PyCoyote.QueuePair

open Op Library.EventTrace

/-- The element count of an RDMA operation. -/
def rdmaCount : Operation → Option UInt32
  | .rdmaWrite size _ _ _ _ _ _ => some size
  | .rdmaRead size _ _ _ _ _ _ => some size
  | _ => none

/-- `qp_dtype` is the data type of the RDMA buffer in force. -/
def QpMatches (s : Session) : Prop :=
  ∀ b, s.rdma = some b → s.wrapper.qpDtype = ⟨b.base.dtype, true⟩

section Header
variable [CoyoteHeader]

/-- An RDMA operation that reaches `invoke` runs after a successful set-up,
reads an assigned `qp_dtype` and passes the byte length counted in elements of
the RDMA buffer in force, where that fits in 32 bits. -/
def UsesBufferInForce (s : Session) (e : Event) : Prop :=
  ∀ size, rdmaCount e.op = some size → ∀ oper sg last,
    .invokeRdma oper sg last ∈ (s.outcome e).calls →
      s.wrapper.qpDtype.assigned = true ∧ ∃ b, s.rdma = some b ∧
        (Fits size b.base.dtype.size → sg.len.toNat = byteLength size b.base.dtype.size)

/-- The step keeps to the queue pair: RDMA operations come after a successful
set-up, and a set-up that fails after its data type was accepted names the
data type of the buffer in force. -/
def RespectsQueuePair (s : Session) (e : Event) : Prop :=
  (rdmaCount e.op ≠ none → e.op.valid = true → s.rdma ≠ none) ∧
  ∀ d, e.lateFailure = some d → ∀ b, s.rdma = some b → d = b.base.dtype

/-- An RDMA operation makes one call, with the length counted in elements of
`qp_dtype`. -/
theorem rdma_calls (s : Session) {e : Event} {size : UInt32}
    (h : rdmaCount e.op = some size) (hv : e.op.valid = true) :
    ∃ oper sg last, (s.outcome e).calls = [.invokeRdma oper sg last] ∧
      sg.len = byteCount size s.wrapper.qpDtype.value := by
  obtain ⟨op, answer⟩ := e
  cases op with
  | rdmaWrite size' localStream localDest localOffs remoteDest remoteOffs last =>
      cases h
      exact ⟨_, _, last, Operation.run_rdmaWrite_calls answer s.wrapper hv .., rfl⟩
  | rdmaRead size' localStream localDest localOffs remoteDest remoteOffs last =>
      cases h
      exact ⟨_, _, last, Operation.run_rdmaRead_calls answer s.wrapper hv .., rfl⟩
  | _ => cases h

/-- With the meaning of `qp_dtype` in place, an RDMA step uses the buffer in
force exactly when there is one. -/
theorem usesBufferInForce_iff {s : Session} (hs : QpMatches s) (e : Event) :
    UsesBufferInForce s e ↔ (rdmaCount e.op ≠ none → e.op.valid = true → s.rdma ≠ none) := by
  constructor
  · intro h hcount hv hnone
    obtain ⟨size, hsize⟩ := Option.ne_none_iff_exists'.mp hcount
    obtain ⟨oper, sg, last, hcalls, -⟩ := rdma_calls s hsize hv
    obtain ⟨-, b, hb, -⟩ := h size hsize oper sg last (by simp [hcalls])
    exact absurd (hb.symm.trans hnone) (by simp)
  · intro h size hsize oper sg last hmem
    have hv : e.op.valid = true := by
      by_contra hinvalid
      have hrej := Operation.run_rejected e.answer s.wrapper (Bool.not_eq_true _ ▸ hinvalid)
      rw [Outcome.calls, Session.outcome, hrej.2] at hmem
      exact absurd hmem List.not_mem_nil
    obtain ⟨b, hb⟩ := Option.ne_none_iff_exists'.mp (h (by simp [hsize]) hv)
    have hqp := hs b hb
    refine ⟨by rw [hqp], b, hb, fun hfits => ?_⟩
    obtain ⟨oper', sg', last', hcalls, hlen⟩ := rdma_calls s hsize hv
    obtain ⟨-, rfl, -⟩ : oper = oper' ∧ sg = sg' ∧ last = last' := by
      simpa [hcalls] using hmem
    rw [hlen, hqp]
    exact (byteCount_exact_iff size b.base.dtype).mpr hfits

/-- A set-up that returns puts a buffer of the assigned data type in force. -/
theorem qpMatches_of_returned {s : Session} {e : Event} (hop : e.op.isInitRDMA = true)
    (hok : ¬(s.outcome e).Raised) : QpMatches (s.step e) := by
  obtain ⟨op, answer⟩ := e
  cases op with
  | initRDMA size dtype port serverAddress =>
      have hcalls : (Operation.initRDMA size dtype port serverAddress).callsCoyote = true := rfl
      simp only [Session.outcome, Operation.run_raised_iff answer s.wrapper hcalls, not_or,
        Bool.not_eq_false] at hok
      obtain ⟨hv, hans⟩ := hok
      obtain ⟨hsome, hc⟩ := Bool.and_eq_true_iff.mp hv
      obtain ⟨d, hd⟩ := Option.isSome_iff_exists.mp hsome
      obtain ⟨ptr, rfl⟩ := answer_of_isOk hans
      obtain ⟨addr, storage, hrun, -⟩ := Operation.run_initRDMA hd hc size port s.wrapper
      obtain ⟨b, -, -, hdtype, hb⟩ := hrun ptr
      intro b' hb'
      obtain rfl : b = b' := by
        simpa [Session.step, Session.rdmaAfter, Session.outcome, hb,
          Operation.isInitRDMA] using hb'
      simp only [Session.step, Session.outcome, hb, hdtype]
  | _ => cases hop

/-- A step keeps the meaning of `qp_dtype` exactly when a set-up that fails
late names the data type in force. -/
theorem qpMatches_step_iff {s : Session} (hs : QpMatches s) (e : Event) :
    QpMatches (s.step e) ↔
      ∀ d, e.lateFailure = some d → ∀ b, s.rdma = some b → d = b.base.dtype := by
  cases hlate : e.lateFailure with
  | some d =>
      obtain ⟨hraised, hqp⟩ := Session.step_of_lateFailure (s := s) hlate
      simp only [QpMatches, hqp, Session.step_rdma_of_raised hraised, Option.some.injEq,
        forall_eq', QpDtype.mk.injEq, and_true]
  | none =>
      simp only [reduceCtorEq, false_implies, implies_true, iff_true]
      by_cases hraised : (s.outcome e).Raised
      · intro b hb
        rw [Session.step_rdma_of_raised hraised] at hb
        rw [Session.step_qpDtype_of_raised hraised hlate]
        exact hs b hb
      · cases hop : e.op.isInitRDMA with
        | true => exact qpMatches_of_returned hop hraised
        | false =>
            intro b hb
            rw [Session.step_rdma_of_other hop] at hb
            rw [Session.step_qpDtype_of_other hop]
            exact hs b hb

/-- In a run of a thread, every RDMA operation uses the element type of the
buffer in force and `qp_dtype` is that type in every state, if and only if
every step keeps to the queue pair. -/
theorem uses_buffer_in_force_iff (bits : UInt64) (events : List Event) :
    (∀ p ∈ visits Session.step (Session.constructed bits) events,
      UsesBufferInForce p.1 p.2 ∧ QpMatches (p.1.step p.2)) ↔
      ∀ p ∈ visits Session.step (Session.constructed bits) events,
        RespectsQueuePair p.1 p.2 := by
  refine forall_visits_iff Session.step QpMatches
    (fun s e => UsesBufferInForce s e ∧ QpMatches (s.step e)) RespectsQueuePair ?_ ?_ ?_ events
  · exact fun s e hs h => (qpMatches_step_iff hs e).mpr h.2
  · exact fun s e hs => and_congr (usesBufferInForce_iff hs e) (qpMatches_step_iff hs e)
  · exact fun b hb => nomatch hb

end Header

/-- A queue pair of integers, a failed attempt to set up one of doubles, and
a write of one element. -/
def exampleRun : List Event := [
  ⟨.initRDMA 16 "int" 18488 .none, .ok 0x7f0000000000⟩,
  ⟨.initRDMA 16 "float64" 18488 .none, .error "connection refused"⟩,
  ⟨.rdmaWrite 1 "host" 0 0 0 0 true, .ok 0⟩]

/-- The write passes eight bytes for one four-byte element of the buffer in force. -/
theorem not_uses_buffer_after_failure :
    ¬∀ p ∈ visits (@Session.step exampleHeader) (Session.constructed 0) exampleRun,
      @UsesBufferInForce exampleHeader p.1 p.2 ∧
        QpMatches (@Session.step exampleHeader p.1 p.2) := by
  let _ := exampleHeader
  intro h
  simp only [exampleRun, visits_cons, visits_nil, List.forall_mem_cons] at h
  obtain ⟨-, -, ⟨huses, -⟩, -⟩ := h
  obtain ⟨-, b, hb, hlen⟩ := huses 1 rfl .remoteRdmaWrite ⟨0, 1, 0, 0, 0, 8⟩ true
    (List.mem_singleton.mpr rfl)
  obtain rfl := Option.some.inj hb
  exact absurd (hlen (by decide)) (by decide)

end PyCoyote.QueuePair
