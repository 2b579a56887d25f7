import PyCoyote.Session

/-!
# Operations that raise

A validated operation calls Coyote once and returns once the call has
returned. An operation that raises leaves Coyote untouched, but `init_rdma`
has assigned `qp_dtype` by the time it can fail in the cast of the server
address or in Coyote.
-/

namespace PyCoyote.Atomicity

open Op Library.EventTrace

/-- The operations that allocate, map or move data or set up a connection. -/
def transacts : Operation → Bool
  | .unmapBuffer _ => false
  | .getCompleted _ => false
  | .method _ => false
  | _ => true

section Header
variable [CoyoteHeader]

/-- All or nothing: failed validation raises without calling Coyote, validated
operations make one call and return once it has returned, and an operation
that raises has changed neither `qp_dtype` nor anything in Coyote. -/
structure AllOrNothing (s : Session) (e : Event) : Prop where
  rejected : e.op.valid = false → (s.outcome e).Rejected
  one_call : e.op.valid = true → ∃ exchange, (s.outcome e).exchanges = [exchange]
  completes : ∀ exchange ∈ (s.outcome e).exchanges, exchange.accepted = true →
    ¬(s.outcome e).Raised
  unchanged : (s.outcome e).Raised →
    (s.step e).wrapper.qpDtype = s.wrapper.qpDtype ∧
      ∀ exchange ∈ (s.outcome e).exchanges, exchange.accepted = false

/-- A set-up that fails late names the data type `qp_dtype` already holds. -/
def KeepsQpDtype (s : Session) (e : Event) : Prop :=
  ∀ d, e.lateFailure = some d → s.wrapper.qpDtype = ⟨d, true⟩

/-- An accepted exchange is followed by a return, for any validated operation. -/
theorem accepted_iff_not_raised {s : Session} {e : Event} (hcalls : e.op.callsCoyote = true)
    {exchange : Exchange} (h : exchange ∈ (s.outcome e).exchanges) :
    exchange.accepted = true ↔ ¬(s.outcome e).Raised := by
  cases hv : e.op.valid with
  | false =>
      rw [Session.outcome, (Operation.run_rejected e.answer s.wrapper hv).2] at h
      exact absurd h List.not_mem_nil
  | true =>
      have hone := Operation.run_oneCall e.answer s.wrapper hv hcalls
      obtain ⟨c, storage, hexchange⟩ := hone.exchange
      rw [Session.outcome, hexchange, List.mem_singleton] at h
      rw [h, Session.outcome, hone.raised_iff, Bool.not_eq_false]

/-- Everything but the state left by an exception holds of every operation. -/
theorem allOrNothing_iff_unchanged (s : Session) {e : Event}
    (hcalls : e.op.callsCoyote = true) :
    AllOrNothing s e ↔
      ((s.outcome e).Raised → (s.step e).wrapper.qpDtype = s.wrapper.qpDtype) := by
  constructor
  · exact fun h hraised => (h.unchanged hraised).1
  · intro h
    refine ⟨Operation.run_rejected e.answer s.wrapper, fun hv => ?_, ?_, fun hraised => ?_⟩
    · obtain ⟨c, storage, hexchange⟩ :=
        (Operation.run_oneCall e.answer s.wrapper hv hcalls).exchange
      exact ⟨_, hexchange⟩
    · exact fun exchange hmem => (accepted_iff_not_raised hcalls hmem).mp
    · refine ⟨h hraised, fun exchange hmem => ?_⟩
      rw [← Bool.not_eq_true, accepted_iff_not_raised hcalls hmem, not_not]
      exact hraised

theorem unchanged_iff (s : Session) (e : Event) :
    ((s.outcome e).Raised → (s.step e).wrapper.qpDtype = s.wrapper.qpDtype) ↔
      KeepsQpDtype s e := by
  cases hlate : e.lateFailure with
  | none =>
      refine iff_of_true ?_ ?_
      · exact fun hraised => Session.step_qpDtype_of_raised hraised hlate
      · intro d hd
        rw [hlate] at hd
        cases hd
  | some d =>
      obtain ⟨hraised, hqp⟩ := Session.step_of_lateFailure (s := s) hlate
      simp only [hraised, hqp, true_imp_iff, KeepsQpDtype, hlate, Option.some.injEq, forall_eq']
      exact eq_comm

omit [CoyoteHeader] in
theorem callsCoyote_of_transacts {op : Operation} (h : transacts op = true) :
    op.callsCoyote = true := by
  cases op <;> first | rfl | cases h

omit [CoyoteHeader] in
theorem lateFailure_of_not_transacts {e : Event} (h : transacts e.op = false) :
    e.lateFailure = none := by
  obtain ⟨op, answer⟩ := e
  cases op <;> first | rfl | cases h

/-- In a run of a thread, every operation is all or nothing if and only if
every set-up that fails late names the data type `qp_dtype` already holds. -/
theorem all_or_nothing_iff (bits : UInt64) (events : List Event) :
    (∀ p ∈ visits Session.step (Session.constructed bits) events,
      transacts p.2.op = true → AllOrNothing p.1 p.2) ↔
      ∀ p ∈ visits Session.step (Session.constructed bits) events, KeepsQpDtype p.1 p.2 := by
  refine forall₂_congr fun p _ => ?_
  obtain ⟨s, e⟩ := p
  cases ht : transacts e.op with
  | true =>
      simp only [true_imp_iff]
      exact (allOrNothing_iff_unchanged s (callsCoyote_of_transacts ht)).trans
        (unchanged_iff s e)
  | false =>
      refine iff_of_true (fun h => nomatch h) fun d hd => ?_
      rw [lateFailure_of_not_transacts ht] at hd
      cases hd

end Header

/-- A queue pair of integers and a failed attempt to set up one of doubles. -/
def exampleRun : List Event := [
  ⟨.initRDMA 16 "int" 18488 .none, .ok 0x7f0000000000⟩,
  ⟨.initRDMA 16 "float64" 18488 .none, .error "connection refused"⟩]

/-- The failed set-up leaves `qp_dtype` at the doubles it did not get. -/
theorem not_all_or_nothing_after_failure :
    ¬∀ p ∈ visits (@Session.step exampleHeader) (Session.constructed 0) exampleRun,
      transacts p.2.op = true → @AllOrNothing exampleHeader p.1 p.2 := by
  let _ := exampleHeader
  intro h
  simp only [exampleRun, visits_cons, visits_nil, List.forall_mem_cons] at h
  obtain ⟨-, hfailed, -⟩ := h
  obtain ⟨hqp, -⟩ := (hfailed rfl).unchanged ⟨_, rfl⟩
  exact absurd hqp (by decide)

end PyCoyote.Atomicity
