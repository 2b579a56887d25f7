import PyCoyote.CThread
import PyCoyote.Library.EventTrace

/-!
# Runs of a Coyote thread

`Operation` lists the methods bound in the module `_cThread` with their
arguments; an event adds what Coyote answers if it is called. The thread and
the RDMA buffer in force form the state of a run.
-/

namespace PyCoyote

/-- The methods of `CoyoteThread`. -/
inductive Operation where
  | allocateBuffer (size : UInt32) (allocType dtype : String) (gpuDev : UInt32)
  | mapBuffer (buff : CBuffer)
  | unmapBuffer (buff : CBuffer)
  | sync (buff : CBuffer) (size : UInt32)
  | offload (buff : CBuffer) (size : UInt32)
  | localRead (buff : CBuffer) (size : UInt32) (stream : String) (dest : UInt32) (last : Bool)
  | localWrite (buff : CBuffer) (size : UInt32) (stream : String) (dest : UInt32) (last : Bool)
  | localTransfer (srcBuff dstBuff : CBuffer) (srcSize dstSize : UInt32)
      (srcStream dstStream : String) (srcDest dstDest : UInt32) (last : Bool)
  | rdmaWrite (size : UInt32) (localStream : String)
      (localDest localOffs remoteDest remoteOffs : UInt32) (last : Bool)
  | rdmaRead (size : UInt32) (localStream : String)
      (localDest localOffs remoteDest remoteOffs : UInt32) (last : Bool)
  | getCompleted (oper : String)
  | initRDMA (bufferSize : UInt32) (dtype : String) (port : UInt16)
      (serverAddress : ServerAddress)
  | method (m : CThreadMethod)

/-- What a method returns to Python. -/
inductive Value where
  | none
  | number (v : UInt64)
  | buffer (b : CoyoteBuffer)

namespace Operation

open Op

section Header
variable [CoyoteHeader]

/-- Run a method. -/
def run (op : Operation) : Op Value := fun answer s =>
  match op with
  | .allocateBuffer size allocType dtype gpuDev =>
      (CThread.allocateBuffer size allocType dtype gpuDev answer s).map .buffer
  | .mapBuffer buff => (CThread.mapBuffer buff answer s).map fun _ => .none
  | .unmapBuffer buff => (CThread.unmapBuffer buff answer s).map fun _ => .none
  | .sync buff size => (CThread.sync buff size answer s).map fun _ => .none
  | .offload buff size => (CThread.offload buff size answer s).map fun _ => .none
  | .localRead buff size stream dest last =>
      (CThread.localRead buff size stream dest last answer s).map fun _ => .none
  | .localWrite buff size stream dest last =>
      (CThread.localWrite buff size stream dest last answer s).map fun _ => .none
  | .localTransfer srcBuff dstBuff srcSize dstSize srcStream dstStream srcDest dstDest last =>
      (CThread.localTransfer srcBuff dstBuff srcSize dstSize srcStream dstStream
        srcDest dstDest last answer s).map fun _ => .none
  | .rdmaWrite size localStream localDest localOffs remoteDest remoteOffs last =>
      (CThread.rdmaWrite size localStream localDest localOffs remoteDest remoteOffs
        last answer s).map fun _ => .none
  | .rdmaRead size localStream localDest localOffs remoteDest remoteOffs last =>
      (CThread.rdmaRead size localStream localDest localOffs remoteDest remoteOffs
        last answer s).map fun _ => .none
  | .getCompleted oper =>
      (CThread.getCompleted oper answer s).map fun n => .number n.toUInt64
  | .initRDMA bufferSize dtype port serverAddress =>
      (CThread.initRDMAWrapper bufferSize dtype port serverAddress answer s).map .buffer
  | .method m => (call (.method m) answer s).map .number

end Header

/-- The operation's own validation of its arguments. -/
def valid : Operation → Bool
  | .allocateBuffer _ allocType dtype _ =>
      (findDataType dtype).isSome && CThread.knownAllocType allocType
  | .localRead _ _ stream _ _ => validStream stream
  | .localWrite _ _ stream _ _ => validStream stream
  | .localTransfer _ _ _ _ srcStream dstStream _ _ _ =>
      validStream srcStream && validStream dstStream
  | .rdmaWrite _ localStream _ _ _ _ _ => validStream localStream
  | .rdmaRead _ localStream _ _ _ _ _ => validStream localStream
  | .initRDMA _ dtype _ serverAddress =>
      (findDataType dtype).isSome && CThread.castable serverAddress
  | _ => true

/-- Every operation calls Coyote once it is validated, except `getCompleted`
on a name it does not know. -/
def callsCoyote : Operation → Bool
  | .getCompleted _ => false
  | _ => true

/-- The operation is `init_rdma`. -/
def isInitRDMA : Operation → Bool
  | .initRDMA .. => true
  | _ => false

/-- `qp_dtype` after the operation, however it ends. -/
def qpDtypeAfter (before : QpDtype) : Operation → QpDtype
  | .initRDMA _ dtype _ _ =>
      match findDataType dtype with
      | some d => ⟨d, true⟩
      | none => before
  | _ => before

section Header
variable [CoyoteHeader] (answer : Answer) (s : WrapperState)

/-- Failed validation raises before Coyote is called. -/
theorem run_of_invalid {op : Operation} (h : op.valid = false) :
    ∃ e, op.run answer s = ⟨.error e, ⟨op.qpDtypeAfter s.qpDtype, s.storage⟩, []⟩ := by
  cases op with
  | allocateBuffer size allocType dtype gpuDev =>
      have hrej : findDataType dtype = none ∨ CThread.knownAllocType allocType = false :=
        (Bool.and_eq_false_iff.mp h).imp_left (by simp)
      obtain ⟨e, he⟩ := CThread.allocateBuffer_of_rejected hrej size gpuDev
      exact ⟨e, by rw [run, he]; rfl⟩
  | localRead buff size stream dest last =>
      exact ⟨_, by rw [run, CThread.localRead, CThread.oneSided_of_invalid h]; rfl⟩
  | localWrite buff size stream dest last =>
      exact ⟨_, by rw [run, CThread.localWrite, CThread.oneSided_of_invalid h]; rfl⟩
  | localTransfer srcBuff dstBuff srcSize dstSize srcStream dstStream srcDest dstDest last =>
      obtain ⟨e, he⟩ := CThread.localTransfer_of_invalid (Bool.and_eq_false_iff.mp h)
        srcBuff dstBuff srcSize dstSize srcDest dstDest last
      exact ⟨e, by rw [run, he]; rfl⟩
  | rdmaWrite size localStream localDest localOffs remoteDest remoteOffs last =>
      exact ⟨_, by rw [run, CThread.rdmaWrite, CThread.rdmaOneSided_of_invalid h]; rfl⟩
  | rdmaRead size localStream localDest localOffs remoteDest remoteOffs last =>
      exact ⟨_, by rw [run, CThread.rdmaRead, CThread.rdmaOneSided_of_invalid h]; rfl⟩
  | initRDMA bufferSize dtype port serverAddress =>
      cases hd : findDataType dtype with
      | none =>
          refine ⟨.runtimeError ("Unsupported data type: " ++ dtype), ?_⟩
          rw [run, CThread.initRDMAWrapper_of_unknown hd, qpDtypeAfter, hd]
          rfl
      | some d =>
          have hc : CThread.castable serverAddress = false := by simpa [valid, hd] using h
          obtain rfl : serverAddress = .notText := by
            simpa [CThread.castable] using hc
          refine ⟨.castError, ?_⟩
          rw [run, CThread.initRDMAWrapper_of_notText hd, qpDtypeAfter, hd]
          rfl
  | _ => cases h

theorem run_rejected {op : Operation} (h : op.valid = false) :
    (op.run answer s).Rejected := by
  obtain ⟨e, he⟩ := run_of_invalid answer s h
  rw [he]
  exact ⟨⟨e, rfl⟩, rfl⟩

/-- An accepted allocation makes one call of `getMem` with the truncated
length; the buffer it returns has the full element count. -/
theorem run_allocateBuffer {dtype allocType : String} {d : DataType}
    (hd : findDataType dtype = some d) (ha : CThread.knownAllocType allocType = true)
    (size gpuDev : UInt32) :
    ∃ alloc, alloc.size = byteCount size d ∧
      (∀ ptr s, ∃ b : CoyoteBuffer, b.base.data = ptr ∧ b.base.size = size ∧
        b.base.dtype = d ∧ (allocateBuffer size allocType dtype gpuDev).run (.ok ptr) s =
          ⟨.ok (.buffer b), s, [⟨.getMem alloc, s.storage, true⟩]⟩) ∧
      (∀ msg s, (allocateBuffer size allocType dtype gpuDev).run (.error msg) s =
        ⟨.error (.coyoteError msg), s, [⟨.getMem alloc, s.storage, false⟩]⟩) := by
  obtain ⟨alloc, hlen, hok, herr⟩ := CThread.allocateBuffer_of_known hd ha size gpuDev
  refine ⟨alloc, hlen, fun ptr s => ?_, fun msg s => ?_⟩
  · obtain ⟨b, hb, hdata, hsize, hdtype⟩ := CoyoteBuffer.init_ok hd ptr size
    refine ⟨b, hdata, hsize, hdtype, ?_⟩
    rw [run, hok ptr s, hb]
    rfl
  · rw [run, herr msg s]
    rfl

/-- An accepted set-up assigns `qp_dtype` and makes one call of `initRDMA`
with the truncated length; the buffer has the full element count. -/
theorem run_initRDMA {dtype : String} {d : DataType} (hd : findDataType dtype = some d)
    {serverAddress : ServerAddress} (hc : CThread.castable serverAddress = true)
    (bufferSize : UInt32) (port : UInt16) (s : WrapperState) :
    ∃ addr storage,
      (∀ ptr, ∃ b : CoyoteBuffer, b.base.data = ptr ∧ b.base.size = bufferSize ∧
        b.base.dtype = d ∧ (initRDMA bufferSize dtype port serverAddress).run (.ok ptr) s =
          ⟨.ok (.buffer b), ⟨⟨d, true⟩, storage⟩,
            [⟨.initRDMA (byteCount bufferSize d) port addr, storage, true⟩]⟩) ∧
      (∀ msg, (initRDMA bufferSize dtype port serverAddress).run (.error msg) s =
        ⟨.error (.coyoteError msg), ⟨⟨d, true⟩, storage⟩,
          [⟨.initRDMA (byteCount bufferSize d) port addr, storage, false⟩]⟩) := by
  obtain ⟨addr, storage, hok, herr⟩ :=
    CThread.initRDMAWrapper_of_known hd hc bufferSize port s
  refine ⟨addr, storage, fun ptr => ?_, fun msg => ?_⟩
  · obtain ⟨b, hb, hdata, hsize, hdtype⟩ := CoyoteBuffer.init_ok hd ptr bufferSize
    refine ⟨b, hdata, hsize, hdtype, ?_⟩
    rw [run, hok ptr, hb]
    rfl
  · rw [run, herr msg]
    rfl

/-- The call of an accepted `rdma_write`. -/
theorem run_rdmaWrite_calls {localStream : String} (h : validStream localStream = true)
    (size localDest localOffs remoteDest remoteOffs : UInt32) (last : Bool) :
    ((rdmaWrite size localStream localDest localOffs remoteDest remoteOffs last).run
      answer s).calls = [.invokeRdma .remoteRdmaWrite ⟨localOffs.toUInt64,
        streamNumber localStream, localDest, remoteOffs.toUInt64, remoteDest,
        byteCount size s.qpDtype.value⟩ last] := by
  rw [run, Outcome.map_calls, CThread.rdmaWrite, CThread.rdmaOneSided_of_valid answer s h,
    invoke_calls]

/-- The call of an accepted `rdma_read`. -/
theorem run_rdmaRead_calls {localStream : String} (h : validStream localStream = true)
    (size localDest localOffs remoteDest remoteOffs : UInt32) (last : Bool) :
    ((rdmaRead size localStream localDest localOffs remoteDest remoteOffs last).run
      answer s).calls = [.invokeRdma .remoteRdmaRead ⟨localOffs.toUInt64,
        streamNumber localStream, localDest, remoteOffs.toUInt64, remoteDest,
        byteCount size s.qpDtype.value⟩ last] := by
  rw [run, Outcome.map_calls, CThread.rdmaRead, CThread.rdmaOneSided_of_valid answer s h,
    invoke_calls]

/-- The operation makes the call `c`, which meets the given storage, and ends as the call does. -/
structure Makes (op : Operation) (s : WrapperState) (c : CoyoteCall)
    (storage : List StorageObject) : Prop where
  returns : ∀ v, ∃ value, op.run (.ok v) s =
    ⟨.ok value, ⟨op.qpDtypeAfter s.qpDtype, storage⟩, [⟨c, storage, true⟩]⟩
  raises : ∀ msg, op.run (.error msg) s =
    ⟨.error (.coyoteError msg), ⟨op.qpDtypeAfter s.qpDtype, storage⟩, [⟨c, storage, false⟩]⟩

/-- Most operations only invoke Coyote once they are validated. -/
theorem Makes.of_invoke {op : Operation} {s : WrapperState} {body : Op Unit} {c : CoyoteCall}
    (hinvoke : ∀ answer, body answer s = invoke c answer s)
    (hrun : ∀ answer, op.run answer s = (body answer s).map fun _ => .none)
    (hop : op.isInitRDMA = false) : op.Makes s c s.storage := by
  have hqp : op.qpDtypeAfter s.qpDtype = s.qpDtype := by
    cases op <;> first | rfl | cases hop
  refine ⟨fun v => ⟨.none, ?_⟩, fun msg => ?_⟩
  · rw [hrun, hinvoke, hqp]
    rfl
  · rw [hrun, hinvoke, hqp]
    rfl

/-- What a validated operation does. -/
theorem exists_makes {op : Operation} (h : op.valid = true) (hcalls : op.callsCoyote = true) :
    ∃ c storage, op.Makes s c storage := by
  cases op with
  | allocateBuffer size allocType dtype gpuDev =>
      obtain ⟨hsome, ha⟩ := Bool.and_eq_true_iff.mp h
      obtain ⟨d, hd⟩ := Option.isSome_iff_exists.mp hsome
      obtain ⟨alloc, -, hok, herr⟩ := run_allocateBuffer hd ha size gpuDev
      refine ⟨.getMem alloc, s.storage, fun ptr => ?_, fun msg => herr msg s⟩
      obtain ⟨b, -, -, -, hrun⟩ := hok ptr s
      exact ⟨.buffer b, hrun⟩
  | localRead buff size stream dest last =>
      have hbody := CThread.oneSided_of_valid h .localRead buff size dest last
      exact ⟨_, _, .of_invoke (fun answer => congrFun₂ hbody answer s) (fun _ => rfl) rfl⟩
  | localWrite buff size stream dest last =>
      have hbody := CThread.oneSided_of_valid h .localWrite buff size dest last
      exact ⟨_, _, .of_invoke (fun answer => congrFun₂ hbody answer s) (fun _ => rfl) rfl⟩
  | localTransfer srcBuff dstBuff srcSize dstSize srcStream dstStream srcDest dstDest last =>
      obtain ⟨hs, hd⟩ := Bool.and_eq_true_iff.mp h
      have hbody := CThread.localTransfer_of_valid hs hd srcBuff dstBuff srcSize dstSize
        srcDest dstDest last
      exact ⟨_, _, .of_invoke (fun answer => congrFun₂ hbody answer s) (fun _ => rfl) rfl⟩
  | rdmaWrite size localStream localDest localOffs remoteDest remoteOffs last =>
      have hbody : ∀ answer, _ := fun answer => CThread.rdmaOneSided_of_valid answer s h
        .remoteRdmaWrite size localDest localOffs remoteDest remoteOffs last
      exact ⟨_, _, .of_invoke hbody (fun _ => rfl) rfl⟩
  | rdmaRead size localStream localDest localOffs remoteDest remoteOffs last =>
      have hbody : ∀ answer, _ := fun answer => CThread.rdmaOneSided_of_valid answer s h
        .remoteRdmaRead size localDest localOffs remoteDest remoteOffs last
      exact ⟨_, _, .of_invoke hbody (fun _ => rfl) rfl⟩
  | initRDMA bufferSize dtype port serverAddress =>
      obtain ⟨hsome, hc⟩ := Bool.and_eq_true_iff.mp h
      obtain ⟨d, hd⟩ := Option.isSome_iff_exists.mp hsome
      obtain ⟨addr, storage, hok, herr⟩ := run_initRDMA hd hc bufferSize port s
      have hqp : (initRDMA bufferSize dtype port serverAddress).qpDtypeAfter s.qpDtype =
          ⟨d, true⟩ := by simp only [qpDtypeAfter, hd]
      refine ⟨.initRDMA (byteCount bufferSize d) port addr, storage, fun ptr => ?_, fun msg => ?_⟩
      · obtain ⟨b, -, -, -, hrun⟩ := hok ptr
        exact ⟨.buffer b, by rw [hrun, hqp]⟩
      · rw [herr msg, hqp]
  | method m => exact ⟨.method m, s.storage, fun v => ⟨.number v, rfl⟩, fun msg => rfl⟩
  | getCompleted oper => cases hcalls
  | _ => exact ⟨_, _, .of_invoke (fun _ => rfl) (fun _ => rfl) rfl⟩

/-- Validated operations make exactly one call and raise only if it throws. -/
theorem run_oneCall {op : Operation} (h : op.valid = true) (hcalls : op.callsCoyote = true) :
    (op.run answer s).OneCall answer := by
  obtain ⟨c, storage, hmakes⟩ := exists_makes s h hcalls
  cases answer with
  | ok v =>
      obtain ⟨value, hrun⟩ := hmakes.returns v
      rw [hrun]
      exact Outcome.OneCall.of_ok _ _ _ _ _
  | error msg =>
      rw [hmakes.raises msg]
      exact Outcome.OneCall.of_error _ _ _ _ _

/-- Only `initRDMA` writes `qp_dtype`, and it does so before it can fail on
anything but the data type. -/
theorem run_qpDtype (op : Operation) :
    (op.run answer s).state.qpDtype = op.qpDtypeAfter s.qpDtype := by
  cases hcalls : op.callsCoyote with
  | false =>
      cases op with
      | getCompleted oper =>
          exact congrArg WrapperState.qpDtype (CThread.getCompleted_state oper answer s)
      | _ => cases hcalls
  | true =>
      cases hv : op.valid with
      | false =>
          obtain ⟨e, he⟩ := run_of_invalid answer s hv
          rw [he]
      | true =>
          obtain ⟨c, storage, hmakes⟩ := exists_makes s hv hcalls
          cases answer with
          | ok v =>
              obtain ⟨value, hrun⟩ := hmakes.returns v
              rw [hrun]
          | error msg => rw [hmakes.raises msg]

/-- An operation that calls Coyote raises exactly when its validation fails
or the call throws. -/
theorem run_raised_iff {op : Operation} (hcalls : op.callsCoyote = true) :
    (op.run answer s).Raised ↔ op.valid = false ∨ answer.isOk = false := by
  cases hv : op.valid with
  | false => exact iff_of_true (run_rejected answer s hv).1 (Or.inl rfl)
  | true =>
      simp only [Bool.true_eq_false, false_or]
      exact (run_oneCall answer s hv hcalls).raised_iff

end Header

end Operation

/-- An operation of a run with what Coyote answers if it is called. -/
structure Event where
  op : Operation
  answer : Answer

/-- The data type of a set-up that was accepted but then failed, on a server
address that cannot be cast or in Coyote. -/
def Event.lateFailure (e : Event) : Option DataType :=
  match e.op with
  | .initRDMA _ dtype _ serverAddress =>
      if CThread.castable serverAddress = false ∨ e.answer.isOk = false then
        findDataType dtype
      else none
  | _ => none

/-- A thread in a run: the wrapper's state and the buffer returned by the
last successful `init_rdma`. -/
structure Session where
  wrapper : WrapperState
  rdma : Option CoyoteBuffer

namespace Session

/-- A thread just constructed. -/
def constructed (bits : UInt64) : Session := ⟨WrapperState.constructed bits, none⟩

section Header
variable [CoyoteHeader]

/-- What the operation of an event does. -/
def outcome (s : Session) (e : Event) : Outcome Value := e.op.run e.answer s.wrapper

/-- The RDMA buffer in force after an event: a failed set-up leaves the earlier one. -/
def rdmaAfter (s : Session) (e : Event) : Option CoyoteBuffer :=
  match (s.outcome e).result with
  | .ok (.buffer b) => if e.op.isInitRDMA then some b else s.rdma
  | _ => s.rdma

/-- One step of a run. -/
def step (s : Session) (e : Event) : Session := ⟨(s.outcome e).state, s.rdmaAfter e⟩

theorem step_qpDtype (s : Session) (e : Event) :
    (s.step e).wrapper.qpDtype = e.op.qpDtypeAfter s.wrapper.qpDtype :=
  Operation.run_qpDtype e.answer s.wrapper e.op

/-- A set-up that raises leaves the RDMA buffer in force. -/
theorem step_rdma_of_raised {s : Session} {e : Event} (h : (s.outcome e).Raised) :
    (s.step e).rdma = s.rdma := by
  obtain ⟨err, herr⟩ := h
  simp only [step, rdmaAfter, herr]

/-- A set-up that fails late raises, after it has assigned `qp_dtype`. -/
theorem step_of_lateFailure {s : Session} {e : Event} {d : DataType}
    (h : e.lateFailure = some d) :
    (s.outcome e).Raised ∧ (s.step e).wrapper.qpDtype = ⟨d, true⟩ := by
  obtain ⟨op, answer⟩ := e
  cases op with
  | initRDMA size dtype port serverAddress =>
      obtain ⟨hlate, hd⟩ : (CThread.castable serverAddress = false ∨ answer.isOk = false) ∧
          findDataType dtype = some d := by
        simpa only [Event.lateFailure, Option.ite_none_right_eq_some] using h
      refine ⟨(Operation.run_raised_iff answer s.wrapper rfl).mpr ?_, ?_⟩
      · exact hlate.imp_left fun hc => by simp [Operation.valid, hc]
      · rw [step_qpDtype]
        simp only [Operation.qpDtypeAfter, hd]
  | _ => cases h

/-- An operation that raises without being a late failure leaves `qp_dtype` alone. -/
theorem step_qpDtype_of_raised {s : Session} {e : Event} (hraised : (s.outcome e).Raised)
    (h : e.lateFailure = none) : (s.step e).wrapper.qpDtype = s.wrapper.qpDtype := by
  rw [step_qpDtype]
  obtain ⟨op, answer⟩ := e
  cases op with
  | initRDMA size dtype port serverAddress =>
      cases hd : findDataType dtype with
      | none => simp only [Operation.qpDtypeAfter, hd]
      | some d =>
          have hlate : CThread.castable serverAddress = false ∨ answer.isOk = false := by
            simpa [Operation.valid, hd] using
              (Operation.run_raised_iff answer s.wrapper rfl).mp hraised
          simp only [Event.lateFailure, if_pos hlate, hd] at h
          cases h
  | _ => rfl

theorem step_qpDtype_of_other {s : Session} {e : Event} (h : e.op.isInitRDMA = false) :
    (s.step e).wrapper.qpDtype = s.wrapper.qpDtype := by
  rw [step_qpDtype]
  obtain ⟨op, answer⟩ := e
  cases op with
  | initRDMA size dtype port serverAddress => cases h
  | _ => rfl

/-- Operations other than `init_rdma` leave the RDMA buffer in force. -/
theorem step_rdma_of_other {s : Session} {e : Event}
    (h : e.op.isInitRDMA = false) : (s.step e).rdma = s.rdma := by
  simp only [step, rdmaAfter, h]
  split <;> rfl

end Header

end Session

end PyCoyote
