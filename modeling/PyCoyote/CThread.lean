import PyCoyote.Operation

/-!
# `cThreadWrapper`: the operations of a Coyote thread

Every operation checks its string arguments, builds a descriptor and makes a
call. Sizes are numbers of elements and become numbers of bytes by a 64-bit
multiplication cast to 32 bits.
-/

namespace PyCoyote

open Op

/-- `(uint32_t) (size * dtype.size)` -/
def byteCount (size : UInt32) (dtype : DataType) : UInt32 :=
  (size.toUInt64 * dtype.size).toUInt32

/-- A stream string names one of the two streams. -/
def validStream (stream : String) : Bool := stream = "host" || stream = "card"

/-- The check every streaming operation starts with; `what` tells the streams apart. -/
def checkStream (what stream : String) : Op Unit :=
  if stream ≠ "host" ∧ stream ≠ "card" then
    raise (.runtimeError ("Invalid " ++ what ++ " type: " ++ stream ++
      ". Must be 'host' or 'card'."))
  else pure ()

/-- The exception of a failed stream check. -/
def streamError (what stream : String) : PyError :=
  .runtimeError ("Invalid " ++ what ++ " type: " ++ stream ++ ". Must be 'host' or 'card'.")

theorem checkStream_of_valid {stream : String} (h : validStream stream = true) (what : String) :
    checkStream what stream = pure () := by
  have hs : ¬(stream ≠ "host" ∧ stream ≠ "card") := by
    simp only [validStream, Bool.or_eq_true, decide_eq_true_eq] at h
    tauto
  simp only [checkStream, if_neg hs]

theorem checkStream_of_invalid {stream : String} (h : validStream stream = false)
    (what : String) : checkStream what stream = raise (streamError what stream) := by
  have hs : stream ≠ "host" ∧ stream ≠ "card" := by
    simpa only [validStream, Bool.or_eq_false_iff, decide_eq_false_iff_not] using h
  simp only [checkStream, if_pos hs, streamError]

section Header
variable [CoyoteHeader]

/-- `(uint32_t) ((stream == "host") ? coyote::STRM_HOST : coyote::STRM_CARD)` -/
def streamNumber (stream : String) : UInt32 :=
  if stream = "host" then CoyoteHeader.strmHost else CoyoteHeader.strmCard

/-- Valid stream strings have different numbers. -/
theorem streamNumber_inj {a b : String} (ha : validStream a = true) (hb : validStream b = true) :
    streamNumber a = streamNumber b ↔ a = b := by
  simp only [validStream, Bool.or_eq_true, decide_eq_true_eq] at ha hb
  have hne := CoyoteHeader.host_ne_card
  have hcard : streamNumber "card" = CoyoteHeader.strmCard := if_neg (by decide)
  have hhost : streamNumber "host" = CoyoteHeader.strmHost := if_pos rfl
  rcases ha with rfl | rfl <;> rcases hb with rfl | rfl <;>
    simp [hcard, hhost, hne, hne.symm]

end Header

namespace CThread

/-- `mapBuffer`: the length is not cast here. -/
def mapBuffer (buff : CBuffer) : Op Unit :=
  invoke (.userMap buff.data (buff.size.toUInt64 * buff.dtype.size))

/-- `unmapBuffer` -/
def unmapBuffer (buff : CBuffer) : Op Unit := invoke (.userUnmap buff.data)

/-- The chain of comparisons on `alloc_type`, with the argument it gives `getMem`. -/
def allocRequest (allocType : String) (len gpuDev : UInt32) : Option CoyoteAlloc :=
  if allocType = "reg" then some ⟨.reg, len, none, none⟩
  else if allocType = "hpf" then some ⟨.hpf, len, none, none⟩
  else if allocType = "thp" then some ⟨.thp, len, none, none⟩
  else if allocType = "gpu" then some ⟨.gpu, len, some false, some gpuDev⟩
  else none

/-- `allocateBuffer` -/
def allocateBuffer (size : UInt32) (allocType dtype : String) (gpuDev : UInt32) :
    Op CoyoteBuffer :=
  match findDataType dtype with
  | none => raise (.runtimeError ("Unsupported data type: " ++ dtype))
  | some dtype_ =>
      match allocRequest allocType (byteCount size dtype_) gpuDev with
      | none => raise (.runtimeError ("Unsupported memory allocation type: " ++ allocType))
      | some alloc => do
          let data_ ← call (.getMem alloc)
          lift (CoyoteBuffer.init data_ size dtype)

/-- The common body of `sync` and `offload`. -/
def syncWith (oper : CoyoteOper) (buff : CBuffer) (size : UInt32) : Op Unit :=
  invoke (.invokeSync oper ⟨buff.data, byteCount size buff.dtype⟩)

/-- `sync` -/
def sync (buff : CBuffer) (size : UInt32) : Op Unit := syncWith .localSync buff size

/-- `offload` -/
def offload (buff : CBuffer) (size : UInt32) : Op Unit := syncWith .localOffload buff size

section Header
variable [CoyoteHeader]

/-- The common body of `localRead` and `localWrite`. -/
def oneSided (oper : CoyoteOper) (buff : CBuffer) (size : UInt32) (stream : String)
    (dest : UInt32) (last : Bool) : Op Unit := do
  checkStream "stream" stream
  let sg : LocalSg := ⟨buff.data, byteCount size buff.dtype, streamNumber stream, dest⟩
  invoke (.invokeLocal oper sg last)

/-- `localRead` -/
def localRead (buff : CBuffer) (size : UInt32) (stream : String) (dest : UInt32)
    (last : Bool) : Op Unit := oneSided .localRead buff size stream dest last

/-- `localWrite` -/
def localWrite (buff : CBuffer) (size : UInt32) (stream : String) (dest : UInt32)
    (last : Bool) : Op Unit := oneSided .localWrite buff size stream dest last

/-- `localTransfer` -/
def localTransfer (srcBuff dstBuff : CBuffer) (srcSize dstSize : UInt32)
    (srcStream dstStream : String) (srcDest dstDest : UInt32) (last : Bool) : Op Unit := do
  checkStream "source stream" srcStream
  checkStream "destination stream" dstStream
  let srcSg : LocalSg :=
    ⟨srcBuff.data, byteCount srcSize srcBuff.dtype, streamNumber srcStream, srcDest⟩
  -- the stream of the destination entry is computed from `src_stream`
  let dstSg : LocalSg :=
    ⟨dstBuff.data, byteCount dstSize dstBuff.dtype, streamNumber srcStream, dstDest⟩
  invoke (.invokeTransfer .localTransfer srcSg dstSg last)

/-- The common body of `rdmaWrite` and `rdmaRead`. The offsets are widened
but not scaled. -/
def rdmaOneSided (oper : CoyoteOper) (size : UInt32) (localStream : String)
    (localDest localOffs remoteDest remoteOffs : UInt32) (last : Bool) : Op Unit := do
  checkStream "local stream" localStream
  let qpDtype ← getQpDtype
  let sg : RdmaSg := ⟨localOffs.toUInt64, streamNumber localStream, localDest,
    remoteOffs.toUInt64, remoteDest, byteCount size qpDtype⟩
  invoke (.invokeRdma oper sg last)

/-- `rdmaWrite` -/
def rdmaWrite (size : UInt32) (localStream : String)
    (localDest localOffs remoteDest remoteOffs : UInt32) (last : Bool) : Op Unit :=
  rdmaOneSided .remoteRdmaWrite size localStream localDest localOffs remoteDest remoteOffs last

/-- `rdmaRead` -/
def rdmaRead (size : UInt32) (localStream : String)
    (localDest localOffs remoteDest remoteOffs : UInt32) (last : Bool) : Op Unit :=
  rdmaOneSided .remoteRdmaRead size localStream localDest localOffs remoteDest remoteOffs last

end Header

/-- The names `getCompleted` knows, compared in lower case. -/
def completedOper (oper : String) : Option CoyoteOper :=
  let oper := oper.map Char.toLower
  if oper = "local_read" then some .localRead
  else if oper = "local_write" then some .localWrite
  else if oper = "local_transfer" then some .localTransfer
  else if oper = "rdma_read" then some .remoteRdmaRead
  else if oper = "rdma_write" then some .remoteRdmaWrite
  else none

/-- `getCompleted`: an unknown name prints a warning and counts zero. -/
def getCompleted (oper : String) : Op UInt32 :=
  match completedOper oper with
  | some o => do
      let completed ← call (.checkCompleted o)
      pure completed.toUInt32
  | none => pure 0

/-- `server_address.cast<std::string>()`, which makes a temporary string. -/
def castString : ServerAddress → Op Nat
  | .text chars => newString chars
  | _ => raise .castError

/-- The initialiser of `addr`: the temporary string made by the cast ends
with the full expression, after its `c_str()` has been taken. -/
def addressPointer (serverAddress : ServerAddress) : Op CharPtr :=
  if serverAddress.isNone then pure .null
  else do
    let tmp ← castString serverAddress
    endLifetime tmp
    pure (.into tmp)

/-- `initRDMAWrapper` -/
def initRDMAWrapper (bufferSize : UInt32) (dtype : String) (port : UInt16)
    (serverAddress : ServerAddress) : Op CoyoteBuffer :=
  match findDataType dtype with
  | none => raise (.runtimeError ("Unsupported data type: " ++ dtype))
  | some dtype_ => do
      setQpDtype dtype_
      let addr ← addressPointer serverAddress
      let mem_ ← call (.initRDMA (byteCount bufferSize dtype_) port addr)
      lift (CoyoteBuffer.init mem_ bufferSize dtype)

/-! ## What each operation does -/

section Specs
variable [CoyoteHeader] (answer : Answer) (s : WrapperState)

theorem oneSided_of_valid {stream : String} (h : validStream stream = true) (oper : CoyoteOper)
    (buff : CBuffer) (size dest : UInt32) (last : Bool) :
    oneSided oper buff size stream dest last =
      invoke (.invokeLocal oper
        ⟨buff.data, byteCount size buff.dtype, streamNumber stream, dest⟩ last) := by
  funext answer s
  simp only [oneSided, checkStream_of_valid h, pure_bind_run]

theorem oneSided_of_invalid {stream : String} (h : validStream stream = false)
    (oper : CoyoteOper) (buff : CBuffer) (size dest : UInt32) (last : Bool) :
    oneSided oper buff size stream dest last = raise (streamError "stream" stream) := by
  funext answer s
  simp only [oneSided, checkStream_of_invalid h, raise_bind_run, raise_run]

theorem localTransfer_of_valid {srcStream dstStream : String}
    (hs : validStream srcStream = true) (hd : validStream dstStream = true)
    (srcBuff dstBuff : CBuffer) (srcSize dstSize srcDest dstDest : UInt32) (last : Bool) :
    localTransfer srcBuff dstBuff srcSize dstSize srcStream dstStream srcDest dstDest last =
      invoke (.invokeTransfer .localTransfer
        ⟨srcBuff.data, byteCount srcSize srcBuff.dtype, streamNumber srcStream, srcDest⟩
        ⟨dstBuff.data, byteCount dstSize dstBuff.dtype, streamNumber srcStream, dstDest⟩
        last) := by
  funext answer s
  simp only [localTransfer, checkStream_of_valid hs, checkStream_of_valid hd, pure_bind_run]

theorem localTransfer_of_invalid {srcStream dstStream : String}
    (h : validStream srcStream = false ∨ validStream dstStream = false)
    (srcBuff dstBuff : CBuffer) (srcSize dstSize srcDest dstDest : UInt32) (last : Bool) :
    ∃ e, localTransfer srcBuff dstBuff srcSize dstSize srcStream dstStream
      srcDest dstDest last = raise e := by
  cases hs : validStream srcStream with
  | false =>
      refine ⟨streamError "source stream" srcStream, ?_⟩
      funext answer s
      simp only [localTransfer, checkStream_of_invalid hs, raise_bind_run, raise_run]
  | true =>
      have hd : validStream dstStream = false := by simpa [hs] using h
      refine ⟨streamError "destination stream" dstStream, ?_⟩
      funext answer s
      simp only [localTransfer, checkStream_of_valid hs, checkStream_of_invalid hd,
        pure_bind_run, raise_bind_run, raise_run]

theorem rdmaOneSided_of_valid {localStream : String} (h : validStream localStream = true)
    (oper : CoyoteOper) (size localDest localOffs remoteDest remoteOffs : UInt32)
    (last : Bool) :
    rdmaOneSided oper size localStream localDest localOffs remoteDest remoteOffs last answer s =
      invoke (.invokeRdma oper ⟨localOffs.toUInt64, streamNumber localStream, localDest,
        remoteOffs.toUInt64, remoteDest, byteCount size s.qpDtype.value⟩ last) answer s := by
  simp only [rdmaOneSided, checkStream_of_valid h, pure_bind_run, getQpDtype_bind_run]

theorem rdmaOneSided_of_invalid {localStream : String} (h : validStream localStream = false)
    (oper : CoyoteOper) (size localDest localOffs remoteDest remoteOffs : UInt32)
    (last : Bool) :
    rdmaOneSided oper size localStream localDest localOffs remoteDest remoteOffs last =
      raise (streamError "local stream" localStream) := by
  funext answer s
  simp only [rdmaOneSided, checkStream_of_invalid h, raise_bind_run, raise_run]

end Specs

/-- Only a known name makes a call. -/
theorem getCompleted_calls (oper : String) (answer : Answer) (s : WrapperState) :
    (getCompleted oper answer s).calls = (completedOper oper).toList.map .checkCompleted := by
  unfold getCompleted
  cases completedOper oper with
  | none => rfl
  | some o => cases answer <;> rfl

theorem getCompleted_state (oper : String) (answer : Answer) (s : WrapperState) :
    (getCompleted oper answer s).state = s := by
  unfold getCompleted
  cases completedOper oper with
  | none => rfl
  | some o => cases answer <;> rfl

/-- The accepted values of `alloc_type`. -/
def knownAllocType (allocType : String) : Bool :=
  allocType = "reg" || allocType = "hpf" || allocType = "thp" || allocType = "gpu"

theorem allocRequest_of_known {allocType : String} (h : knownAllocType allocType = true)
    (len gpuDev : UInt32) :
    ∃ alloc, allocRequest allocType len gpuDev = some alloc ∧ alloc.size = len := by
  simp only [knownAllocType, Bool.or_eq_true, decide_eq_true_eq] at h
  unfold allocRequest
  split_ifs <;> first | exact ⟨_, rfl, rfl⟩ | tauto

theorem allocRequest_of_unknown {allocType : String} (h : knownAllocType allocType = false)
    (len gpuDev : UInt32) : allocRequest allocType len gpuDev = none := by
  simp only [knownAllocType, Bool.or_eq_false_iff, decide_eq_false_iff_not] at h
  obtain ⟨⟨⟨hreg, hhpf⟩, hthp⟩, hgpu⟩ := h
  simp only [allocRequest, if_neg hreg, if_neg hhpf, if_neg hthp, if_neg hgpu]

/-- An accepted request calls `getMem` once with the truncated length and, if
that returns, wraps the pointer in a buffer of the full element count. -/
theorem allocateBuffer_of_known {dtype allocType : String} {d : DataType}
    (hd : findDataType dtype = some d) (ha : knownAllocType allocType = true)
    (size gpuDev : UInt32) :
    ∃ alloc, alloc.size = byteCount size d ∧
      (∀ ptr s, allocateBuffer size allocType dtype gpuDev (.ok ptr) s =
        ⟨CoyoteBuffer.init ptr size dtype, s, [⟨.getMem alloc, s.storage, true⟩]⟩) ∧
      (∀ msg s, allocateBuffer size allocType dtype gpuDev (.error msg) s =
        ⟨.error (.coyoteError msg), s, [⟨.getMem alloc, s.storage, false⟩]⟩) := by
  obtain ⟨alloc, halloc, hlen⟩ := allocRequest_of_known ha (byteCount size d) gpuDev
  refine ⟨alloc, hlen, ?_, ?_⟩
  · intro ptr s
    simp only [allocateBuffer, hd, halloc]
    rw [bind_ok _ _ (call_ok_run s (.getMem alloc) ptr)]
    simp only [lift_run, List.append_nil]
  · intro msg s
    simp only [allocateBuffer, hd, halloc, call_error_bind_run]

theorem allocateBuffer_of_rejected {dtype allocType : String}
    (h : findDataType dtype = none ∨ knownAllocType allocType = false)
    (size gpuDev : UInt32) :
    ∃ e, allocateBuffer size allocType dtype gpuDev = raise e := by
  cases hd : findDataType dtype with
  | none => exact ⟨.runtimeError ("Unsupported data type: " ++ dtype), by
      simp only [allocateBuffer, hd]⟩
  | some d =>
      have ha : knownAllocType allocType = false := by simpa [hd] using h
      exact ⟨.runtimeError ("Unsupported memory allocation type: " ++ allocType), by
        simp only [allocateBuffer, hd, allocRequest_of_unknown ha]⟩

/-- `server_address` is `None` or can be cast to a string. -/
def castable (serverAddress : ServerAddress) : Bool := serverAddress ≠ .notText

/-- The argument for Coyote never raises when `server_address` can be cast,
and only touches the storage objects. -/
theorem addressPointer_of_castable {serverAddress : ServerAddress}
    (h : castable serverAddress = true) (s : WrapperState) :
    ∃ addr storage, ∀ answer, addressPointer serverAddress answer s =
      ⟨.ok addr, ⟨s.qpDtype, storage⟩, []⟩ := by
  cases serverAddress with
  | none => exact ⟨.null, s.storage, fun _ => rfl⟩
  | text chars =>
      exact ⟨.into s.storage.length,
        (s.storage ++ [StorageObject.mk chars true]).modify s.storage.length
          fun o => { o with alive := false }, fun _ => rfl⟩
  | notText => simp [castable] at h

theorem initRDMAWrapper_of_unknown {dtype : String} (h : findDataType dtype = none)
    (bufferSize : UInt32) (port : UInt16) (serverAddress : ServerAddress) :
    initRDMAWrapper bufferSize dtype port serverAddress =
      raise (.runtimeError ("Unsupported data type: " ++ dtype)) := by
  simp only [initRDMAWrapper, h]

/-- A `server_address` that cannot be cast raises after `qp_dtype` is assigned. -/
theorem initRDMAWrapper_of_notText {dtype : String} {d : DataType}
    (hd : findDataType dtype = some d) (bufferSize : UInt32) (port : UInt16)
    (answer : Answer) (s : WrapperState) :
    initRDMAWrapper bufferSize dtype port .notText answer s =
      ⟨.error .castError, { s with qpDtype := ⟨d, true⟩ }, []⟩ := by
  simp only [initRDMAWrapper, hd, setQpDtype_bind_run]
  rfl

/-- An accepted request assigns `qp_dtype` and calls `initRDMA` once with the
truncated length, whatever Coyote answers. -/
theorem initRDMAWrapper_of_known {dtype : String} {d : DataType}
    (hd : findDataType dtype = some d) {serverAddress : ServerAddress}
    (hc : castable serverAddress = true) (bufferSize : UInt32) (port : UInt16)
    (s : WrapperState) :
    ∃ addr storage,
      (∀ ptr, initRDMAWrapper bufferSize dtype port serverAddress (.ok ptr) s =
        ⟨CoyoteBuffer.init ptr bufferSize dtype, ⟨⟨d, true⟩, storage⟩,
          [⟨.initRDMA (byteCount bufferSize d) port addr, storage, true⟩]⟩) ∧
      (∀ msg, initRDMAWrapper bufferSize dtype port serverAddress (.error msg) s =
        ⟨.error (.coyoteError msg), ⟨⟨d, true⟩, storage⟩,
          [⟨.initRDMA (byteCount bufferSize d) port addr, storage, false⟩]⟩) := by
  obtain ⟨addr, storage, haddr⟩ :=
    addressPointer_of_castable hc { s with qpDtype := ⟨d, true⟩ }
  refine ⟨addr, storage, fun ptr => ?_, fun msg => ?_⟩
  · simp only [initRDMAWrapper, hd, setQpDtype_bind_run]
    rw [bind_ok _ _ (haddr _), bind_ok _ _ (call_ok_run _ _ ptr)]
    rfl
  · simp only [initRDMAWrapper, hd, setQpDtype_bind_run]
    rw [bind_ok _ _ (haddr _), bind_error _ _ (call_error_run _ _ msg)]
    rfl

end CThread

end PyCoyote
