import PyCoyote.CThread

/-!
# Two-sided transfers against their one-sided halves

`localTransfer` is meant to read its source side as `localRead` does and to
write its destination side as `localWrite` does. It takes the stream of the
destination entry from the source string, so it does so exactly when the two
strings agree or the call is refused.
-/

namespace PyCoyote.LocalTransfer

open CThread Op

/-- The arguments of one side of a transfer, which are those of a one-sided operation. -/
structure Side where
  buff : CBuffer
  size : UInt32
  stream : String
  dest : UInt32

section Header
variable [CoyoteHeader]

/-- `localRead` of the source side. -/
def Side.read (src : Side) (last : Bool) : Op Unit :=
  localRead src.buff src.size src.stream src.dest last

/-- `localWrite` of the destination side. -/
def Side.write (dst : Side) (last : Bool) : Op Unit :=
  localWrite dst.buff dst.size dst.stream dst.dest last

/-- `localTransfer` from one side to another. -/
def transfer (src dst : Side) (last : Bool) : Op Unit :=
  localTransfer src.buff dst.buff src.size dst.size src.stream dst.stream
    src.dest dst.dest last

/-- A transfer is refused exactly when one of its halves is, and otherwise
passes the source entry of the read and the destination entry of the write,
in one call. -/
structure Agrees (src dst : Side) (last : Bool) (answer : Answer) (s : WrapperState) :
    Prop where
  rejected_iff : (transfer src dst last answer s).Rejected ↔
    (src.read last answer s).Rejected ∨ (dst.write last answer s).Rejected
  entries : ¬(transfer src dst last answer s).Rejected → ∃ srcSg dstSg,
    (transfer src dst last answer s).calls =
        [.invokeTransfer .localTransfer srcSg dstSg last] ∧
      (src.read last answer s).calls = [.invokeLocal .localRead srcSg last] ∧
      (dst.write last answer s).calls = [.invokeLocal .localWrite dstSg last]

theorem oneSided_rejected_iff (oper : CoyoteOper) (side : Side) (last : Bool)
    (answer : Answer) (s : WrapperState) :
    (oneSided oper side.buff side.size side.stream side.dest last answer s).Rejected ↔
      validStream side.stream = false := by
  cases h : validStream side.stream with
  | true => simp [oneSided_of_valid h, invoke_not_rejected]
  | false =>
      rw [oneSided_of_invalid h]
      exact iff_of_true (raise_rejected answer s _) rfl

theorem transfer_rejected_iff (src dst : Side) (last : Bool)
    (answer : Answer) (s : WrapperState) :
    (transfer src dst last answer s).Rejected ↔
      validStream src.stream = false ∨ validStream dst.stream = false := by
  constructor
  · intro hrej
    by_contra hvalid
    simp only [not_or, Bool.not_eq_false] at hvalid
    rw [transfer, localTransfer_of_valid hvalid.1 hvalid.2] at hrej
    exact invoke_not_rejected answer s _ hrej
  · intro h
    obtain ⟨e, he⟩ := localTransfer_of_invalid h src.buff dst.buff src.size dst.size
      src.dest dst.dest last
    rw [transfer, he]
    exact raise_rejected answer s e

/-- Both the transfer and its halves validate the same strings. -/
theorem rejected_iff_halves (src dst : Side) (last : Bool)
    (answer : Answer) (s : WrapperState) :
    (transfer src dst last answer s).Rejected ↔
      (src.read last answer s).Rejected ∨ (dst.write last answer s).Rejected := by
  rw [transfer_rejected_iff]
  exact or_congr (oneSided_rejected_iff .localRead src last answer s).symm
    (oneSided_rejected_iff .localWrite dst last answer s).symm

/-- The calls of an accepted transfer and of its two halves. -/
theorem calls_of_valid {src dst : Side} (hs : validStream src.stream = true)
    (hd : validStream dst.stream = true) (last : Bool) (answer : Answer) (s : WrapperState) :
    (transfer src dst last answer s).calls = [.invokeTransfer .localTransfer
        ⟨src.buff.data, byteCount src.size src.buff.dtype, streamNumber src.stream, src.dest⟩
        ⟨dst.buff.data, byteCount dst.size dst.buff.dtype, streamNumber src.stream, dst.dest⟩
        last] ∧
      (src.read last answer s).calls = [.invokeLocal .localRead
        ⟨src.buff.data, byteCount src.size src.buff.dtype, streamNumber src.stream, src.dest⟩
        last] ∧
      (dst.write last answer s).calls = [.invokeLocal .localWrite
        ⟨dst.buff.data, byteCount dst.size dst.buff.dtype, streamNumber dst.stream, dst.dest⟩
        last] := by
  refine ⟨?_, ?_, ?_⟩
  · rw [transfer, localTransfer_of_valid hs hd, invoke_calls]
  · rw [Side.read, localRead, oneSided_of_valid hs, invoke_calls]
  · rw [Side.write, localWrite, oneSided_of_valid hd, invoke_calls]

/-- The transfer does what its halves do exactly when the two stream strings
are equal or one of them is refused. -/
theorem agrees_iff (src dst : Side) (last : Bool) (answer : Answer) (s : WrapperState) :
    Agrees src dst last answer s ↔
      src.stream = dst.stream ∨
        validStream src.stream = false ∨ validStream dst.stream = false := by
  have hrej := transfer_rejected_iff src dst last answer s
  by_cases hinvalid : validStream src.stream = false ∨ validStream dst.stream = false
  · simp only [hinvalid, or_true, iff_true]
    exact ⟨rejected_iff_halves src dst last answer s,
      fun hacc => absurd (hrej.mpr hinvalid) hacc⟩
  · have hacc : ¬(transfer src dst last answer s).Rejected := mt hrej.mp hinvalid
    simp only [hinvalid, or_false]
    simp only [not_or, Bool.not_eq_false] at hinvalid
    obtain ⟨hs, hd⟩ := hinvalid
    obtain ⟨htransfer, hread, hwrite⟩ := calls_of_valid hs hd last answer s
    constructor
    · intro h
      obtain ⟨srcSg, dstSg, ht, -, hw⟩ := h.entries hacc
      have hdst := hwrite.symm.trans hw
      have hboth := htransfer.symm.trans ht
      simp only [List.cons.injEq, CoyoteCall.invokeLocal.injEq,
        CoyoteCall.invokeTransfer.injEq, true_and, and_true] at hdst hboth
      have hstream := congrArg LocalSg.stream (hboth.2.trans hdst.symm)
      exact (streamNumber_inj hs hd).mp hstream
    · intro heq
      refine ⟨rejected_iff_halves src dst last answer s, fun _ => ⟨_, _, ?_, hread, hwrite⟩⟩
      rw [htransfer, heq]

end Header

/-- Sixteen integers on the host stream. -/
def exampleSource : Side :=
  ⟨⟨0x1000, 16, ⟨"int32", "i", 4⟩, int32_registered⟩, 16, "host", 0⟩

/-- Sixteen integers on the card stream. -/
def exampleDestination : Side :=
  ⟨⟨0x2000, 16, ⟨"int32", "i", 4⟩, int32_registered⟩, 16, "card", 0⟩

/-- A transfer from the host stream to the card stream does not agree with
the write of its destination. -/
theorem not_agrees_host_to_card :
    ¬@Agrees exampleHeader exampleSource exampleDestination true (.ok 0)
      (WrapperState.constructed 0) := by
  let _ := exampleHeader
  intro h
  obtain ⟨srcSg, dstSg, ht, -, hw⟩ := h.entries
    (fun hrej => by cases hrej.2)
  have hboth := ht.symm.trans (rfl : _ = [CoyoteCall.invokeTransfer .localTransfer
    ⟨0x1000, 64, 1, 0⟩ ⟨0x2000, 64, 1, 0⟩ true])
  have hdst := hw.symm.trans (rfl : _ = [CoyoteCall.invokeLocal .localWrite
    ⟨0x2000, 64, 0, 0⟩ true])
  simp only [List.cons.injEq, CoyoteCall.invokeTransfer.injEq,
    CoyoteCall.invokeLocal.injEq, true_and, and_true] at hboth hdst
  have hstream := congrArg LocalSg.stream (hboth.2.symm.trans hdst)
  exact absurd hstream (by decide)

end PyCoyote.LocalTransfer
