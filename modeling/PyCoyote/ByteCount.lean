import PyCoyote.Session
import PyCoyote.Library.Tiling

/-!
# From element counts to byte lengths

`byteCount` is exact below `2 ^ 32` and only there. A scatter-gather entry
built with it describes the elements it was asked for exactly when their
bytes can be counted in 32 bits.
-/

namespace PyCoyote

open Op

/-- The bytes of `size` elements, as a natural number. -/
def byteLength (size : UInt32) (elementSize : UInt64) : ℕ := size.toNat * elementSize.toNat

/-- The byte length can be represented in a `uint32_t`. -/
def Fits (size : UInt32) (elementSize : UInt64) : Prop := byteLength size elementSize < 2 ^ 32

instance (size : UInt32) (elementSize : UInt64) : Decidable (Fits size elementSize) :=
  inferInstanceAs (Decidable (_ < _))

theorem byteCount_toNat (size : UInt32) (d : DataType) :
    (byteCount size d).toNat = byteLength size d.size % 2 ^ 32 := by
  simp only [byteCount, byteLength, UInt64.toNat_toUInt32, UInt64.toNat_mul,
    UInt32.toNat_toUInt64]
  exact Nat.mod_mod_of_dvd _ (by decide)

theorem byteCount_exact_iff (size : UInt32) (d : DataType) :
    (byteCount size d).toNat = byteLength size d.size ↔ Fits size d.size := by
  rw [byteCount_toNat, Fits]
  exact Nat.mod_eq_iff_lt (by decide)

theorem byteLength_le_byteCount_iff (size : UInt32) (d : DataType) :
    byteLength size d.size ≤ (byteCount size d).toNat ↔ Fits size d.size := by
  constructor
  · exact fun h => h.trans_lt (byteCount size d).toNat_lt
  · exact fun h => ((byteCount_exact_iff size d).mpr h).ge

/-- Without the cast the product of `mapBuffer` never overflows. -/
theorem mapLength_toNat {d : DataType} (h : d ∈ registeredTypes) (size : UInt32) :
    (size.toUInt64 * d.size).toNat = byteLength size d.size := by
  rw [UInt64.toNat_mul, UInt32.toNat_toUInt64]
  apply Nat.mod_eq_of_lt
  have hsize := size.toNat_lt
  have helem := size_le_eight h
  calc size.toNat * d.size.toNat ≤ 2 ^ 32 * 8 := Nat.mul_le_mul hsize.le helem
    _ < 2 ^ 64 := by decide

namespace BufferInfo

/-- The first `n` elements of a buffer's view occupy `n` times the element size. -/
theorem biUnion_element (b : CBuffer) (n : ℕ) :
    ⋃ i < n, b.bufferInfo.element i =
      Set.Ico b.data.toNat (b.data.toNat + n * b.dtype.size.toNat) := by
  simp only [element_of_buffer]
  exact Library.Tiling.biUnion_Ico_mul _ _ _

end BufferInfo

/-- A length in a scatter-gather entry, with the start of its range where the
entry names one. -/
structure Entry where
  start : Option UInt64
  len : UInt32
deriving DecidableEq, Repr

/-- The entries of a call of `invoke`, in order. -/
def CoyoteCall.entries : CoyoteCall → List Entry
  | .invokeSync _ sg => [⟨some sg.addr, sg.len⟩]
  | .invokeLocal _ sg _ => [⟨some sg.addr, sg.len⟩]
  | .invokeTransfer _ srcSg dstSg _ =>
      [⟨some srcSg.addr, srcSg.len⟩, ⟨some dstSg.addr, dstSg.len⟩]
  | .invokeRdma _ sg _ => [⟨none, sg.len⟩]
  | _ => []

/-- An element count given to an operation, with what it counts elements of. -/
inductive Counted where
  | ofBuffer (buff : CBuffer) (size : UInt32)
  | ofQueuePair (size : UInt32)

/-- The counts an operation is given, in the order of its entries. -/
def Operation.counted : Operation → List Counted
  | .sync buff size => [.ofBuffer buff size]
  | .offload buff size => [.ofBuffer buff size]
  | .localRead buff size _ _ _ => [.ofBuffer buff size]
  | .localWrite buff size _ _ _ => [.ofBuffer buff size]
  | .localTransfer srcBuff dstBuff srcSize dstSize _ _ _ _ _ =>
      [.ofBuffer srcBuff srcSize, .ofBuffer dstBuff dstSize]
  | .rdmaWrite size _ _ _ _ _ _ => [.ofQueuePair size]
  | .rdmaRead size _ _ _ _ _ _ => [.ofQueuePair size]
  | _ => []

namespace Counted

/-- The entry the source builds for a count. -/
def entry (s : WrapperState) : Counted → Entry
  | .ofBuffer buff size => ⟨some buff.data, byteCount size buff.dtype⟩
  | .ofQueuePair size => ⟨none, byteCount size s.qpDtype.value⟩

/-- The bytes counted can be represented in a `uint32_t`. -/
def Fits (s : WrapperState) : Counted → Prop
  | .ofBuffer buff size => PyCoyote.Fits size buff.dtype.size
  | .ofQueuePair size => PyCoyote.Fits size s.qpDtype.value.size

/-- An entry describes what was counted: its length is the count times the
element size, and for a buffer it covers the bytes of the counted elements of
the exported view and, at the full size, as many bytes as `mapBuffer` maps. -/
def Describes (s : WrapperState) : Counted → Entry → Prop
  | .ofBuffer buff size, e =>
      e.len.toNat = byteLength size buff.dtype.size ∧
      (∃ start, e.start = some start ∧
        Set.Ico start.toNat (start.toNat + e.len.toNat) =
          ⋃ i < size.toNat, buff.bufferInfo.element i) ∧
      (size = buff.size → ∀ answer s', ∃ len,
        (CThread.mapBuffer buff answer s').calls = [.userMap buff.data len] ∧
          e.len.toNat = len.toNat)
  | .ofQueuePair size, e => e.len.toNat = byteLength size s.qpDtype.value.size

/-- The entry built for a count describes it exactly when it fits. -/
theorem describes_entry_iff (s : WrapperState) (c : Counted) :
    c.Describes s (c.entry s) ↔ c.Fits s := by
  cases c with
  | ofQueuePair size => exact byteCount_exact_iff size s.qpDtype.value
  | ofBuffer buff size =>
      constructor
      · exact fun h => (byteCount_exact_iff size buff.dtype).mp h.1
      · intro hfits
        have hlen := (byteCount_exact_iff size buff.dtype).mpr hfits
        refine ⟨hlen, ⟨buff.data, rfl, ?_⟩, ?_⟩
        · rw [BufferInfo.biUnion_element]
          exact congrArg (fun n => Set.Ico _ (_ + n)) hlen
        · rintro rfl answer s'
          refine ⟨buff.size.toUInt64 * buff.dtype.size, invoke_calls answer s' _, ?_⟩
          exact hlen.trans (mapLength_toNat buff.registered buff.size).symm

end Counted

section Header
variable [CoyoteHeader] (answer : Answer) (s : WrapperState)

/-- The entries of a validated operation are those of its counts. -/
theorem Operation.entries_of_valid {op : Operation} (h : op.valid = true) :
    ∀ call ∈ (op.run answer s).calls, call.entries = op.counted.map (Counted.entry s) := by
  cases op with
  | allocateBuffer size allocType dtype gpuDev =>
      obtain ⟨hsome, ha⟩ := Bool.and_eq_true_iff.mp h
      obtain ⟨d, hd⟩ := Option.isSome_iff_exists.mp hsome
      obtain ⟨alloc, -, hok, herr⟩ := run_allocateBuffer hd ha size gpuDev
      cases answer with
      | ok ptr =>
          obtain ⟨b, -, -, -, hrun⟩ := hok ptr s
          simp [hrun, Outcome.calls, CoyoteCall.entries, counted]
      | error msg => simp [herr msg s, Outcome.calls, CoyoteCall.entries, counted]
  | initRDMA bufferSize dtype port serverAddress =>
      obtain ⟨hsome, hc⟩ := Bool.and_eq_true_iff.mp h
      obtain ⟨d, hd⟩ := Option.isSome_iff_exists.mp hsome
      obtain ⟨addr, storage, hok, herr⟩ := run_initRDMA hd hc bufferSize port s
      cases answer with
      | ok ptr =>
          obtain ⟨b, -, -, -, hrun⟩ := hok ptr
          simp [hrun, Outcome.calls, CoyoteCall.entries, counted]
      | error msg => simp [herr msg, Outcome.calls, CoyoteCall.entries, counted]
  | localRead buff size stream dest last =>
      simp [run, CThread.localRead, CThread.oneSided_of_valid h, CoyoteCall.entries, counted,
        Counted.entry]
  | localWrite buff size stream dest last =>
      simp [run, CThread.localWrite, CThread.oneSided_of_valid h, CoyoteCall.entries, counted,
        Counted.entry]
  | localTransfer srcBuff dstBuff srcSize dstSize srcStream dstStream srcDest dstDest last =>
      obtain ⟨hs, hd⟩ := Bool.and_eq_true_iff.mp h
      simp [run, CThread.localTransfer_of_valid hs hd, CoyoteCall.entries, counted,
        Counted.entry]
  | rdmaWrite size localStream localDest localOffs remoteDest remoteOffs last =>
      simp [run_rdmaWrite_calls answer s h, CoyoteCall.entries, counted, Counted.entry]
  | rdmaRead size localStream localDest localOffs remoteDest remoteOffs last =>
      simp [run_rdmaRead_calls answer s h, CoyoteCall.entries, counted, Counted.entry]
  | getCompleted oper =>
      intro call hcall
      rw [run, Outcome.map_calls, CThread.getCompleted_calls] at hcall
      obtain ⟨o, -, rfl⟩ := List.mem_map.mp hcall
      rfl
  | method m =>
      cases answer <;> simp [run, Outcome.calls, CoyoteCall.entries, counted]
  | _ =>
      simp [run, CThread.mapBuffer, CThread.unmapBuffer, CThread.sync, CThread.offload,
        CThread.syncWith, CoyoteCall.entries, counted, Counted.entry]

omit [CoyoteHeader] in
/-- An operation that counts elements calls Coyote. -/
theorem Operation.callsCoyote_of_counted {op : Operation} {c : Counted}
    (h : c ∈ op.counted) : op.callsCoyote = true := by
  cases op <;> first | rfl | simp [counted] at h

/-- Every entry passed to `invoke` describes what was counted, and a count
whose bytes do not fit is refused. -/
structure ExactLengths (op : Operation) : Prop where
  described : ∀ call ∈ (op.run answer s).calls,
    List.Forall₂ (Counted.Describes s) op.counted call.entries
  refused : (∃ c ∈ op.counted, ¬c.Fits s) → (op.run answer s).Rejected

/-- Lengths are exact for the operations that fail their validation and for
those whose counts all fit, and for no others. -/
theorem exactLengths_iff (op : Operation) :
    ExactLengths answer s op ↔ op.valid = false ∨ ∀ c ∈ op.counted, c.Fits s := by
  constructor
  · intro h
    cases hv : op.valid with
    | false => exact Or.inl rfl
    | true =>
        refine Or.inr fun c hc => ?_
        by_contra hfits
        obtain ⟨-, hnone⟩ := h.refused ⟨c, hc, hfits⟩
        obtain ⟨call, storage, hone⟩ :=
          (op.run_oneCall answer s hv (op.callsCoyote_of_counted hc)).exchange
        exact absurd (hone.symm.trans hnone) (List.cons_ne_nil _ _)
  · rintro (hv | hfits)
    · have hrej := Operation.run_rejected answer s hv
      refine ⟨fun call hcall => ?_, fun _ => hrej⟩
      rw [Outcome.calls, hrej.2] at hcall
      exact absurd hcall List.not_mem_nil
    · refine ⟨fun call hcall => ?_, fun ⟨c, hc, hn⟩ => absurd (hfits c hc) hn⟩
      cases hv : op.valid with
      | false =>
          rw [Outcome.calls, (Operation.run_rejected answer s hv).2] at hcall
          exact absurd hcall List.not_mem_nil
      | true =>
          rw [Operation.entries_of_valid answer s hv call hcall]
          rw [List.forall₂_map_right_iff, List.forall₂_same]
          exact fun c hc => (Counted.describes_entry_iff s c).mpr (hfits c hc)

end Header

/-- A count of four-byte elements whose byte length is exactly `2 ^ 32`. -/
def exampleOversizedRead : Operation :=
  .localRead ⟨0x1000, 0x40000000, ⟨"int32", "i", 4⟩, int32_registered⟩ 0x40000000 "host" 0 true

/-- The oversized read is not refused: Coyote is asked for an empty range. -/
theorem not_exactLengths_oversized :
    ¬@ExactLengths exampleHeader (.ok 0) (WrapperState.constructed 0) exampleOversizedRead := by
  let _ := exampleHeader
  intro h
  have hdescribed := h.described
    (.invokeLocal .localRead ⟨0x1000, 0, 1, 0⟩ true) (List.mem_singleton.mpr rfl)
  obtain ⟨hlen, -⟩ := (List.forall₂_cons.mp hdescribed).1
  exact absurd hlen (by decide)

end PyCoyote
