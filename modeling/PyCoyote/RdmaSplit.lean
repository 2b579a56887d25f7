import PyCoyote.ByteCount
import Mathlib.Algebra.Order.BigOperators.Group.List
import Mathlib.Algebra.Order.Group.Nat

/-!
# Splitting RDMA transfers into chunks

A program may send a buffer in chunks, advancing both offsets by the count of
each chunk. Counts are scaled to bytes but offsets are not, so that the chunks
tile the transfer they were cut from exactly when an element is one byte.
-/

namespace PyCoyote.RdmaSplit

open Op Library.EventTrace Library.Tiling

/-- The two buffers of a queue pair. -/
inductive Side where
  | localBuffer
  | remoteBuffer
deriving DecidableEq, Repr

/-- The offset of a descriptor into one of the buffers. -/
def offs (sg : RdmaSg) : Side → UInt64
  | .localBuffer => sg.localOffs
  | .remoteBuffer => sg.remoteOffs

/-- The bytes a call addresses in a buffer at `base`: Coyote counts the offset
and the length in bytes. -/
def addressed (side : Side) (base : ℕ) : CoyoteCall → Option Segment
  | .invokeRdma _ sg _ => some ⟨base + (offs sg side).toNat, sg.len.toNat⟩
  | _ => none

/-- `rdma_write` or `rdma_read`. -/
inductive Direction where
  | write
  | read
deriving DecidableEq, Repr

/-- What the calls of a chunked transfer share. -/
structure Transfer where
  direction : Direction
  localStream : String
  localDest : UInt32
  remoteDest : UInt32

/-- A call's own element count and last flag, and what Coyote answers to it. -/
structure Chunk where
  count : UInt32
  last : Bool
  answer : Answer

/-- The element counts of some chunks. -/
def counts (chunks : List Chunk) : List ℕ := chunks.map (·.count.toNat)

namespace Transfer

/-- One call of the transfer, with an offset into each buffer. -/
def event (t : Transfer) (offset : Side → UInt32) (c : Chunk) : Event where
  op := match t.direction with
    | .write => .rdmaWrite c.count t.localStream t.localDest (offset .localBuffer)
        t.remoteDest (offset .remoteBuffer) c.last
    | .read => .rdmaRead c.count t.localStream t.localDest (offset .localBuffer)
        t.remoteDest (offset .remoteBuffer) c.last
  answer := c.answer

/-- A loop over the chunks that advances both offsets by each chunk's count. -/
def loop (t : Transfer) : (Side → UInt32) → List Chunk → List Event
  | _, [] => []
  | offset, c :: rest => t.event offset c :: loop t (fun side => offset side + c.count) rest

end Transfer

section Header
variable [CoyoteHeader]

/-- The bytes the calls of a run address in a buffer at `base`, in order. -/
def ranges (side : Side) (base : ℕ) (s : Session) (events : List Event) : List Segment :=
  (visits Session.step s events).flatMap fun p =>
    (p.1.outcome p.2).calls.filterMap (addressed side base)

/-- On both sides the chunks tile the bytes of the one call they were cut
from, and chunks of a whole buffer send every byte of it exactly once. -/
structure SplitsInto (s : Session) (t : Transfer) (offset : Side → UInt32) (one : Chunk)
    (chunks : List Chunk) : Prop where
  tiles : ∀ side base, ∃ whole, ranges side base s [t.event offset one] = [whole] ∧
    Tiles whole (ranges side base s (t.loop offset chunks))
  buffer_once : ∀ b, s.rdma = some b → s.wrapper.qpDtype.value = b.base.dtype →
    one.count = b.size → offset .localBuffer = 0 →
      ∀ x ∈ ⋃ i < b.size.toNat, b.mv.info.element i,
        ∃! i : Fin (ranges .localBuffer b.addr.toNat s (t.loop offset chunks)).length,
          x ∈ ((ranges .localBuffer b.addr.toNat s (t.loop offset chunks)).get i).points

@[simp] theorem ranges_nil (side : Side) (base : ℕ) (s : Session) :
    ranges side base s [] = [] := rfl

@[simp] theorem ranges_cons (side : Side) (base : ℕ) (s : Session) (e : Event)
    (rest : List Event) : ranges side base s (e :: rest) =
      (s.outcome e).calls.filterMap (addressed side base) ++ ranges side base (s.step e) rest :=
  rfl

section Transfer
variable {t : Transfer} {s : Session} {offset : Side → UInt32}

theorem step_qpDtype_event (t : Transfer) (s : Session) (offset : Side → UInt32) (c : Chunk) :
    (s.step (t.event offset c)).wrapper.qpDtype = s.wrapper.qpDtype := by
  apply Session.step_qpDtype_of_other
  unfold Transfer.event
  cases t.direction <;> rfl

/-- A call addresses the counted bytes from the offset on, which it takes as
a number of bytes. -/
theorem addressed_event (hstream : validStream t.localStream = true) (side : Side) (base : ℕ)
    (c : Chunk) : (s.outcome (t.event offset c)).calls.filterMap (addressed side base) =
      [⟨base + (offset side).toNat, (byteCount c.count s.wrapper.qpDtype.value).toNat⟩] := by
  have hoffs : ∀ sg : RdmaSg, sg.localOffs = (offset .localBuffer).toUInt64 →
      sg.remoteOffs = (offset .remoteBuffer).toUInt64 →
        (offs sg side).toNat = (offset side).toNat := by
    intro sg hlocal hremote
    cases side with
    | localBuffer => simp [offs, hlocal]
    | remoteBuffer => simp [offs, hremote]
  unfold Transfer.event Session.outcome
  cases t.direction with
  | write => simp [Operation.run_rdmaWrite_calls c.answer s.wrapper hstream, addressed, hoffs]
  | read => simp [Operation.run_rdmaRead_calls c.answer s.wrapper hstream, addressed, hoffs]

/-- The ranges of a loop are as long as the bytes of their chunks but start
only as far apart as the element counts. -/
theorem ranges_loop (hstream : validStream t.localStream = true) (side : Side) (base : ℕ)
    {chunks : List Chunk} (hfits : ∀ c ∈ chunks, Fits c.count s.wrapper.qpDtype.value.size)
    (hoffset : (offset side).toNat + (counts chunks.dropLast).sum < 2 ^ 32) :
    ranges side base s (t.loop offset chunks) =
      strided 1 s.wrapper.qpDtype.value.size.toNat (base + (offset side).toNat)
        (counts chunks) := by
  induction chunks generalizing s offset with
  | nil => rfl
  | cons c rest ih =>
      have hlen := (byteCount_exact_iff c.count s.wrapper.qpDtype.value).mpr
        (hfits c List.mem_cons_self)
      rw [Transfer.loop, ranges_cons, addressed_event hstream, hlen]
      change _ :: ranges side base _ _ = _ :: strided 1 _ _ (counts rest)
      congr 1
      cases rest with
      | nil => rfl
      | cons c' rest =>
          simp only [List.dropLast_cons_cons, counts, List.map_cons, List.sum_cons] at hoffset
          have hnext : (offset side + c.count).toNat = (offset side).toNat + c.count.toNat := by
            rw [UInt32.toNat_add]
            exact Nat.mod_eq_of_lt (by omega)
          have hqp := step_qpDtype_event t s offset c
          rw [ih, hqp, hnext, Nat.mul_one, Nat.add_assoc]
          · rw [hqp]
            exact fun d hd => hfits d (List.mem_cons_of_mem c hd)
          · rw [hnext, counts]
            omega

/-- The one call and the chunks that it is cut into, with positive counts and
nothing that overflows 32 bits: neither the byte length of the whole nor the
offset of any chunk. -/
structure Cut (s : Session) (offset : Side → UInt32) (one : Chunk) (chunks : List Chunk) :
    Prop where
  positive : ∀ n ∈ counts chunks, 0 < n
  total : one.count.toNat = (counts chunks).sum
  fits : Fits one.count s.wrapper.qpDtype.value.size
  offsets : ∀ side, (offset side).toNat + (counts chunks.dropLast).sum < 2 ^ 32

variable {one : Chunk} {chunks : List Chunk}

omit [CoyoteHeader] in
/-- The bytes of a chunk are some of the bytes of the whole. -/
theorem Cut.fits_chunk (h : Cut s offset one chunks) :
    ∀ c ∈ chunks, Fits c.count s.wrapper.qpDtype.value.size := by
  intro c hc
  have hmem : c.count.toNat ∈ counts chunks := List.mem_map_of_mem hc
  have hle : c.count.toNat ≤ one.count.toNat := by
    rw [h.total]
    exact List.le_sum_of_mem hmem
  exact (Nat.mul_le_mul_right _ hle).trans_lt h.fits

/-- The one call addresses all bytes of its elements from the offset on. -/
theorem Cut.ranges_one (h : Cut s offset one chunks) (hstream : validStream t.localStream = true)
    (side : Side) (base : ℕ) : ranges side base s [t.event offset one] =
      [⟨base + (offset side).toNat,
        (counts chunks).sum * s.wrapper.qpDtype.value.size.toNat⟩] := by
  have hlen := (byteCount_exact_iff one.count s.wrapper.qpDtype.value).mpr h.fits
  rw [ranges_cons, ranges_nil, addressed_event hstream, hlen, byteLength, h.total]
  rfl

/-- In a buffer the chunks tile the whole exactly when elements are bytes. -/
theorem Cut.tiles_iff (h : Cut s offset one chunks) (hstream : validStream t.localStream = true)
    (side : Side) (base : ℕ) : (∃ whole, ranges side base s [t.event offset one] = [whole] ∧
        Tiles whole (ranges side base s (t.loop offset chunks))) ↔
      s.wrapper.qpDtype.value.size = 1 ∨ chunks.length ≤ 1 := by
  have hsize : s.wrapper.qpDtype.value.size.toNat = 1 ↔ s.wrapper.qpDtype.value.size = 1 :=
    UInt64.toNat_inj (b := 1)
  have hlength : (counts chunks).length = chunks.length := List.length_map ..
  rw [h.ranges_one hstream, ranges_loop hstream side base h.fits_chunk (h.offsets side)]
  simp only [List.cons.injEq, and_true, exists_eq_left', tiles_strided_iff h.positive, hsize,
    hlength]

/-- A transfer can be split into chunks exactly when an element of the queue
pair's data type is one byte, or when it is not split at all. -/
theorem rdma_splits_iff (hstream : validStream t.localStream = true)
    (h : Cut s offset one chunks) : SplitsInto s t offset one chunks ↔
      s.wrapper.qpDtype.value.size = 1 ∨ chunks.length ≤ 1 := by
  constructor
  · intro hsplits
    exact (h.tiles_iff hstream .localBuffer 0).mp (hsplits.tiles .localBuffer 0)
  · intro hcond
    refine ⟨fun side base => (h.tiles_iff hstream side base).mpr hcond, ?_⟩
    intro b _ hdtype hcount hzero x hx
    obtain ⟨whole, hone, htiles⟩ :=
      (h.tiles_iff hstream .localBuffer b.addr.toNat).mpr hcond
    apply htiles.existsUnique
    rw [h.ranges_one hstream, ← h.total, hcount, hdtype, hzero] at hone
    obtain rfl := List.singleton_inj.mp hone
    rwa [b.mv_eq, BufferInfo.biUnion_element] at hx

end Transfer

end Header

/-- Two chunks of eight elements, cut from a transfer of sixteen. -/
def exampleChunks : List Chunk := [⟨8, false, .ok 0⟩, ⟨8, true, .ok 0⟩]

/-- A queue pair with a buffer of sixteen elements of a data type. -/
def exampleSession (dtype : String) : Session :=
  @Session.step exampleHeader (Session.constructed 0)
    ⟨.initRDMA 16 dtype 18488 .none, .ok 0x7f0000000000⟩

/-- Bytes can be sent in two chunks. -/
theorem uint8_splits : @SplitsInto exampleHeader (exampleSession "uint8")
    ⟨.write, "host", 0, 0⟩ (fun _ => 0) ⟨16, true, .ok 0⟩ exampleChunks := by
  let _ := exampleHeader
  exact (rdma_splits_iff rfl ⟨by decide, rfl, by decide, fun _ => by decide⟩).mpr (.inl rfl)

/-- Of integers the second chunk starts eight bytes after the first, which is
thirty-two bytes long. -/
theorem not_int_splits : ¬@SplitsInto exampleHeader (exampleSession "int")
    ⟨.write, "host", 0, 0⟩ (fun _ => 0) ⟨16, true, .ok 0⟩ exampleChunks := by
  let _ := exampleHeader
  intro h
  obtain ⟨whole, -, htiles⟩ := h.tiles .localBuffer 0
  have hadjacent : 8 = 32 := htiles.adjacent.2.1
  cases hadjacent

end PyCoyote.RdmaSplit
