import PyCoyote.ScriptRules
import Mathlib.Data.List.Nodup

/-!
# The example scripts

Each script from the point where its threads and buffers exist, for buffers that
were allocated as the script does. What it prints and times is left out, as are
the values that it reads from its buffers and asserts of; every call, access and
division by a count is kept, and what the waiting loops test.
-/

namespace PyCoyote

open Library Script

/-- What `random.randint(lo, hi)` returns. -/
abbrev RandInt (lo hi : ℤ) : Type := {z : ℤ // lo ≤ z ∧ z ≤ hi}

/-- A number that converts to a float, such as `random.random()` returns. -/
abbrev FloatNumber : Type := {v : PyObject // v.ieee.isOk = true}

/-- The Python integer `0`, which also converts to a float. -/
def pyZero : FloatNumber := ⟨.ofInt 0, by decide⟩

/-- Repetitions of a transfer in the tests of the sweeps. -/
def nLatencyReps : ℕ := 1

def nThroughputReps : ℕ := 32

namespace Script

/-- The values of `curr_size` in a sweep that starts at a positive size. -/
def sweep (maxSize currSize : ℕ) (hpos : 0 < currSize) : List ℕ :=
  if currSize ≤ maxSize then
    currSize :: sweep maxSize (currSize * 2) (Nat.mul_pos hpos Nat.two_pos)
  else []
termination_by maxSize + 1 - currSize

/-- A sweep visits the doublings of its first size that fit. -/
theorem mem_sweep {maxSize currSize size : ℕ} (hpos : 0 < currSize) :
    size ∈ sweep maxSize currSize hpos ↔ size ≤ maxSize ∧ ∃ i, size = currSize * 2 ^ i := by
  fun_induction sweep maxSize currSize hpos with
  | case1 currSize hpos hle ih =>
      rw [List.mem_cons, ih]
      constructor
      · rintro (rfl | ⟨hsize, i, rfl⟩)
        · exact ⟨hle, 0, by simp⟩
        · exact ⟨hsize, i + 1, by rw [Nat.pow_succ', Nat.mul_assoc]⟩
      · rintro ⟨hsize, i, rfl⟩
        cases i with
        | zero => exact .inl (by simp)
        | succ i => exact .inr ⟨hsize, i, by rw [Nat.pow_succ', Nat.mul_assoc]⟩
  | case2 currSize hpos hlt =>
      refine iff_of_false List.not_mem_nil ?_
      rintro ⟨hsize, i, rfl⟩
      have : currSize * 1 ≤ currSize * 2 ^ i := Nat.mul_le_mul_left _ Nat.one_le_two_pow
      omega

/-- Transfers between two buffers of the thread, all at once. -/
def transfers (srcBuff dstBuff : CoyoteBuffer) (size numTransfers : ℕ) (stream : String) :
    List Stmt :=
  List.replicate numTransfers (.call 0 (.localTransfer srcBuff.base dstBuff.base (.ofNat size)
    (.ofNat size) stream stream 0 0 true))

/-- A measured run of the transfer benchmarks. -/
def transferRun (srcBuff dstBuff : CoyoteBuffer) (size numTransfers : ℕ) (stream : String) :
    List Stmt :=
  clearCompleted 0 :: (transfers srcBuff dstBuff size numTransfers stream ++
    [.wait [.equals 0 "local_transfer" numTransfers]])

/-- Buffers that have the elements of a transfer. -/
theorem inBounds_localTransfer {srcBuff dstBuff : CoyoteBuffer} {size maxSize : ℕ} {dtype : String}
    (hsrc : Allocated srcBuff maxSize dtype) (hdst : Allocated dstBuff maxSize dtype)
    (hsize : size ≤ maxSize) (stream : String) (dest : UInt32) :
    (Operation.localTransfer srcBuff.base dstBuff.base (.ofNat size) (.ofNat size) stream
      stream dest dest true).InBounds :=
  List.forall_mem_cons.mpr ⟨hsrc.ofNat_le hsize,
    List.forall_mem_singleton.mpr (hdst.ofNat_le hsize)⟩

/-- Buffers for runs on fixed inputs. -/
def exampleInts (size : UInt32) : CoyoteBuffer :=
  ⟨⟨0x1000, size, ⟨"int32", "i", 4⟩, int32_registered⟩, ⟨CBuffer.bufferInfo _⟩, rfl⟩

def exampleFloats (size : UInt32) : CoyoteBuffer :=
  ⟨⟨0x1000, size, ⟨"float32", "f", 4⟩, by decide⟩, ⟨CBuffer.bufferInfo _⟩, rfl⟩

/-- The state in which a script starts on a card that does nothing but count. -/
def exampleStart (code : List Stmt) : State Card.counting :=
  .start _ code (fun _ => .constructed 0) (fun _ => 0, fun _ => 0)

/-- An `int32` buffer takes the integers of its type. -/
theorem writable_int {b : CoyoteBuffer} {size : ℕ} (h : Allocated b size "int") {i : ℕ}
    (hi : i < size) {z : ℤ} (hz : -2 ^ 31 ≤ z ∧ z < 2 ^ 31) : b.writable i (.ofInt z) = true :=
  (h.writable_iff (d := ⟨"int32", "i", 4⟩) (by decide) rfl hi z).mpr hz

end Script

namespace HelloWorld

/-- `run_benchmark` -/
def runBenchmark (srcBuff dstBuff : CoyoteBuffer) (random : ℕ → RandInt (-512) 512)
    (size numTransfers numRuns : ℕ) (stream : ℤ) : List Stmt :=
  elements size (fun i =>
    [.setItem srcBuff i (.ofInt (random i)), .setItem dstBuff i (.ofInt 0)]) ++
    repeated numRuns (transferRun srcBuff dstBuff size numTransfers
      (if stream ≠ 0 then "host" else "card")) ++
    (if stream = 0 then
      [.call 0 (.sync srcBuff.base (.ofNat size)), .call 0 (.sync dstBuff.base (.ofNat size))]
    else []) ++
    elements size (fun i => [.getItem srcBuff i, .getItem dstBuff i]) ++
    [.divide fun _ => numRuns]

/-- The script `01_hello_world`, with the random numbers of each benchmark. -/
def main (srcBuff dstBuff : CoyoteBuffer) (random : ℕ → ℕ → ℕ → RandInt (-512) 512)
    (minSize maxSize runs : ℕ) (stream : ℤ) (hpos : 0 < minSize) : List Stmt :=
  (sweep maxSize minSize hpos).flatMap fun size =>
    runBenchmark srcBuff dstBuff (random nThroughputReps size) size nThroughputReps runs stream ++
      runBenchmark srcBuff dstBuff (random nLatencyReps size) size nLatencyReps runs stream

end HelloWorld

namespace GpuP2p

/-- `INT_SIZE_BYTES` -/
def intSizeBytes : ℕ := 4

/-- `run_benchmark`, where HIP copies to and from the buffers on the GPU. -/
def runBenchmark (srcBuff dstBuff : CoyoteBuffer) (size numTransfers numRuns : ℕ) : List Stmt :=
  [.access (.copy srcBuff (size * intSizeBytes))] ++
    repeated numRuns (transferRun srcBuff dstBuff size numTransfers "host") ++
    [.access (.copy dstBuff (size * intSizeBytes))] ++ [.divide fun _ => numRuns]

/-- The script `06_gpu_p2p`. -/
def main (srcBuff dstBuff : CoyoteBuffer) (minSize maxSize runs : ℕ) (hpos : 0 < minSize) :
    List Stmt :=
  (sweep maxSize minSize hpos).flatMap fun size =>
    runBenchmark srcBuff dstBuff size nThroughputReps runs ++
      runBenchmark srcBuff dstBuff size nLatencyReps runs

end GpuP2p

namespace HlsVadd

/-- The calls that run the kernel. -/
def kernelCalls (i : ℕ) (a b c : CoyoteBuffer) (size : ℕ) : List Stmt :=
  [.call i (.localRead a.base (.ofNat size) "host" 0 true),
    .call i (.localRead b.base (.ofNat size) "host" 1 true),
    .call i (.localWrite c.base (.ofNat size) "host" 0 true)]

/-- Run the kernel and wait for it. -/
def runKernel (i : ℕ) (a b c : CoyoteBuffer) (size : ℕ) : List Stmt :=
  kernelCalls i a b c size ++ [.wait [.equals i "local_read" 2, .equals i "local_write" 1]]

/-- Random vectors to add, and a zero result. -/
def fill (a b c : CoyoteBuffer) (random : ℕ → FloatNumber × FloatNumber) (size : ℕ) :
    List Stmt :=
  elements size fun i =>
    [.setItem a i (random i).1, .setItem b i (random i).2, .setItem c i pyZero]

/-- Verify the results. -/
def verify (a b c : CoyoteBuffer) (size : ℕ) : List Stmt :=
  elements size fun i => [.getItem a i, .getItem b i, .getItem c i]

/-- The script `02_hls_vadd`. -/
def main (a b c : CoyoteBuffer) (random : ℕ → FloatNumber × FloatNumber) (size : ℕ) :
    List Stmt :=
  fill a b c random size ++ (clearCompleted 0 :: runKernel 0 a b c size) ++
    verify a b c size

section Vectors
variable {a b c : CoyoteBuffer} {size : ℕ} (ha : Allocated a size "float32")
  (hb : Allocated b size "float32") (hc : Allocated c size "float32")
include ha hb hc

theorem triple_fill (threads : List ℕ) (random : ℕ → FloatNumber × FloatNumber) :
    Triple threads threads (fill a b c random size) := by
  refine .elements threads fun i hi => ?_
  simp only [List.forall_mem_cons]
  exact ⟨ha.writable_float hi (random i).1.property, hb.writable_float hi (random i).2.property,
    hc.writable_float hi pyZero.property, List.forall_mem_nil _⟩

theorem triple_verify (threads : List ℕ) : Triple threads threads (verify a b c size) := by
  refine .elements threads fun i hi => ?_
  simp only [List.forall_mem_cons]
  exact ⟨ha.readable hi, hb.readable hi, hc.readable hi, List.forall_mem_nil _⟩

theorem steady_kernelCalls (i : ℕ) : ∀ stmt ∈ kernelCalls i a b c size, stmt.Steady := by
  have hread : ∀ dest, ∀ buff : CoyoteBuffer, Allocated buff size "float32" →
      (Stmt.call i (.localRead buff.base (.ofNat size) "host" dest true)).Steady :=
    fun dest buff hbuff => Stmt.steady_call validStream_host rfl
      (List.forall_mem_singleton.mpr (hbuff.ofNat_le le_rfl))
  have hwrite : (Stmt.call i (.localWrite c.base (.ofNat size) "host" 0 true)).Steady :=
    Stmt.steady_call validStream_host rfl (List.forall_mem_singleton.mpr (hc.ofNat_le le_rfl))
  simp only [kernelCalls, List.forall_mem_cons]
  exact ⟨hread 0 a ha, hread 1 b hb, hwrite, List.forall_mem_nil _⟩

theorem triple_runKernel (i : ℕ) {others : List ℕ} (hi : i ∉ others) :
    Triple ([i] ++ others) others (runKernel i a b c size) := by
  have hread : (Test.equals i "local_read" 2).counter = ⟨i, .localRead⟩ := by
    simp [Test.counter, Test.equals, completedOper_localRead]
  have hwrite : (Test.equals i "local_write" 1).counter = ⟨i, .localWrite⟩ := by
    simp [Test.counter, Test.equals, completedOper_localWrite]
  have hlaunches : abstract (kernelCalls i a b c size) =
      [⟨i, .localRead⟩, ⟨i, .localRead⟩, ⟨i, .localWrite⟩].map .launch := rfl
  refine Triple.batch (.inl rfl) (steady_kernelCalls ha hb hc i) hlaunches ?_ ?_ ?_ ?_ ?_
  · simp [Test.equals, completedOper_localRead, completedOper_localWrite]
  · simp [Test.equals]
  · rw [List.forall_mem_cons, List.forall_mem_singleton, hread, hwrite]
    refine ⟨?_, ?_⟩
    · exact Test.decides (by simpa using .beq 2 2) (by simp)
    · exact Test.decides (by simpa using .beq 1 1) (by simp)
  · intro k hk
    simp only [List.mem_cons, List.not_mem_nil, or_false] at hk
    obtain rfl | rfl | rfl := hk
    · exact ⟨_, List.mem_cons_self, hread⟩
    · exact ⟨_, List.mem_cons_self, hread⟩
    · exact ⟨_, List.mem_cons_of_mem _ (List.mem_singleton_self _), hwrite⟩
  · simpa using hi

end Vectors

end HlsVadd

namespace UserInterrupts

/-- `N_ELEMENTS` -/
def nElements : ℕ := 16

/-- Fill the buffer. -/
def fill (data : CoyoteBuffer) : List Stmt :=
  elements nElements fun i => [.setItem data i (.ofInt i)]

/-- Set the first element, start a transfer, poll on its completion and clear. -/
def transfer (data : CoyoteBuffer) (first : ℤ) : List Stmt :=
  [.access (.setItem data 0 (.ofInt first))] ++
    ([.call 0 (.localRead data.base (.ofNat nElements) "host" 0 true)] ++
      [.wait [.nonzero 0 "local_read"]]) ++ [clearCompleted 0]

/-- The script `04_user_interrupts`. -/
def main (data : CoyoteBuffer) : List Stmt :=
  fill data ++ transfer data 73 ++ transfer data 1024

section Data
variable {data : CoyoteBuffer} (hdata : Allocated data nElements "int")
include hdata

theorem triple_fill (threads : List ℕ) : Triple threads threads (fill data) := by
  refine .elements threads fun i hi => List.forall_mem_singleton.mpr ?_
  have hsmall : i < 16 := hi
  exact writable_int hdata hi ⟨by omega, by omega⟩

theorem triple_transfer {first : ℤ} (hfirst : -2 ^ 31 ≤ first ∧ first < 2 ^ 31)
    {others : List ℕ} (hothers : 0 ∉ others) :
    Triple ([0] ++ others) ([0] ++ others) (transfer data first) := by
  have hcounter : (Test.nonzero 0 "local_read").counter = ⟨0, .localRead⟩ := by
    simp [Test.counter, Test.nonzero, completedOper_localRead]
  have hsteady : (Stmt.call 0 (.localRead data.base (.ofNat nElements) "host" 0 true)).Steady :=
    Stmt.steady_call validStream_host rfl (List.forall_mem_singleton.mpr (hdata.ofNat_le le_rfl))
  have hlaunches : abstract [.call 0 (.localRead data.base (.ofNat nElements) "host" 0 true)] =
      [⟨0, .localRead⟩].map .launch := rfl
  have hset : (Access.setItem data 0 (.ofInt first)).returns = true :=
    writable_int hdata (i := 0) (by decide) hfirst
  refine ((Triple.access _ hset).append (.batch (.inl rfl) (List.forall_mem_singleton.mpr hsteady)
    hlaunches ?_ ?_ ?_ ?_ ?_)).append (.clear 0 others)
  · simp [Test.nonzero, completedOper_localRead]
  · simp [Test.nonzero]
  · rw [List.forall_mem_singleton, hcounter]
    exact Test.decides (by simpa using .ne_zero 1) (by simp)
  · intro k hk
    rw [List.mem_singleton.mp hk]
    exact ⟨_, List.mem_singleton_self _, hcounter⟩
  · simpa using hothers

/-- `04_user_interrupts` is correct on a thread whose counters are zero, as they
are when the thread is new. -/
theorem userInterrupts_correct [CoyoteHeader] : Correct (Cleared [0]) (main data) :=
  Triple.correct (((triple_fill hdata [0]).append
    (triple_transfer hdata (by decide) List.not_mem_nil)).append
    (triple_transfer hdata (by decide) List.not_mem_nil))

end Data

theorem userInterrupts_ends : ∃ s', @Reaches exampleHeader _ (exampleStart (main (exampleInts 16))) s' ∧
    s'.code = [] ∧ s'.failed = false :=
  (@userInterrupts_correct (exampleInts 16) ⟨rfl, by decide⟩ exampleHeader Card.counting _ _
    (fun _ => rfl) (fun _ _ => rfl) _ .refl).2

end UserInterrupts

namespace ReconfigureShell

/-- `N_VECTOR_ELEMENTS` -/
def nVectorElements : ℕ := 1024

/-- `run_user_interrupts`, on its own thread. -/
def runUserInterrupts (data : CoyoteBuffer) : List Stmt :=
  UserInterrupts.fill data ++ UserInterrupts.transfer data 73

/-- `run_hls_vadd`, on its own thread, which it does not clear. -/
def runHlsVadd (a b c : CoyoteBuffer) (random : ℕ → FloatNumber × FloatNumber) : List Stmt :=
  HlsVadd.fill a b c random nVectorElements ++ HlsVadd.runKernel 1 a b c nVectorElements ++
    HlsVadd.verify a b c nVectorElements

/-- The script `05_reconfigure_shell`. -/
def main (data a b c : CoyoteBuffer) (random : ℕ → FloatNumber × FloatNumber) : List Stmt :=
  runUserInterrupts data ++ runHlsVadd a b c random

/-- `05_reconfigure_shell` is correct on two new threads. -/
theorem reconfigureShell_correct [CoyoteHeader] {data a b c : CoyoteBuffer}
    (hdata : Allocated data UserInterrupts.nElements "int")
    (ha : Allocated a nVectorElements "float32") (hb : Allocated b nVectorElements "float32")
    (hc : Allocated c nVectorElements "float32")
    (random : ℕ → FloatNumber × FloatNumber) :
    Correct (Cleared [0, 1]) (main data a b c random) := by
  have htransfer : Triple [0, 1] [0, 1] (UserInterrupts.transfer data 73) :=
    UserInterrupts.triple_transfer hdata (by decide) (by decide : 0 ∉ [1])
  have hinterrupts := (UserInterrupts.triple_fill hdata [0, 1]).append htransfer
  have hvadd : Triple [1] [] (runHlsVadd a b c random) :=
    ((HlsVadd.triple_fill ha hb hc [1] random).append
      (HlsVadd.triple_runKernel ha hb hc 1 List.not_mem_nil)).append
        (HlsVadd.triple_verify ha hb hc [])
  exact Triple.correct ((hinterrupts.weaken (by simp)).append hvadd)

theorem reconfigureShell_ends : ∃ s', @Reaches exampleHeader _
    (exampleStart (main (exampleInts 16) (exampleFloats 1024) (exampleFloats 1024)
      (exampleFloats 1024) fun _ => (pyZero, pyZero))) s' ∧ s'.code = [] ∧ s'.failed = false :=
  (@reconfigureShell_correct exampleHeader (exampleInts 16) (exampleFloats 1024) (exampleFloats 1024)
    (exampleFloats 1024) ⟨rfl, by decide⟩ ⟨rfl, by decide⟩ ⟨rfl, by decide⟩ ⟨rfl, by decide⟩ _
    Card.counting _ _ (fun _ => rfl) (fun _ _ => rfl) _ .refl).2

end ReconfigureShell

end PyCoyote
