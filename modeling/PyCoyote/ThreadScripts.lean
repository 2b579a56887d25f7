import PyCoyote.ExampleScripts
import Mathlib.Data.List.Nodup

/-!
# The example scripts with several threads

`08_multithreading` encrypts one text on several threads. It is correct exactly
for the texts that its buffers of signed characters can hold. `03_multitenancy`
measures several threads at once and averages the latencies of each.
-/

namespace PyCoyote

open Library Script

namespace Script

/-- One counter for each thread. -/
def counters (nThreads : ℕ) (oper : CoyoteOper) : List Counter :=
  (List.range nThreads).map (Counter.mk · oper)

theorem nodup_counters (nThreads : ℕ) (oper : CoyoteOper) : (counters nThreads oper).Nodup :=
  List.Nodup.map (fun _ _ h => congrArg Counter.thread h) List.nodup_range

/-- A `char` buffer takes exactly the integers of a signed byte. -/
theorem writable_char_iff {b : CoyoteBuffer} {size : ℕ} (h : Allocated b size "char") {i : ℕ}
    (hi : i < size) (z : ℤ) : b.writable i (.ofInt z) = true ↔ -2 ^ 7 ≤ z ∧ z < 2 ^ 7 :=
  h.writable_iff (d := ⟨"char", "b", 1⟩) (by decide) rfl hi z

def exampleChars (size : UInt32) : CoyoteBuffer :=
  ⟨⟨0x1000, size, ⟨"char", "b", 1⟩, by decide⟩, ⟨CBuffer.bufferInfo _⟩, rfl⟩

end Script

namespace Multithreading

/-- Copy the text into the buffer of each thread, element by element. -/
def fill (srcBuffs : ℕ → CoyoteBuffer) (sourceData : List UInt8) (nThreads : ℕ) : List Access :=
  (List.range nThreads).flatMap fun i => (List.range sourceData.length).map fun (j : ℕ) =>
    .setItem (srcBuffs i) j (.ofInt (sourceData.getD j 0).toNat)

/-- `prep_fn` -/
def prepFn (nThreads : ℕ) : List Stmt := (List.range nThreads).map clearCompleted

/-- The calls of `benchmark_thr`, on one pair of buffers for each thread. -/
def benchmarkCalls (srcBuffs dstBuffs : ℕ → CoyoteBuffer) (nThreads size : ℕ) : List Stmt :=
  (List.range nThreads).flatMap fun i =>
    [.call i (.method .setCSR),
      .call i (.localTransfer (srcBuffs i).base (dstBuffs i).base (.ofNat size) (.ofNat size)
        "host" "host" (.ofNat i) (.ofNat i) true)]

/-- `benchmark_thr` -/
def benchmarkThr (srcBuffs dstBuffs : ℕ → CoyoteBuffer) (nThreads size : ℕ) : List Stmt :=
  benchmarkCalls srcBuffs dstBuffs nThreads size ++
    [.wait ((List.range nThreads).map fun i => .equals i "local_transfer" 1)]

/-- Compare what the other threads made of the text with what the first did. -/
def verify (dstBuffs : ℕ → CoyoteBuffer) (nThreads size : ℕ) : List Stmt :=
  (List.range (nThreads - 1)).flatMap fun i => elements size fun s =>
    [.getItem (dstBuffs 0) s, .getItem (dstBuffs (i + 1)) s]

/-- The script `08_multithreading`, with at least one thread. -/
def main (srcBuffs dstBuffs : ℕ → CoyoteBuffer) (sourceData : List UInt8) (nThreads runs : ℕ) :
    List Stmt :=
  (fill srcBuffs sourceData nThreads).map .access ++
    (repeated 4 [.call 0 (.method .setCSR)] ++
      repeated runs (prepFn nThreads ++
        benchmarkThr srcBuffs dstBuffs nThreads sourceData.length) ++
      [.divide fun _ => runs] ++ verify dstBuffs nThreads sourceData.length ++
      [.access (.copy (dstBuffs 0) ((dstBuffs 0).len * (dstBuffs 0).base.dtype.size.toNat))])

section Buffers
variable {srcBuffs dstBuffs : ℕ → CoyoteBuffer} {sourceData : List UInt8} {nThreads : ℕ}
  (hsrc : ∀ i < nThreads, Allocated (srcBuffs i) (sourceData.length + 1) "char")
  (hdst : ∀ i < nThreads, Allocated (dstBuffs i) (sourceData.length + 1) "char")

include hsrc in
/-- A byte of the text is an element of a `char` buffer if its top bit is clear. -/
theorem returns_iff {i : ℕ} (hi : i < nThreads) {j : ℕ} (hj : j < sourceData.length) :
    (Access.setItem (srcBuffs i) j (.ofInt (sourceData.getD j 0).toNat)).returns = true ↔
      sourceData[j] < 128 := by
  rw [Access.returns, writable_char_iff (hsrc i hi) (hj.trans (Nat.lt_succ_self _)),
    List.getD_eq_getElem?_getD, List.getElem?_eq_getElem hj, Option.getD_some,
    UInt8.lt_iff_toNat_lt]
  have h128 : (128 : UInt8).toNat = 128 := rfl
  omega

include hsrc hdst in
theorem steady_benchmarkCalls :
    ∀ stmt ∈ benchmarkCalls srcBuffs dstBuffs nThreads sourceData.length, stmt.Steady := by
  intro stmt hstmt
  obtain ⟨i, hi, hstmt⟩ := List.mem_flatMap.mp hstmt
  have hi := List.mem_range.mp hi
  simp only [List.mem_cons, List.not_mem_nil, or_false] at hstmt
  obtain rfl | rfl := hstmt
  · exact Stmt.steady_call rfl rfl (.method _)
  · exact Stmt.steady_call (by simp [Operation.valid, validStream_host]) rfl
      (inBounds_localTransfer (hsrc i hi) (hdst i hi) (Nat.le_succ _) _ _)

theorem abstract_benchmarkCalls (srcBuffs dstBuffs : ℕ → CoyoteBuffer) (nThreads size : ℕ) :
    abstract (benchmarkCalls srcBuffs dstBuffs nThreads size) =
      (counters nThreads .localTransfer).map .launch := by
  rw [benchmarkCalls, abstract, List.flatMap_assoc, counters, List.map_map, List.map_eq_flatMap]
  rfl

include hsrc hdst in
theorem triple_run : Triple [] []
    (prepFn nThreads ++ benchmarkThr srcBuffs dstBuffs nThreads sourceData.length) := by
  have hcounter : ∀ i, (Test.equals i "local_transfer" 1).counter = ⟨i, .localTransfer⟩ := by
    intro i
    simp [Test.counter, Test.equals, completedOper_localTransfer]
  refine (Triple.clears _ []).append (.batch (.inl rfl) (steady_benchmarkCalls hsrc hdst)
    (abstract_benchmarkCalls srcBuffs dstBuffs nThreads _) ?_ ?_ ?_ ?_ (by simp))
  · simp [Test.equals, completedOper_localTransfer]
  · simp [Test.equals]
  · intro t ht
    obtain ⟨i, hi, rfl⟩ := List.mem_map.mp ht
    rw [hcounter, List.count_eq_one_of_mem (nodup_counters _ _) (List.mem_map_of_mem hi)]
    exact Test.decides (.beq 1 1) (by decide)
  · intro k hk
    obtain ⟨i, hi, rfl⟩ := List.mem_map.mp hk
    exact ⟨_, List.mem_map_of_mem hi, hcounter i⟩

include hdst in
theorem triple_verify : Triple [] [] (verify dstBuffs nThreads sourceData.length) := by
  refine .flatMap fun i hi => .elements [] fun s hs => ?_
  have hi := List.mem_range.mp hi
  have hs := hs.trans (Nat.lt_succ_self _)
  exact List.forall_mem_cons.mpr ⟨(hdst 0 (by omega)).readable hs,
    List.forall_mem_singleton.mpr ((hdst (i + 1) (by omega)).readable hs)⟩

include hsrc hdst in
/-- With at least one thread and one run, `08_multithreading` is correct exactly
for texts of bytes below 128: others do not fit into buffers of type `char`. -/
theorem multithreading_correct_iff [CoyoteHeader] (hthreads : 0 < nThreads) {runs : ℕ} (hruns : runs ≠ 0) :
    Correct (Cleared []) (main srcBuffs dstBuffs sourceData nThreads runs) ↔
      ∀ byte ∈ sourceData, byte < 128 := by
  constructor
  · intro hcorrect
    by_contra hbad
    simp only [not_forall] at hbad
    obtain ⟨byte, hmem, hbyte⟩ := hbad
    obtain ⟨j, hj, rfl⟩ := List.getElem_of_mem hmem
    have hraises : (Access.setItem (srcBuffs 0) j
        (.ofInt (sourceData.getD j 0).toNat)).returns = false :=
      Bool.eq_false_iff.mpr fun h => absurd ((returns_iff hsrc hthreads hj).mp h) hbyte
    have hfill : Access.setItem (srcBuffs 0) j (.ofInt (sourceData.getD j 0).toNat) ∈
        fill srcBuffs sourceData nThreads :=
      List.mem_flatMap.mpr ⟨0, List.mem_range.mpr hthreads,
        List.mem_map.mpr ⟨j, List.mem_range.mpr hj, rfl⟩⟩
    obtain ⟨s', hreach, hfailed⟩ := exists_failed ⟨_, hfill, hraises⟩
      (s := exampleStart (main srcBuffs dstBuffs sourceData nThreads runs)) rfl
    have hok := (hcorrect Card.counting _ _ (fun _ => rfl) (fun _ _ => rfl) s' hreach).1.ok
    rw [hfailed] at hok
    cases hok
  · intro hbytes
    have hfill : Triple [] [] ((fill srcBuffs sourceData nThreads).map .access) := by
      rw [List.map_eq_flatMap]
      refine .flatMap fun a ha => .access [] ?_
      obtain ⟨i, hi, ha⟩ := List.mem_flatMap.mp ha
      obtain ⟨j, hj, rfl⟩ := List.mem_map.mp ha
      exact (returns_iff hsrc (List.mem_range.mp hi) (List.mem_range.mp hj)).mpr
        (hbytes _ (List.getElem_mem _))
    have hcsr : Triple [] [] (repeated 4 [.call 0 (.method .setCSR)]) :=
      (Triple.quiet [] rfl rfl (.method _) rfl rfl).repeated 4
    have hcopy : (Access.copy (dstBuffs 0)
        ((dstBuffs 0).len * (dstBuffs 0).base.dtype.size.toNat)).returns = true :=
      decide_eq_true le_rfl
    exact Triple.correct (hfill.append ((((hcsr.append ((triple_run hsrc hdst).repeated runs)).append
      (.divide [] hruns)).append (triple_verify hdst)).append (.access [] hcopy)))

end Buffers

/-- Two texts on two threads, of which the second has a byte not of seven bits. -/
theorem multithreading_correct_ascii :
    @Correct exampleHeader (Cleared [])
      (main (fun _ => exampleChars 3) (fun _ => exampleChars 3) [72, 105] 2 1) ∧
    ¬@Correct exampleHeader (Cleared [])
      (main (fun _ => exampleChars 3) (fun _ => exampleChars 3) [72, 0xE9] 2 1) := by
  refine ⟨(@multithreading_correct_iff _ _ _ 2 (fun _ _ => ⟨rfl, by decide⟩)
    (fun _ _ => ⟨rfl, by decide⟩) exampleHeader (by decide) 1 (by decide)).mpr ?_, fun h => ?_⟩
  · exact List.forall_mem_cons.mpr ⟨by decide, List.forall_mem_singleton.mpr (by decide)⟩
  · have hbytes := (@multithreading_correct_iff _ _ _ 2 (fun _ _ => ⟨rfl, by decide⟩)
      (fun _ _ => ⟨rfl, by decide⟩) exampleHeader (by decide) 1 (by decide)).mp h
    exact absurd (hbytes 0xE9 (by simp)) (by decide)

end Multithreading

namespace Multitenancy

/-- `BATCHED_TRANSFERS` -/
def batchedTransfers : ℕ := 256

/-- Set up a thread: random capitals to encrypt, and the key. -/
def setUp (srcBuff : CoyoteBuffer) (random : ℕ → RandInt 65 90) (i messageSize : ℕ) : List Stmt :=
  elements messageSize (fun k => [.setItem srcBuff k (.ofInt (random k))]) ++
    repeated 2 [.call i (.method .setCSR)]

/-- The transfers of one run, one on each thread at a time. -/
def transfers (srcBuffs dstBuffs : ℕ → CoyoteBuffer) (nVfpga messageSize : ℕ) : List Stmt :=
  repeated batchedTransfers ((List.range nVfpga).map fun i =>
    .call i (.localTransfer (srcBuffs i).base (dstBuffs i).base (.ofNat messageSize)
      (.ofNat messageSize) "host" "host" 0 0 true))

/-- The tests of the loop that waits. -/
def tests (nVfpga : ℕ) : List Test :=
  (List.range nVfpga).map fun i => .equals i "local_transfer" batchedTransfers

/-- One run: the loop at its end timestamps each thread as it finishes. -/
def run (srcBuffs dstBuffs : ℕ → CoyoteBuffer) (nVfpga messageSize : ℕ) : List Stmt :=
  (List.range nVfpga).map clearCompleted ++
    (transfers srcBuffs dstBuffs nVfpga messageSize ++ [.gather (tests nVfpga)])

/-- Everything up to the results. -/
def measure (srcBuffs dstBuffs : ℕ → CoyoteBuffer) (random : ℕ → ℕ → RandInt 65 90)
    (nVfpga messageSize runs : ℕ) : List Stmt :=
  ((List.range nVfpga).flatMap fun i => setUp (srcBuffs i) (random i) i messageSize) ++
    repeated runs (run srcBuffs dstBuffs nVfpga messageSize)

/-- The script `03_multitenancy`: each result is divided by a number of latencies. -/
def main (srcBuffs dstBuffs : ℕ → CoyoteBuffer) (random : ℕ → ℕ → RandInt 65 90)
    (nVfpga messageSize runs : ℕ) : List Stmt :=
  measure srcBuffs dstBuffs random nVfpga messageSize runs ++
    ((List.range nVfpga).map fun i latencies => latencies ⟨i, .localTransfer⟩).map .divide

/-- The counters of the transfers of one run. -/
def launches (nVfpga : ℕ) : List Counter :=
  (List.replicate batchedTransfers (counters nVfpga .localTransfer)).flatten

theorem abstract_transfers (srcBuffs dstBuffs : ℕ → CoyoteBuffer) (nVfpga messageSize : ℕ) :
    abstract (transfers srcBuffs dstBuffs nVfpga messageSize) = (launches nVfpga).map .launch := by
  rw [transfers, launches, repeated]
  induction batchedTransfers with
  | zero => rfl
  | succ n ih =>
      rw [List.replicate_succ, List.flatten_cons, abstract_append, ih, List.replicate_succ,
        List.flatten_cons, List.map_append]
      congr 1
      rw [abstract, List.flatMap_map, counters, List.map_map, List.map_eq_flatMap]
      rfl

theorem count_launches {nVfpga i : ℕ} (hi : i ∈ List.range nVfpga) :
    (launches nVfpga).count ⟨i, .localTransfer⟩ = batchedTransfers := by
  rw [launches, List.count_flatten, List.map_replicate, List.sum_replicate_nat,
    List.count_eq_one_of_mem (nodup_counters _ _) (List.mem_map_of_mem hi), Nat.mul_one]

theorem counter_test (i : ℕ) :
    (Test.equals i "local_transfer" batchedTransfers).counter = ⟨i, .localTransfer⟩ := by
  simp [Test.counter, Test.equals, completedOper_localTransfer]

theorem tests_counters (nVfpga : ℕ) :
    (tests nVfpga).map Test.counter = counters nVfpga .localTransfer := by
  rw [tests, List.map_map]
  exact List.map_congr_left fun i _ => counter_test i

/-- A run appends one latency for each thread. -/
theorem appended_run (srcBuffs dstBuffs : ℕ → CoyoteBuffer) {nVfpga i : ℕ} (hi : i < nVfpga)
    (messageSize : ℕ) :
    appended ⟨i, .localTransfer⟩ (run srcBuffs dstBuffs nVfpga messageSize) = 1 := by
  have hclears : appended ⟨i, .localTransfer⟩ ((List.range nVfpga).map clearCompleted) = 0 := by
    refine appended_eq_zero fun stmt hstmt => ?_
    obtain ⟨j, -, rfl⟩ := List.mem_map.mp hstmt
    rfl
  have hcalls : appended ⟨i, .localTransfer⟩
      (transfers srcBuffs dstBuffs nVfpga messageSize) = 0 := by
    refine appended_eq_zero fun stmt hstmt => ?_
    obtain ⟨block, hblock, hstmt⟩ := List.mem_flatten.mp hstmt
    rw [List.eq_of_mem_replicate hblock] at hstmt
    obtain ⟨j, -, rfl⟩ := List.mem_map.mp hstmt
    rfl
  have hgather : appended ⟨i, .localTransfer⟩ [.gather (tests nVfpga)] = 1 := by
    rw [appended, appended, Stmt.gather, Stmt.appends, tests_counters, Nat.add_zero]
    exact List.count_eq_one_of_mem (nodup_counters _ _)
      (List.mem_map_of_mem (List.mem_range.mpr hi))
  rw [run, appended_append, appended_append, hclears, hcalls, hgather]

theorem appended_measure (srcBuffs dstBuffs : ℕ → CoyoteBuffer) (random : ℕ → ℕ → RandInt 65 90)
    {nVfpga i : ℕ} (hi : i < nVfpga) (messageSize runs : ℕ) :
    appended ⟨i, .localTransfer⟩ (measure srcBuffs dstBuffs random nVfpga messageSize runs) =
      runs := by
  have hsetup : appended ⟨i, .localTransfer⟩ ((List.range nVfpga).flatMap fun j =>
      setUp (srcBuffs j) (random j) j messageSize) = 0 := by
    refine appended_eq_zero fun stmt hstmt => ?_
    obtain ⟨j, -, hstmt⟩ := List.mem_flatMap.mp hstmt
    obtain hstmt | hstmt := List.mem_append.mp hstmt
    · obtain ⟨a, -, rfl⟩ := List.mem_map.mp hstmt
      rfl
    · obtain ⟨block, hblock, hstmt⟩ := List.mem_flatten.mp hstmt
      rw [List.eq_of_mem_replicate hblock] at hstmt
      rw [List.mem_singleton.mp hstmt]
      rfl
  rw [measure, appended_append, hsetup, appended_repeated, appended_run srcBuffs dstBuffs hi,
    Nat.mul_one, Nat.zero_add]

section Buffers
variable {srcBuffs dstBuffs : ℕ → CoyoteBuffer} {nVfpga messageSize : ℕ}
  (hsrc : ∀ i < nVfpga, Allocated (srcBuffs i) messageSize "char")
  (hdst : ∀ i < nVfpga, Allocated (dstBuffs i) messageSize "char")
include hsrc

/-- Capitals are characters. -/
theorem triple_setUp (random : ℕ → RandInt 65 90) {i : ℕ} (hi : i < nVfpga) :
    Triple [] [] (setUp (srcBuffs i) random i messageSize) := by
  refine (Triple.elements [] fun k hk => List.forall_mem_singleton.mpr ?_).append
    ((Triple.quiet [] rfl rfl (.method _) rfl rfl).repeated 2)
  have hrandom := (random k).property
  exact (writable_char_iff (hsrc i hi) hk _).mpr ⟨by omega, by omega⟩

include hdst

theorem steady_transfers :
    ∀ stmt ∈ transfers srcBuffs dstBuffs nVfpga messageSize, stmt.Steady := by
  intro stmt hstmt
  obtain ⟨block, hblock, hstmt⟩ := List.mem_flatten.mp hstmt
  rw [List.eq_of_mem_replicate hblock] at hstmt
  obtain ⟨i, hi, rfl⟩ := List.mem_map.mp hstmt
  have hi := List.mem_range.mp hi
  exact Stmt.steady_call (by simp [Operation.valid, validStream_host]) rfl
    (inBounds_localTransfer (hsrc i hi) (hdst i hi) le_rfl _ _)

theorem triple_run : Triple [] [] (run srcBuffs dstBuffs nVfpga messageSize) := by
  have hnodup := (tests_counters nVfpga).symm ▸ nodup_counters nVfpga .localTransfer
  refine (Triple.clears _ []).append (.batch (.inr ⟨rfl, hnodup⟩) (steady_transfers hsrc hdst)
    (abstract_transfers srcBuffs dstBuffs nVfpga messageSize) ?_ ?_ ?_ ?_ (by simp))
  · simp [tests, Test.equals, completedOper_localTransfer]
  · simp [tests, Test.equals]
  · intro t ht
    obtain ⟨i, hi, rfl⟩ := List.mem_map.mp ht
    rw [counter_test, count_launches hi]
    exact Test.decides (.beq _ _) (by decide)
  · intro k hk
    obtain ⟨block, hblock, hk⟩ := List.mem_flatten.mp hk
    rw [List.eq_of_mem_replicate hblock] at hk
    obtain ⟨i, hi, rfl⟩ := List.mem_map.mp hk
    exact ⟨_, List.mem_map_of_mem hi, counter_test i⟩

theorem triple_measure (random : ℕ → ℕ → RandInt 65 90) (runs : ℕ) :
    Triple [] [] (measure srcBuffs dstBuffs random nVfpga messageSize runs) :=
  (Triple.flatMap fun i hi => triple_setUp hsrc (random i) (List.mem_range.mp hi)).append
    ((triple_run hsrc hdst).repeated runs)

/-- `03_multitenancy` is correct for every number of threads, message size and
positive number of runs, and takes as many latencies of each thread as there are
runs. -/
theorem multitenancy_correct [CoyoteHeader] (random : ℕ → ℕ → RandInt 65 90) {runs : ℕ}
    (hruns : runs ≠ 0) :
    Correct (Cleared []) (main srcBuffs dstBuffs random nVfpga messageSize runs) ∧
      ∀ i : Fin nVfpga, Appends (main srcBuffs dstBuffs random nVfpga messageSize runs)
        ⟨i, .localTransfer⟩ runs := by
  have hmeasure := triple_measure hsrc hdst random runs
  have hdivisors : ∀ divisor ∈ (List.range nVfpga).map
      fun i (latencies : Counter → ℕ) => latencies ⟨i, .localTransfer⟩,
      divisor (fun k => appended k (measure srcBuffs dstBuffs random nVfpga messageSize runs)) ≠
        0 := by
    intro divisor hdivisor
    obtain ⟨i, hi, rfl⟩ := List.mem_map.mp hdivisor
    have happended := appended_measure srcBuffs dstBuffs random (List.mem_range.mp hi) messageSize
    exact (happended runs).trans_ne hruns
  refine ⟨hmeasure.correct_divisions hdivisors, fun i => ?_⟩
  have happends := hmeasure.appends_divisions hdivisors ⟨i, .localTransfer⟩
  rwa [appended_measure srcBuffs dstBuffs random i.isLt] at happends

end Buffers

theorem multitenancy_ends : ∃ s', @Reaches exampleHeader _
    (exampleStart (main (fun _ => exampleChars 2) (fun _ => exampleChars 2)
      (fun _ _ => ⟨65, by decide⟩) 3 2 2)) s' ∧ s'.code = [] ∧ s'.failed = false :=
  (@multitenancy_correct _ _ 3 2 (fun _ _ => ⟨rfl, by decide⟩) (fun _ _ => ⟨rfl, by decide⟩)
    exampleHeader _ 2 (by decide)).1 Card.counting _ _ (fun _ => rfl) (fun _ _ => rfl) _ .refl |>.2

end Multitenancy

end PyCoyote
