import PyCoyote.RdmaLink
import PyCoyote.ExampleScripts

/-!
# The RDMA benchmark

The scripts `client.py` and `server.py` of `09_perf_rdma`, for writes and reads.
With at least one run no assertion of either fails and neither waits for ever,
whatever the link does with the copies; the server may overwrite elements that
are still on their way back, but the client sets its own before it uses them.
-/

namespace PyCoyote.Rdma

open Library.RemoteCopy Script

/-- `run_benchmark` of each script. -/
def runBenchmark (rdmaBuff : Side → CoyoteBuffer) (operation : Bool)
    (size numTransfers numRuns : ℕ) : Side → List Stmt
  | .client =>
      (List.range size).map (fun i => .assign (rdmaBuff .client) i (if operation then i else 0)) ++
        (List.replicate numRuns ([.clearCompleted, .connSync] ++
          (List.replicate numTransfers (if operation then .rdmaWrite size else .rdmaRead size) ++
            [.untilCompleted numTransfers]))).flatten ++
        (if operation then []
        else (List.range size).map fun i => .assertEqual (rdmaBuff .client) i i)
  | .server =>
      (List.range size).map (fun i => .assign (rdmaBuff .server) i (if operation then 0 else i)) ++
        (List.replicate numRuns ([.clearCompleted, .connSync] ++
          (if operation then
            .untilCompleted numTransfers :: List.replicate numTransfers (.rdmaWrite size)
          else []))).flatten ++
        (if operation then (List.range size).map fun i => .assertEqual (rdmaBuff .server) i i
        else [])

/-- The scripts after `init_rdma`. -/
def main (rdmaBuff : Side → CoyoteBuffer) (operation : Bool) (minSize maxSize runs : ℕ)
    (hpos : 0 < minSize) (p : Side) : List Stmt :=
  ((sweep maxSize minSize hpos).flatMap fun size =>
    runBenchmark rdmaBuff operation size nThroughputReps runs p ++
      runBenchmark rdmaBuff operation size nLatencyReps runs p) ++ [.connSync]

/-- A round of the benchmark: the size and number of its transfers. -/
structure Round where
  size : ℕ
  numTransfers : ℕ

/-- The scripts for any rounds. -/
def program (rdmaBuff : Side → CoyoteBuffer) (operation : Bool) (runs : ℕ) (rounds : List Round)
    (p : Side) : List Stmt :=
  rounds.flatMap (fun r => runBenchmark rdmaBuff operation r.size r.numTransfers runs p) ++
    [.connSync]

theorem main_eq_program (rdmaBuff : Side → CoyoteBuffer) (operation : Bool)
    (minSize maxSize runs : ℕ) (hpos : 0 < minSize) (p : Side) :
    main rdmaBuff operation minSize maxSize runs hpos p = program rdmaBuff operation runs
      ((sweep maxSize minSize hpos).flatMap fun size =>
        [⟨size, nThroughputReps⟩, ⟨size, nLatencyReps⟩]) p := by
  rw [main, program, List.flatMap_assoc]
  congr 2
  funext size
  simp

/-- A party sets the elements that it transfers, or zeros. -/
def initCmds (operation : Bool) (p : Side) (size : ℕ) : List Cmd :=
  (List.range size).map fun i => .set i (if p = origin operation then ident i else 0)

/-- The party that receives the elements checks them. -/
def checkCmds (operation : Bool) (p : Side) (size : ℕ) : List Cmd :=
  if p = origin operation then [] else (List.range size).map fun i => .check i (ident i)

/-- Up to the first meeting of the rounds left. -/
def opening (operation : Bool) (p : Side) : List Round → List Cmd
  | [] => []
  | r :: _ => initCmds operation p r.size ++ [.clear]

/-- The epochs of a round: the last one goes over into the next round. -/
def roundEpochs (operation : Bool) (r : Round) (rest : List Round) : ℕ → List Epoch → List Epoch
  | 0, es => ⟨r.size, r.numTransfers, fun p =>
      checkCmds operation p r.size ++ opening operation p rest⟩ :: es
  | runs + 1, es => ⟨r.size, r.numTransfers, fun _ => [.clear]⟩ ::
      roundEpochs operation r rest runs es

/-- The epochs of all rounds, with one run more than `moreRuns` each. -/
def epochs (operation : Bool) (moreRuns : ℕ) : List Round → List Epoch
  | [] => []
  | r :: rest => roundEpochs operation r rest moreRuns (epochs operation moreRuns rest)

theorem runBenchmark_cmds (rdmaBuff : Side → CoyoteBuffer) (operation : Bool)
    (size numTransfers numRuns : ℕ) (p : Side) :
    (runBenchmark rdmaBuff operation size numTransfers numRuns p).map (Stmt.cmd p) =
      initCmds operation p size ++
        (List.replicate numRuns ([.clear, .sync] ++
          Epoch.body ⟨size, numTransfers, fun _ => []⟩ operation p)).flatten ++
        checkCmds operation p size := by
  cases p <;> cases operation <;>
    simp [runBenchmark, initCmds, checkCmds, origin, Epoch.body, Stmt.cmd, ident, Side.peer,
      List.map_flatten, Function.comp_def]

/-- The runs of a round and what follows them, as the epochs of the round. -/
theorem runs_eq_after (operation : Bool) (p : Side) (r : Round) (rest : List Round)
    (es : List Epoch) (moreRuns : ℕ) :
    (List.replicate (moreRuns + 1) ([.clear, .sync] ++
        Epoch.body ⟨r.size, r.numTransfers, fun _ => []⟩ operation p)).flatten ++
      (checkCmds operation p r.size ++ (opening operation p rest ++
        .sync :: after operation es p)) =
    .clear :: .sync :: after operation (roundEpochs operation r rest moreRuns es) p := by
  induction moreRuns with
  | zero => cases p <;> simp [roundEpochs, after, Epoch.body]
  | succ moreRuns ih =>
      rw [List.replicate_succ, List.flatten_cons, List.append_assoc, ih, roundEpochs, after]
      cases p <;> simp [Epoch.body]

/-- The commands of the scripts, as epochs. -/
theorem program_cmds (rdmaBuff : Side → CoyoteBuffer) (operation : Bool) (moreRuns : ℕ)
    (rounds : List Round) (p : Side) :
    (program rdmaBuff operation (moreRuns + 1) rounds p).map (Stmt.cmd p) =
      opening operation p rounds ++ .sync :: after operation (epochs operation moreRuns rounds) p := by
  induction rounds with
  | nil => rfl
  | cons r rest ih =>
      have hsplit : program rdmaBuff operation (moreRuns + 1) (r :: rest) p =
          runBenchmark rdmaBuff operation r.size r.numTransfers (moreRuns + 1) p ++
            program rdmaBuff operation (moreRuns + 1) rest p := by
        simp [program]
      rw [hsplit, List.map_append, ih, runBenchmark_cmds, opening, epochs, List.append_assoc,
        List.append_assoc, runs_eq_after, List.append_assoc]
      rfl

/-- Own commands compose. -/
theorem Goes.append {post : Node ℤ → Prop} {first second : List Cmd} {node : Node ℤ}
    (h : Goes (Goes post second) first node) : Goes post (first ++ second) node := by
  induction first generalizing node with
  | nil => exact h
  | cons cmd first ih =>
      cases cmd with
      | set i v => exact ih h
      | check i v => exact ⟨h.1, ih h.2⟩
      | clear => exact ih h
      | launch | poll | sync => exact h.elim

/-- Checks of elements that hold. -/
theorem Goes.checks {post : Node ℤ → Prop} {node : Node ℤ} (hpost : post node) (indices : List ℕ)
    (h : ∀ i ∈ indices, node.mem i = ident i) :
    Goes post (indices.map fun i => .check i (ident i)) node := by
  induction indices with
  | nil => exact hpost
  | cons i indices ih => exact ⟨h i (by simp), ih fun j hj => h j (by simp [hj])⟩

/-- Assignments give their elements the values and keep the others. -/
theorem Goes.sets {post : Node ℤ → Prop} {f : ℕ → ℤ} (indices : List ℕ) {node : Node ℤ}
    (h : ∀ node' : Node ℤ, (∀ i ∈ indices, node'.mem i = f i) →
      (∀ i ∉ indices, node'.mem i = node.mem i) → post node') :
    Goes post (indices.map fun i => .set i (f i)) node := by
  induction indices generalizing node with
  | nil => exact h node (by simp) fun _ _ => rfl
  | cons j indices ih =>
      refine ih fun node' hset hkeep => h node' (fun i hi => ?_) fun i hi => ?_
      · by_cases hmem : i ∈ indices
        · exact hset i hmem
        · obtain rfl := (List.mem_cons.mp hi).resolve_right hmem
          rw [hkeep i hmem]
          exact Function.update_self ..
      · simp only [List.mem_cons, not_or] at hi
        rw [hkeep i hi.2]
        exact Function.update_of_ne hi.1 _ _

/-- The opening of the rounds left makes a party ready for them. -/
theorem goes_opening (operation : Bool) (p : Side) (moreRuns : ℕ) (rounds : List Round)
    (node : Node ℤ) :
    Goes (Ready operation p (epochs operation moreRuns rounds)) (opening operation p rounds) node := by
  cases rounds with
  | nil => trivial
  | cons r rest =>
      refine .append (Goes.sets _ fun node' hset _ => ?_)
      have hready : node'.clear.count = 0 ∧ (p = origin operation → Holds r.size node'.clear) := by
        refine ⟨rfl, fun hp i hi => ?_⟩
        rw [Node.clear_mem, hset i (List.mem_range.mpr hi), if_pos hp]
      cases moreRuns with
      | zero => exact hready
      | succ moreRuns => exact hready

/-- What a party does between two rounds. -/
theorem goes_between (operation : Bool) (p : Side) (moreRuns : ℕ) (r : Round)
    (rest : List Round) {node : Node ℤ} (h : p ≠ origin operation → Holds r.size node) :
    Goes (Ready operation p (epochs operation moreRuns rest))
      (checkCmds operation p r.size ++ opening operation p rest) node := by
  refine .append ?_
  rw [checkCmds]
  split
  · exact goes_opening operation p moreRuns rest node
  · next hp =>
      exact .checks (goes_opening operation p moreRuns rest node) _
        fun i hi => h hp i (List.mem_range.mp hi)

/-- In a benchmark of reads the server writes nothing else into its buffer. -/
theorem honest_between (r : Round) (rest : List Round) :
    Honest (checkCmds false .server r.size ++ opening false .server rest) := by
  intro i v hmem
  cases rest with
  | nil => simp [checkCmds, origin, opening] at hmem
  | cons r' rest =>
      have hset : i < r'.size ∧ ident i = v := by
        simpa [checkCmds, origin, opening, initCmds] using hmem
      exact hset.2.symm

/-- The epochs of a round lead to each other and to the next round. -/
theorem chained_roundEpochs {operation : Bool} {r : Round} (hpos : 0 < r.numTransfers)
    (hlt : r.numTransfers < 2 ^ 32) {rest : List Round} {moreRuns : ℕ}
    (hrest : Chained operation (epochs operation moreRuns rest)) (runs : ℕ) :
    Chained operation (roundEpochs operation r rest runs (epochs operation moreRuns rest)) := by
  induction runs with
  | zero =>
      refine ⟨⟨hpos, hlt, fun node h => ?_, fun node h => ?_, ?_⟩, hrest⟩
      · exact goes_between operation .server moreRuns r rest fun _ => h
      · refine goes_between operation .client moreRuns r rest fun hp => h ?_
        cases operation with
        | true => exact absurd rfl hp
        | false => exact honest_between r rest
      · rintro rfl
        exact honest_between r rest
  | succ runs ih =>
      have hhonest : Honest [.clear] := by simp [Honest]
      have hready : ∀ p node, Holds r.size node →
          Ready operation p (roundEpochs operation r rest runs (epochs operation moreRuns rest))
            node.clear := by
        intro p node h
        cases runs <;> exact ⟨rfl, fun _ => h⟩
      exact ⟨⟨hpos, hlt, hready .server, fun node h => hready .client node (h hhonest),
        fun _ => hhonest⟩, ih⟩

theorem chained_epochs {operation : Bool} {moreRuns : ℕ} {rounds : List Round}
    (h : ∀ r ∈ rounds, 0 < r.numTransfers ∧ r.numTransfers < 2 ^ 32) :
    Chained operation (epochs operation moreRuns rounds) := by
  induction rounds with
  | nil => trivial
  | cons r rest ih =>
      obtain ⟨hpos, hlt⟩ := h r (by simp)
      exact chained_roundEpochs hpos hlt (ih fun r' hr' => h r' (by simp [hr'])) moreRuns

section Buffers
variable {rdmaBuff : Side → CoyoteBuffer} {maxSize : ℕ}
  (hbuff : ∀ p, Allocated (rdmaBuff p) maxSize "int") (hmax : maxSize * 4 < 2 ^ 32)
include hbuff hmax

/-- The buffers have the elements, which are integers of their type. -/
theorem fits_runBenchmark {operation : Bool} {size : ℕ} (hsize : size ≤ maxSize)
    (numTransfers numRuns : ℕ) (p : Side) :
    ∀ stmt ∈ runBenchmark rdmaBuff operation size numTransfers numRuns p, stmt.Fits rdmaBuff := by
  have hassign : ∀ i ∈ List.range size, ∀ v : ℤ, v = 0 ∨ v = i →
      (Stmt.assign (rdmaBuff p) i v).Fits rdmaBuff := by
    intro i hi v hv
    have hin := (List.mem_range.mp hi).trans_le hsize
    exact writable_int (hbuff p) hin ⟨by omega, by omega⟩
  have hassert : ∀ i ∈ List.range size, (Stmt.assertEqual (rdmaBuff p) i i).Fits rdmaBuff :=
    fun i hi => (hbuff p).readable ((List.mem_range.mp hi).trans_le hsize)
  have hbytes : FitsBytes rdmaBuff (size * 4) := by
    refine ⟨by omega, fun q => ?_⟩
    have hd : findDataType "int" = some ⟨"int32", "i", 4⟩ := by decide
    have hdtype := Option.some.inj ((hbuff q).dtype.symm.trans hd)
    rw [(hbuff q).len, hdtype]
    exact Nat.mul_le_mul_right 4 hsize
  intro stmt hstmt
  cases stmt with
  | rdmaWrite n | rdmaRead n =>
      have hn : n = size := by
        cases p <;> cases operation <;> simp_all [runBenchmark]
      rw [hn]
      exact hbytes
  | clearCompleted | connSync | untilCompleted => trivial
  | assign b i v =>
      have hmem : b = rdmaBuff p ∧ i ∈ List.range size ∧ (v = 0 ∨ v = i) := by
        cases p <;> cases operation <;> simp_all [runBenchmark, eq_comm]
      obtain ⟨rfl, hi, hv⟩ := hmem
      exact hassign i hi v hv
  | assertEqual b i v =>
      have hmem : b = rdmaBuff p ∧ i ∈ List.range size ∧ v = i := by
        cases p <;> cases operation <;> simp_all [runBenchmark, eq_comm]
      obtain ⟨rfl, hi, rfl⟩ := hmem
      exact hassert i hi

theorem fits_program {operation : Bool} {runs : ℕ} {rounds : List Round}
    (h : ∀ r ∈ rounds, r.size ≤ maxSize) (p : Side) :
    ∀ stmt ∈ program rdmaBuff operation runs rounds p, stmt.Fits rdmaBuff := by
  intro stmt hstmt
  obtain hstmt | hstmt := List.mem_append.mp hstmt
  · obtain ⟨r, hr, hstmt⟩ := List.mem_flatMap.mp hstmt
    exact fits_runBenchmark hbuff hmax (h r hr) _ _ p stmt hstmt
  · rw [List.mem_singleton.mp hstmt]
    trivial

/-- The two scripts are correct for any rounds of transfers that the buffers and a
32-bit counter can hold, if there is at least one run. -/
theorem program_correct [CoyoteHeader] (operation : Bool) {runs : ℕ} (hruns : 0 < runs)
    {rounds : List Round} (h : ∀ r ∈ rounds, r.size ≤ maxSize ∧
      0 < r.numTransfers ∧ r.numTransfers < 2 ^ 32) :
    Correct rdmaBuff (program rdmaBuff operation runs rounds) := by
  obtain ⟨moreRuns, rfl⟩ := Nat.exists_eq_succ_of_ne_zero (Nat.ne_of_gt hruns)
  have hstage : ∀ node : Side → Node ℤ, (∀ p, (node p).flight = []) → Stage operation
      ⟨fun p => (program rdmaBuff operation (moreRuns + 1) rounds p).map (Stmt.cmd p),
        node, false⟩ :=
    fun node hflight => .apart (chained_epochs fun r hr => (h r hr).2)
      (program_cmds rdmaBuff operation moreRuns rounds) hflight
      fun p => goes_opening operation p moreRuns rounds (node p)
  exact correct_of_stage (fits_program hbuff hmax fun r hr => (h r hr).1) hstage

/-- `09_perf_rdma` is correct for writes and for reads, for every range of sizes
whose bytes fit in 32 bits and every positive number of runs. -/
theorem perfRdma_correct [CoyoteHeader] (operation : Bool) {minSize runs : ℕ}
    (hpos : 0 < minSize) (hruns : 0 < runs) :
    Correct rdmaBuff (main rdmaBuff operation minSize maxSize runs hpos) := by
  rw [funext (main_eq_program rdmaBuff operation minSize maxSize runs hpos)]
  have hthroughput : 0 < nThroughputReps ∧ nThroughputReps < 2 ^ 32 := by decide
  have hlatency : 0 < nLatencyReps ∧ nLatencyReps < 2 ^ 32 := by decide
  refine program_correct hbuff hmax operation hruns fun r hr => ?_
  obtain ⟨size, hsize, hr⟩ := List.mem_flatMap.mp hr
  have hle := ((mem_sweep hpos).mp hsize).1
  simp only [List.mem_cons, List.not_mem_nil, or_false] at hr
  obtain rfl | rfl := hr
  · exact ⟨hle, hthroughput⟩
  · exact ⟨hle, hlatency⟩

end Buffers

/-- Writes of one to four elements, twice each, run to their end on a link that
does nothing but copy. -/
theorem perfRdma_ends : ∃ s', @Reaches exampleHeader Link.copying
    ⟨main (fun _ => exampleInts 4) true 1 4 2 (by decide),
      fun _ => ⟨⟨⟨"int32", "i", 4⟩, true⟩, []⟩, fun _ => ⟨fun _ => 0, 0, []⟩, false⟩ s' ∧
      (∀ p, s'.code p = []) ∧ s'.failed = false :=
  (@perfRdma_correct (fun _ => exampleInts 4) 4 (fun _ => ⟨rfl, by decide⟩) (by decide)
    exampleHeader true 1 2 (by decide) (by decide) Link.copying _ _
    (fun _ => rfl) (fun _ => rfl) _ .refl).2

end PyCoyote.Rdma
