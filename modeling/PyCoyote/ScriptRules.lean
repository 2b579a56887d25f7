import PyCoyote.Script

/-!
# Rules for scripts

Triples for sound code: the threads whose counters are zero before and after.
Each rule is one pattern of the scripts, such as a batch of calls and the loop
that waits for it.
-/

namespace PyCoyote

open Library

namespace Script

/-- `get_completed(oper) == n` -/
def Test.equals (i : ℕ) (oper : String) (n : ℕ) : Test := ⟨i, oper, (· == n)⟩

/-- The truth value of `get_completed(oper)`. -/
def Test.nonzero (i : ℕ) (oper : String) : Test := ⟨i, oper, (· != 0)⟩

/-- `clear_completed` on a thread. -/
def clearCompleted (i : ℕ) : Stmt := .call i (.method .clearCompleted)

/-- A loop over `range(size)` whose body accesses elements. -/
def elements (size : ℕ) (body : ℕ → List Access) : List Stmt :=
  ((List.range size).flatMap body).map .access

/-- `for _ in range(n)` -/
def repeated (n : ℕ) (body : List Stmt) : List Stmt := (List.replicate n body).flatten

/-- A test decides at `n` when it does so on exact counts and `n` fits in 32 bits. -/
theorem Test.decides {t : Test} {n pending : ℕ} (h : Completion.Decides t.holds n pending)
    (hn : n < 2 ^ 32) : Completion.Decides t.condition.2 n pending := by
  refine h.through fun m hm => ?_
  rw [UInt32.toNat_ofNat']
  exact Nat.mod_eq_of_lt (hm.trans_lt hn)

theorem abstract_append (first second : List Stmt) :
    abstract (first ++ second) = abstract first ++ abstract second := List.flatMap_append

theorem abstract_cons (stmt : Stmt) (rest : List Stmt) :
    abstract (stmt :: rest) = stmt.abstract ++ abstract rest := rfl

/-- How many latencies the code appends to the list of `k`. -/
def appended (k : Counter) : List Stmt → ℕ
  | [] => 0
  | stmt :: rest => stmt.appends k + appended k rest

theorem appended_append (k : Counter) (first second : List Stmt) :
    appended k (first ++ second) = appended k first + appended k second := by
  induction first with
  | nil => exact (Nat.zero_add _).symm
  | cons stmt rest ih => rw [List.cons_append, appended, appended, ih, Nat.add_assoc]

theorem appended_repeated (k : Counter) (n : ℕ) (body : List Stmt) :
    appended k (repeated n body) = n * appended k body := by
  induction n with
  | zero => exact (Nat.zero_mul _).symm
  | succ n ih =>
      have hsplit : repeated (n + 1) body = body ++ repeated n body := by
        rw [repeated, List.replicate_succ, List.flatten_cons]
        rfl
      rw [hsplit, appended_append, ih, Nat.succ_mul, Nat.add_comm]

theorem appended_eq_zero {k : Counter} {code : List Stmt} (h : ∀ stmt ∈ code, stmt.appends k = 0) :
    appended k code = 0 := by
  induction code with
  | nil => rfl
  | cons stmt rest ih =>
      rw [appended, h stmt (by simp), ih fun u hu => h u (by simp [hu])]

theorem owed_abstract (k : Counter) (code : List Stmt) :
    Completion.owed k (abstract code) = appended k code := by
  induction code with
  | nil => rfl
  | cons stmt rest ih =>
      rw [abstract_cons, Completion.owed_append, ih, appended]
      congr 1
      cases stmt with
      | poll | collect | access => rfl
      | divide => exact (Nat.zero_add _).symm
      | call i op =>
          simp only [Stmt.abstract]
          split
          · rfl
          · split <;> rfl

theorem divides_append {latencies : Counter → ℕ} {first second : List Stmt}
    (h : Divides latencies first)
    (h' : Divides (fun k => latencies k + appended k first) second) :
    Divides latencies (first ++ second) := by
  induction first generalizing latencies with
  | nil => exact h'
  | cons stmt rest ih =>
      refine ⟨h.1, ih h.2 ?_⟩
      simpa only [appended, Nat.add_assoc] using h'

/-- The statement is sound and does not divide by zero, whatever the latencies. -/
def Stmt.Steady (stmt : Stmt) : Prop := stmt.Sound ∧ ∀ latencies, stmt.Divides latencies

theorem Stmt.steady_call {i : ℕ} {op : Operation} (hvalid : op.valid = true)
    (hcalls : op.callsCoyote = true) (hbounds : op.InBounds) : (Stmt.call i op).Steady :=
  ⟨⟨hvalid, hcalls, hbounds⟩, fun _ => trivial⟩

theorem divides_of_steady {code : List Stmt} (h : ∀ stmt ∈ code, stmt.Steady)
    (latencies : Counter → ℕ) : Divides latencies code := by
  induction code generalizing latencies with
  | nil => trivial
  | cons stmt rest ih =>
      exact ⟨(h stmt (by simp)).2 _, ih (fun u hu => h u (by simp [hu])) _⟩

/-- The counters of some threads are zero. -/
def Cleared (threads : List ℕ) (count : Counter → ℕ) : Prop :=
  ∀ k, k.thread ∈ threads → count k = 0

/-- Steady code that starts and ends with nothing in flight. It relies on zero
counters of the threads `before` and leaves zero those of the threads `after`. -/
structure Triple (before after : List ℕ) (code : List Stmt) : Prop where
  steady : ∀ stmt ∈ code, stmt.Steady
  counts : Completion.Triple (Cleared before) (Cleared after) (abstract code)

/-- A loop that waits for the tests in one of the two ways. -/
def Waiting (last : Stmt) (tests : List Test) : Prop :=
  last = .wait tests ∨ last = .gather tests ∧ (tests.map Test.counter).Nodup

theorem Waiting.steady {last : Stmt} {tests : List Test} (h : Waiting last tests)
    (hnames : ∀ t ∈ tests, (CThread.completedOper t.oper).isSome) : last.Steady := by
  obtain rfl | ⟨rfl, -⟩ := h
  · exact ⟨⟨hnames, hnames⟩, fun _ => trivial⟩
  · exact ⟨⟨hnames, by simp⟩, fun _ => trivial⟩

theorem Waiting.waits {last : Stmt} {tests : List Test} (h : Waiting last tests) :
    ∃ stmt, abstract [last] = [stmt] ∧ Completion.Waits stmt (tests.map Test.condition) := by
  obtain rfl | ⟨rfl, hnodup⟩ := h
  · exact ⟨_, rfl, .wait _⟩
  · have hkinds : (tests.map Test.condition).map Prod.fst = tests.map Test.counter := by simp
    refine ⟨.gather (tests.map Test.condition), ?_, .gather (hkinds ▸ hnodup)⟩
    rw [Completion.Stmt.gather, hkinds]
    rfl

/-- Code that starts with accesses, one of which raises, can fail. -/
theorem exists_failed [CoyoteHeader] {C : Card} {accesses : List Access}
    (h : ∃ a ∈ accesses, a.returns = false) {s : State C} {rest : List Stmt}
    (hcode : s.code = accesses.map .access ++ rest) : ∃ s', Reaches s s' ∧ s'.failed = true := by
  induction accesses generalizing s with
  | nil =>
      obtain ⟨a, ha, -⟩ := h
      cases ha
  | cons a accesses ih =>
      have hadvance : s.advance = some (if a.returns = true then
          { s with code := accesses.map .access ++ rest } else s.raise) := by
        simp only [State.advance, hcode, List.map_cons, List.cons_append]
      cases ha : a.returns with
      | true =>
          rw [ha, if_pos rfl] at hadvance
          have htail : ∃ b ∈ accesses, b.returns = false := by
            obtain ⟨b, hb, hfalse⟩ := h
            obtain rfl | hb := List.mem_cons.mp hb
            · rw [ha] at hfalse
              cases hfalse
            · exact ⟨b, hb, hfalse⟩
          obtain ⟨s', hreach, hfailed⟩ :=
            ih htail (s := { s with code := accesses.map .access ++ rest }) rfl
          exact ⟨s', .head (.advance hadvance) hreach, hfailed⟩
      | false =>
          rw [ha, if_neg Bool.false_ne_true] at hadvance
          exact ⟨s.raise, .single (.advance hadvance), rfl⟩

namespace Triple

variable {before mid after threads others : List ℕ}

theorem nil (threads : List ℕ) : Triple threads threads [] := ⟨by simp, .nil _⟩

theorem append {first second : List Stmt} (h : Triple before mid first)
    (h' : Triple mid after second) : Triple before after (first ++ second) := by
  refine ⟨fun stmt hstmt => ?_, ?_⟩
  · exact (List.mem_append.mp hstmt).elim (h.steady stmt) (h'.steady stmt)
  · rw [abstract_append]
    exact h.counts.append h'.counts

theorem weaken {code : List Stmt} {after' : List ℕ} (h : Triple before after code)
    (hsub : after' ⊆ after) : Triple before after' code :=
  ⟨h.steady, h.counts.consequence (fun _ hpre => hpre) fun _ hpost k hk => hpost k (hsub hk)⟩

theorem flatMap {α : Type} {xs : List α} {body : α → List Stmt}
    (h : ∀ x ∈ xs, Triple threads threads (body x)) :
    Triple threads threads (xs.flatMap body) := by
  induction xs with
  | nil => exact nil threads
  | cons x xs ih =>
      rw [List.flatMap_cons]
      exact (h x (by simp)).append (ih fun y hy => h y (by simp [hy]))

theorem repeated {body : List Stmt} (h : Triple threads threads body) (n : ℕ) :
    Triple threads threads (repeated n body) := by
  induction n with
  | zero => exact nil threads
  | succ n ih =>
      rw [Script.repeated, List.replicate_succ, List.flatten_cons]
      exact h.append ih

theorem access (threads : List ℕ) {a : Access} (h : a.returns = true) :
    Triple threads threads [.access a] :=
  ⟨List.forall_mem_singleton.mpr ⟨h, fun _ => trivial⟩, .need _ _⟩

theorem elements (threads : List ℕ) {size : ℕ} {body : ℕ → List Access}
    (h : ∀ i < size, ∀ a ∈ body i, a.returns = true) :
    Triple threads threads (elements size body) := by
  rw [Script.elements, List.map_eq_flatMap]
  refine flatMap fun a ha => access threads ?_
  obtain ⟨i, hi, ha⟩ := List.mem_flatMap.mp ha
  exact h i (List.mem_range.mp hi) a ha

/-- A call that is nothing to the counters. -/
theorem quiet {i : ℕ} {op : Operation} (threads : List ℕ) (hvalid : op.valid = true)
    (hcalls : op.callsCoyote = true) (hbounds : op.InBounds) (hlaunches : op.launches = none)
    (hclears : op.clears = false) : Triple threads threads [.call i op] := by
  refine ⟨List.forall_mem_singleton.mpr (Stmt.steady_call hvalid hcalls hbounds), ?_⟩
  simp only [abstract, List.flatMap_singleton, Stmt.abstract, hlaunches, hclears]
  exact .nil _

/-- A division by a number that is not zero. -/
theorem divide (threads : List ℕ) {n : ℕ} (h : n ≠ 0) :
    Triple threads threads [.divide fun _ => n] := by
  have hsteady : (Stmt.divide fun _ => n).Steady := ⟨trivial, fun _ => h⟩
  exact ⟨List.forall_mem_singleton.mpr hsteady, .nil _⟩

theorem clear (i : ℕ) (others : List ℕ) : Triple others (i :: others) [clearCompleted i] := by
  refine ⟨List.forall_mem_singleton.mpr (Stmt.steady_call rfl rfl (.method _)), ?_⟩
  refine (Completion.Triple.clear (Cleared (i :: others)) fun k => k.thread == i).consequence
    (fun issued hpre k hk => ?_) fun _ hpost => hpost
  by_cases hki : k.thread = i
  · simp [Completion.cleared, hki]
  · simp only [Completion.cleared, beq_iff_eq, if_neg hki]
    exact hpre k ((List.mem_cons.mp hk).resolve_left hki)

/-- Clear the counters of several threads. -/
theorem clears (threads others : List ℕ) :
    Triple others (threads ++ others) (threads.map clearCompleted) := by
  induction threads generalizing others with
  | nil => exact nil others
  | cons i threads ih =>
      refine ((clear i others).append (ih (i :: others))).weaken ?_
      simp

/-- Launch a batch on threads with cleared counters, and wait until all of it is
complete. -/
theorem batch {calls : List Stmt} {launches : List Counter} {tests : List Test}
    {last : Stmt} (hlast : Waiting last tests) (hcalls : ∀ stmt ∈ calls, stmt.Steady)
    (hlaunches : abstract calls = launches.map .launch)
    (hnames : ∀ t ∈ tests, (CThread.completedOper t.oper).isSome)
    (hclear : ∀ t ∈ tests, t.thread ∈ threads)
    (hcount : ∀ t ∈ tests, Completion.Decides t.condition.2 (launches.count t.counter)
      (launches.count t.counter))
    (hcover : ∀ k ∈ launches, ∃ t ∈ tests, t.counter = k)
    (hothers : ∀ i ∈ threads, i ∉ others) :
    Triple (threads ++ others) others (calls ++ [last]) := by
  refine ⟨?_, ?_⟩
  · intro stmt hstmt
    obtain hstmt | hstmt := List.mem_append.mp hstmt
    · exact hcalls stmt hstmt
    · rw [List.mem_singleton.mp hstmt]
      exact hlast.steady hnames
  · obtain ⟨stmt, hstmt, hwaits⟩ := hlast.waits
    rw [abstract_append, hlaunches, hstmt]
    refine (Completion.Triple.batch (Cleared others) hwaits ?_).consequence ?_ fun _ hpost => hpost
    · intro k hk
      obtain ⟨t, ht, rfl⟩ := hcover k hk
      exact List.mem_map_of_mem (List.mem_map_of_mem ht)
    · intro issued hpre
      refine ⟨fun c hc => ?_, fun k hk => ?_⟩
      · obtain ⟨t, ht, rfl⟩ := List.mem_map.mp hc
        have hzero : issued t.counter = 0 := hpre _ (List.mem_append_left _ (hclear t ht))
        rw [Completion.DecidesBatch, Test.condition_fst, hzero, Nat.zero_add]
        exact hcount t ht
      · have hnot : k ∉ launches := by
          intro hmem
          obtain ⟨t, ht, rfl⟩ := hcover k hmem
          exact hothers _ (hclear t ht) hk
        dsimp only
        rw [hpre k (List.mem_append_right _ hk), List.count_eq_zero_of_not_mem hnot]

variable [CoyoteHeader]

/-- Such code is a correct script where the counters that it relies on are zero. -/
theorem correct {code : List Stmt} (h : Triple before after code) :
    Correct (Cleared before) code :=
  correct_of_disciplined (fun stmt hstmt => (h.steady stmt hstmt).1)
    (divides_of_steady h.steady _) fun _ hpre => h.counts.disciplined hpre

section Divisions
variable {code : List Stmt} (h : Triple before after code) {divisors : List ((Counter → ℕ) → ℕ)}
  (hdivisors : ∀ divisor ∈ divisors, divisor (fun k => appended k code) ≠ 0)
include h hdivisors

omit [CoyoteHeader] in
/-- Such code may be followed by divisions that depend on the latencies. -/
theorem sound_divisions : (∀ stmt ∈ code ++ divisors.map .divide, stmt.Sound) ∧
    Divides (fun _ => 0) (code ++ divisors.map .divide) := by
  refine ⟨fun stmt hstmt => ?_, divides_append (divides_of_steady h.steady _) ?_⟩
  · obtain hstmt | hstmt := List.mem_append.mp hstmt
    · exact (h.steady stmt hstmt).1
    · obtain ⟨divisor, -, rfl⟩ := List.mem_map.mp hstmt
      trivial
  · simp only [Nat.zero_add]
    induction divisors with
    | nil => trivial
    | cons divisor divisors ih =>
        exact ⟨hdivisors divisor (by simp), ih fun d hd => hdivisors d (by simp [hd])⟩

theorem correct_divisions : Correct (Cleared before) (code ++ divisors.map .divide) := by
  obtain ⟨hsound, hdivides⟩ := h.sound_divisions hdivisors
  refine correct_of_disciplined hsound hdivides fun _ hpre => ?_
  have hnone : abstract (divisors.map Stmt.divide) = [] := by
    simp [abstract, List.flatMap_map, Stmt.abstract]
  rw [abstract_append, hnone, List.append_nil]
  exact h.counts.disciplined hpre

theorem appends_divisions (k : Counter) :
    Appends (code ++ divisors.map .divide) k (appended k code) := by
  obtain ⟨hsound, hdivides⟩ := h.sound_divisions hdivisors
  have hnone : appended k (divisors.map Stmt.divide) = 0 := by
    refine appended_eq_zero fun stmt hstmt => ?_
    obtain ⟨divisor, -, rfl⟩ := List.mem_map.mp hstmt
    rfl
  have howed := appends_owed hsound hdivides k
  rwa [owed_abstract, appended_append, hnone, Nat.add_zero] at howed

end Divisions

end Triple

end Script

end PyCoyote
