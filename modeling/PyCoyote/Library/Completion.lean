import PyCoyote.Library.Transition
import Mathlib.Algebra.Order.BigOperators.Group.List
import Mathlib.Algebra.Order.Group.Nat

/-!
# Waiting for asynchronous operations by counting

A program launches operations that a device completes later, in any order. For
each kind the device counts the completions since the counter was last cleared,
and the program waits by testing counters, one after the other and from the
start again at the first test that fails. A program is disciplined when its
tests tell that as many are complete as it launched, and it clears counters and
needs quiet only where it has waited. Discipline is a property of the code
alone; it makes the needs hold in every interleaving with the device, and no
wait is for ever. A program may also record when each of several counters gets
where it waits for, and records each of them once.
-/

namespace Library.Completion

open Library.Transition

/-- A test of the counter of some kind. -/
abbrev Condition (κ : Type*) := κ × (ℕ → Bool)

/-- A statement of the program. `poll all left` has still to make the tests in
`left`; `collect all left pending` makes the tests over and over, has still to
make those in `left` this time, and records each kind in `pending` when its test
succeeds; `need ks` stands for code that relies on nothing of the kinds `ks`
being in flight. -/
inductive Stmt (κ : Type*) where
  | launch (k : κ)
  | clear (ks : κ → Bool)
  | poll (all left : List (Condition κ))
  | collect (all left : List (Condition κ)) (pending : List κ)
  | need (ks : κ → Bool)

/-- Wait until every test succeeds. -/
def Stmt.wait {κ : Type*} (conditions : List (Condition κ)) : Stmt κ := .poll conditions conditions

/-- Wait until every test has succeeded, and record each when it does. -/
def Stmt.gather {κ : Type*} (conditions : List (Condition κ)) : Stmt κ :=
  .collect conditions [] (conditions.map Prod.fst)

/-- While at most `pending` of `n` operations are in flight, the test accepts the
counter only when none is. -/
def Decides (test : ℕ → Bool) (n pending : ℕ) : Prop :=
  test n = true ∧ ∀ m < n, n ≤ m + pending → test m = false

theorem Decides.beq (n pending : ℕ) : Decides (· == n) n pending :=
  ⟨beq_self_eq_true n, fun _ hm _ => beq_false_of_ne hm.ne⟩

/-- One operation was launched, and the program waits for a count other than zero. -/
theorem Decides.ne_zero (pending : ℕ) : Decides (· != 0) 1 pending := by
  refine ⟨rfl, fun m hm _ => ?_⟩
  obtain rfl := Nat.lt_one_iff.mp hm
  rfl

theorem Decides.mono {test : ℕ → Bool} {n pending pending' : ℕ} (h : Decides test n pending)
    (hle : pending' ≤ pending) : Decides test n pending' :=
  ⟨h.1, fun m hm hn => h.2 m hm (by omega)⟩

/-- A test that sees the counter through a reading that is exact up to `n`. -/
theorem Decides.through {test : ℕ → Bool} {n pending : ℕ} (h : Decides test n pending)
    {read : ℕ → ℕ} (hread : ∀ m ≤ n, read m = m) :
    Decides (fun m => test (read m)) n pending := by
  refine ⟨?_, fun m hm hn => ?_⟩ <;> dsimp only
  · rw [hread n le_rfl]
    exact h.1
  · rw [hread m hm.le]
    exact h.2 m hm hn

/-- What is left of the program, how many operations of each kind are in
flight, the counters, and how often each kind was recorded. -/
structure State (κ : Type*) where
  code : List (Stmt κ)
  inflight : κ → ℕ
  count : κ → ℕ
  records : κ → ℕ

/-- The program goes on, or the device completes an operation. -/
inductive Label (κ : Type*) where
  | advance
  | complete (k : κ)

section Machine
variable {κ : Type*} [DecidableEq κ]

/-- One step of the program or the device. -/
def step (s : State κ) : Label κ → Option (State κ)
  | .advance =>
      match s.code with
      | [] => none
      | .launch k :: rest => some { s with
          code := rest
          inflight := Function.update s.inflight k (s.inflight k + 1) }
      | .clear ks :: rest => some { s with
          code := rest
          count := fun k => if ks k then 0 else s.count k }
      | .poll _ [] :: rest => some { s with code := rest }
      | .poll all (c :: left) :: rest =>
          if c.2 (s.count c.1) = true then some { s with code := .poll all left :: rest }
          else some { s with code := .poll all all :: rest }
      | .collect all [] pending :: rest =>
          if pending = [] then some { s with code := rest }
          else some { s with code := .collect all all pending :: rest }
      | .collect all (c :: left) pending :: rest =>
          if c.2 (s.count c.1) = true ∧ c.1 ∈ pending then some { s with
            code := .collect all left (pending.erase c.1) :: rest
            records := Function.update s.records c.1 (s.records c.1 + 1) }
          else some { s with code := .collect all left pending :: rest }
      | .need _ :: rest => some { s with code := rest }
  | .complete k =>
      if 0 < s.inflight k then some { s with
        inflight := Function.update s.inflight k (s.inflight k - 1)
        count := Function.update s.count k (s.count k + 1) }
      else none

/-- Nothing of the conditions' kinds is pending once these hold. -/
def settle (pending : κ → ℕ) (conditions : List (Condition κ)) (k : κ) : ℕ :=
  if k ∈ conditions.map Prod.fst then 0 else pending k

/-- The code waits for what it launched and relies on quiet only where it
waited. `issued` counts the launches since the last clear and `pending` those
that may be in flight. -/
def Disciplined : (κ → ℕ) → (κ → ℕ) → List (Stmt κ) → Prop
  | _, _, [] => True
  | issued, pending, .launch k :: rest =>
      Disciplined (Function.update issued k (issued k + 1))
        (Function.update pending k (pending k + 1)) rest
  | issued, pending, .clear ks :: rest =>
      (∀ k, ks k = true → pending k = 0) ∧
        Disciplined (fun k => if ks k then 0 else issued k) pending rest
  | issued, pending, .poll all left :: rest =>
      (∃ done, all = done ++ left ∧ ∀ c ∈ done, pending c.1 = 0) ∧
        (∀ c ∈ all, Decides c.2 (issued c.1) (pending c.1)) ∧
          Disciplined issued (settle pending all) rest
  | issued, pending, .collect all left records :: rest =>
      (left ⊆ all ∧ records ⊆ all.map Prod.fst ∧ records.Nodup ∧
        ∀ c ∈ all, c.1 ∉ records → pending c.1 = 0) ∧
        (∀ c ∈ all, Decides c.2 (issued c.1) (pending c.1)) ∧
          Disciplined issued (settle pending all) rest
  | issued, pending, .need ks :: rest =>
      (∀ k, ks k = true → pending k = 0) ∧ Disciplined issued pending rest

/-- What is issued is in flight or counted, and no more is in flight than pending. -/
structure Accounted (issued pending : κ → ℕ) (s : State κ) : Prop where
  total : ∀ k, s.count k + s.inflight k = issued k
  bound : ∀ k, s.inflight k ≤ pending k
  code : Disciplined issued pending s.code

/-- The state is accounted for by some record of the launches. -/
def Ok (s : State κ) : Prop := ∃ issued pending, Accounted issued pending s

/-- A test that succeeds settles its kind. -/
theorem settle_update (pending : κ → ℕ) {all : List (Condition κ)} {c : Condition κ}
    (hc : c ∈ all) : settle (Function.update pending c.1 0) all = settle pending all := by
  funext k
  by_cases hk : k = c.1
  · subst hk
    have hmem : c.1 ∈ all.map Prod.fst := List.mem_map_of_mem hc
    rw [settle, settle, if_pos hmem, if_pos hmem]
  · simp only [settle, Function.update_of_ne hk]

/-- A kind of no condition stays as it is, the others are quiet. -/
theorem settle_of_quiet {pending : κ → ℕ} {all : List (Condition κ)}
    (h : ∀ c ∈ all, pending c.1 = 0) : settle pending all = pending := by
  funext k
  by_cases hk : k ∈ all.map Prod.fst
  · obtain ⟨c, hc, rfl⟩ := List.mem_map.mp hk
    rw [settle, if_pos hk, h c hc]
  · rw [settle, if_neg hk]

omit [DecidableEq κ] in
/-- A test that succeeds shows that all that was issued is counted. -/
theorem inflight_eq_zero {count inflight issued pending : κ → ℕ} {c : Condition κ}
    (htotal : ∀ k, count k + inflight k = issued k) (hbound : ∀ k, inflight k ≤ pending k)
    (hissued : Decides c.2 (issued c.1) (pending c.1)) (htest : c.2 (count c.1) = true) :
    inflight c.1 = 0 := by
  have htotal := htotal c.1
  have hbound := hbound c.1
  by_contra hpos
  have hfalse := hissued.2 (count c.1) (by omega) (by omega)
  rw [hfalse] at htest
  cases htest

/-- A kind with nothing in flight has nothing pending. -/
theorem bound_update {inflight pending : κ → ℕ} (h : ∀ k, inflight k ≤ pending k) {k : κ}
    (hk : inflight k = 0) : ∀ j, inflight j ≤ Function.update pending k 0 j := by
  intro j
  by_cases hjk : j = k
  · rw [hjk, hk]
    exact Nat.zero_le _
  · rw [Function.update_of_ne hjk]
    exact h j

/-- A test decides as well when less is pending. -/
theorem decides_update {issued pending : κ → ℕ} {all : List (Condition κ)}
    (h : ∀ c ∈ all, Decides c.2 (issued c.1) (pending c.1)) (k : κ) :
    ∀ c ∈ all, Decides c.2 (issued c.1) (Function.update pending k 0 c.1) := by
  intro c hc
  refine (h c hc).mono ?_
  by_cases hck : c.1 = k
  · rw [hck, Function.update_self]
    exact Nat.zero_le _
  · rw [Function.update_of_ne hck]

variable {s s' : State κ} {issued pending : κ → ℕ}

/-- A step of the program keeps the account. -/
theorem Accounted.advance (h : Accounted issued pending s) (hstep : step s .advance = some s') :
    Ok s' := by
  obtain ⟨code, inflight, count, records⟩ := s
  obtain ⟨htotal, hbound, hcode⟩ := h
  cases code with
  | nil => cases hstep
  | cons stmt rest =>
      cases stmt with
      | launch k =>
          cases hstep
          refine ⟨_, _, ?_, ?_, hcode⟩
          · intro j
            by_cases hj : j = k
            · subst hj
              have := htotal j
              simp only [Function.update_self] at this ⊢
              omega
            · simpa only [Function.update_of_ne hj] using htotal j
          · intro j
            by_cases hj : j = k
            · subst hj
              simpa only [Function.update_self] using Nat.succ_le_succ (hbound j)
            · simpa only [Function.update_of_ne hj] using hbound j
      | clear ks =>
          cases hstep
          obtain ⟨hks, hrest⟩ := hcode
          refine ⟨_, pending, ?_, hbound, hrest⟩
          intro k
          by_cases hk : ks k = true
          · have hzero := hbound k
            rw [hks k hk] at hzero
            simpa [hk] using hzero
          · simpa [hk] using htotal k
      | need ks =>
          cases hstep
          exact ⟨issued, pending, htotal, hbound, hcode.2⟩
      | poll all left =>
          obtain ⟨⟨done, rfl, hdone⟩, hissued, hrest⟩ := hcode
          cases left with
          | nil =>
              cases hstep
              rw [List.append_nil] at hrest
              exact ⟨issued, pending, htotal, hbound, settle_of_quiet hdone ▸ hrest⟩
          | cons c left =>
              have hmem : c ∈ done ++ c :: left := by simp
              simp only [step] at hstep
              split at hstep
              · next htest =>
                  cases hstep
                  have hzero := inflight_eq_zero htotal hbound (hissued c hmem) htest
                  refine ⟨issued, Function.update pending c.1 0, htotal,
                    bound_update hbound hzero, ?_, decides_update hissued _, ?_⟩
                  · refine ⟨done ++ [c], by simp, ?_⟩
                    intro d hd
                    by_cases hdc : d.1 = c.1
                    · rw [hdc, Function.update_self]
                    · rw [Function.update_of_ne hdc]
                      obtain hd | hd := List.mem_append.mp hd
                      · exact hdone d hd
                      · rw [List.mem_singleton.mp hd] at hdc
                        exact absurd rfl hdc
                  · rw [settle_update pending hmem]
                    exact hrest
              · cases hstep
                exact ⟨issued, pending, htotal, hbound, ⟨[], rfl, by simp⟩, hissued, hrest⟩
      | collect all left records =>
          obtain ⟨⟨hleft, hpending, hnodup, hdone⟩, hissued, hrest⟩ := hcode
          cases left with
          | nil =>
              simp only [step] at hstep
              split at hstep
              · next hnil =>
                  cases hstep
                  subst hnil
                  refine ⟨issued, pending, htotal, hbound, ?_⟩
                  exact settle_of_quiet (fun c hc => hdone c hc List.not_mem_nil) ▸ hrest
              · cases hstep
                exact ⟨issued, pending, htotal, hbound,
                  ⟨List.Subset.refl _, hpending, hnodup, hdone⟩, hissued, hrest⟩
          | cons c left =>
              have hmem : c ∈ all := hleft List.mem_cons_self
              have hleft' : left ⊆ all := fun d hd => hleft (List.mem_cons_of_mem c hd)
              simp only [step] at hstep
              split at hstep
              · next htest =>
                  cases hstep
                  have hzero := inflight_eq_zero htotal hbound (hissued c hmem) htest.1
                  refine ⟨issued, Function.update pending c.1 0, htotal,
                    bound_update hbound hzero, ⟨hleft', ?_, hnodup.erase _, ?_⟩,
                    decides_update hissued _, ?_⟩
                  · exact fun k hk => hpending (List.mem_of_mem_erase hk)
                  · intro d hd hnot
                    by_cases hdc : d.1 = c.1
                    · rw [hdc, Function.update_self]
                    · rw [Function.update_of_ne hdc]
                      exact hdone d hd fun hmem' => hnot ((List.mem_erase_of_ne hdc).mpr hmem')
                  · rw [settle_update pending hmem]
                    exact hrest
              · cases hstep
                exact ⟨issued, pending, htotal, hbound, ⟨hleft', hpending, hnodup, hdone⟩,
                  hissued, hrest⟩

/-- A completion moves an operation from the flight to the counter. -/
theorem Accounted.complete (h : Accounted issued pending s) {k : κ}
    (hstep : step s (.complete k) = some s') : Accounted issued pending s' ∧ s'.code = s.code := by
  obtain ⟨hpos, heq⟩ := Option.ite_none_right_eq_some.mp hstep
  cases heq
  refine ⟨⟨?_, ?_, h.code⟩, rfl⟩
  · intro j
    by_cases hj : j = k
    · subst hj
      have := h.total j
      simp only [Function.update_self]
      omega
    · simpa only [Function.update_of_ne hj] using h.total j
  · intro j
    by_cases hj : j = k
    · subst hj
      have := h.bound j
      simp only [Function.update_self]
      omega
    · simpa only [Function.update_of_ne hj] using h.bound j

/-- Every step keeps the account. -/
theorem Ok.keep (h : Ok s) {l : Label κ} (hstep : step s l = some s') : Ok s' := by
  obtain ⟨issued, pending, hs⟩ := h
  cases l with
  | advance => exact hs.advance hstep
  | complete k => exact ⟨issued, pending, (hs.complete hstep).1⟩

/-- Where the program needs some kinds quiet, and where it clears their
counters, none of them is in flight. -/
theorem Ok.quiet (h : Ok s) {ks : κ → Bool} {rest : List (Stmt κ)}
    (hcode : s.code = .need ks :: rest ∨ s.code = .clear ks :: rest) {k : κ}
    (hk : ks k = true) : s.inflight k = 0 := by
  obtain ⟨issued, pending, hs⟩ := h
  have hdisciplined := hs.code
  have hzero : pending k = 0 := by
    obtain hcode | hcode := hcode <;> rw [hcode] at hdisciplined <;> exact hdisciplined.1 k hk
  exact Nat.le_zero.mp (hzero ▸ hs.bound k)

/-- A kind is recorded only while nothing of it is in flight. -/
theorem Ok.records_quiet (h : Ok s) (hstep : step s .advance = some s') {k : κ}
    (hk : s'.records k ≠ s.records k) : s.inflight k = 0 := by
  obtain ⟨issued, pending, hs⟩ := h
  obtain ⟨code, inflight, count, records⟩ := s
  obtain ⟨htotal, hbound, hcode⟩ := hs
  cases code with
  | nil => cases hstep
  | cons stmt rest =>
      cases stmt with
      | launch | clear | need =>
          cases hstep
          exact absurd rfl hk
      | poll all left =>
          cases left with
          | nil =>
              cases hstep
              exact absurd rfl hk
          | cons c left =>
              simp only [step] at hstep
              split at hstep <;> cases hstep <;> exact absurd rfl hk
      | collect all left pending =>
          cases left with
          | nil =>
              simp only [step] at hstep
              split at hstep <;> cases hstep <;> exact absurd rfl hk
          | cons c left =>
              simp only [step] at hstep
              split at hstep
              · next htest =>
                  cases hstep
                  by_cases hkc : k = c.1
                  · rw [hkc]
                    exact inflight_eq_zero htotal hbound
                      (hcode.2.1 c (hcode.1.1 List.mem_cons_self)) htest.1
                  · exact absurd (Function.update_of_ne hkc _ _) hk
              · cases hstep
                exact absurd rfl hk

/-- Where nothing of its kind is in flight, a test succeeds. -/
theorem Accounted.test_of_quiet (h : Accounted issued pending s) {c : Condition κ}
    (hissued : Decides c.2 (issued c.1) (pending c.1)) (hquiet : s.inflight c.1 = 0) :
    c.2 (s.count c.1) = true := by
  have htotal := h.total c.1
  rw [hquiet, Nat.add_zero] at htotal
  rw [htotal]
  exact hissued.1

/-- The device can complete everything of some kinds. -/
theorem exists_run_complete (s : State κ) (kinds : List κ) :
    ∃ labels s', run step s labels = some s' ∧ s'.code = s.code ∧
      ∀ k ∈ kinds, s'.inflight k = 0 := by
  have hprogress : ∀ u : State κ, u.code = s.code → (¬∀ k ∈ kinds, u.inflight k = 0) →
      ∃ l u', step u l = some u' ∧ u'.code = s.code ∧
        (kinds.map u'.inflight).sum < (kinds.map u.inflight).sum := by
    intro u hu hmore
    simp only [not_forall] at hmore
    obtain ⟨k, hk, hpos⟩ := hmore
    refine ⟨.complete k, _, if_pos (Nat.pos_of_ne_zero hpos), hu, ?_⟩
    apply List.sum_lt_sum
    · intro j _
      by_cases hj : j = k
      · simp [hj]
      · simp [Function.update_of_ne hj]
    · refine ⟨k, hk, ?_⟩
      dsimp only
      rw [Function.update_self]
      omega
  exact exists_run_of_rank (fun u : State κ => u.code = s.code)
    (fun u => ∀ k ∈ kinds, u.inflight k = 0) _ hprogress rfl

/-- A wait whose tests all succeed passes. -/
theorem run_poll {all left : List (Condition κ)} {rest : List (Stmt κ)}
    (hcode : s.code = .poll all left :: rest) (hleft : ∀ c ∈ left, c.2 (s.count c.1) = true) :
    run step s (List.replicate (left.length + 1) .advance) = some { s with code := rest } := by
  induction left generalizing s with
  | nil => simp [run, step, hcode]
  | cons c left ih =>
      have hfirst : step s .advance = some { s with code := .poll all left :: rest } := by
        simp [step, hcode, hleft c (by simp)]
      rw [List.length_cons, List.replicate_succ, run, hfirst]
      exact ih rfl fun d hd => hleft d (by simp [hd])

/-- One pass over tests that all succeed leaves none of their kinds pending. -/
theorem run_collect {all left : List (Condition κ)} {pending : List κ} {rest : List (Stmt κ)}
    (hcode : s.code = .collect all left pending :: rest) (hnodup : pending.Nodup)
    (hleft : ∀ c ∈ left, c.2 (s.count c.1) = true) :
    ∃ labels pending' s', run step s labels = some s' ∧ s'.code = .collect all [] pending' :: rest ∧
      s'.count = s.count ∧ pending'.Nodup ∧ pending' ⊆ pending ∧ ∀ c ∈ left, c.1 ∉ pending' := by
  induction left generalizing s pending with
  | nil => exact ⟨[], pending, s, rfl, hcode, rfl, hnodup, List.Subset.refl _, by simp⟩
  | cons c left ih =>
      have hfirst : ∃ mid, step s .advance = some mid ∧
          mid.code = .collect all left (pending.erase c.1) :: rest ∧ mid.count = s.count := by
        by_cases hc : c.1 ∈ pending
        · have htest : c.2 (s.count c.1) = true ∧ c.1 ∈ pending := ⟨hleft c (by simp), hc⟩
          refine ⟨{ s with
            code := .collect all left (pending.erase c.1) :: rest
            records := Function.update s.records c.1 (s.records c.1 + 1) }, ?_, rfl, rfl⟩
          simp only [step, hcode, if_pos htest]
        · have htest : ¬(c.2 (s.count c.1) = true ∧ c.1 ∈ pending) := fun h => hc h.2
          refine ⟨{ s with code := .collect all left pending :: rest }, ?_, ?_, rfl⟩
          · simp only [step, hcode, if_neg htest]
          · rw [List.erase_of_not_mem hc]
      obtain ⟨mid, hmid, hmidcode, hcount⟩ := hfirst
      obtain ⟨labels, pending', s', hrun, hcode', hcount', hnodup', hsub, hnot⟩ :=
        ih hmidcode (hnodup.erase _) fun d hd => by
          rw [hcount]
          exact hleft d (by simp [hd])
      refine ⟨.advance :: labels, pending', s', ?_, hcode', hcount'.trans hcount, hnodup',
        fun k hk => List.mem_of_mem_erase (hsub hk), ?_⟩
      · rw [run, hmid]
        exact hrun
      · intro d hd
        obtain rfl | hd := List.mem_cons.mp hd
        · exact fun hk => hnodup.not_mem_erase (hsub hk)
        · exact hnot d hd

/-- A loop that collects successes ends once all tests succeed: after the pass
that it is in, one more pass meets every test. -/
theorem exists_run_collect {all left : List (Condition κ)} {pending : List κ}
    {rest : List (Stmt κ)} (hcode : s.code = .collect all left pending :: rest)
    (hleft : left ⊆ all) (hpending : pending ⊆ all.map Prod.fst) (hnodup : pending.Nodup)
    (htests : ∀ c ∈ all, c.2 (s.count c.1) = true) :
    ∃ labels s', run step s labels = some s' ∧ s'.code = rest := by
  obtain ⟨labels, pending', mid, hrun, hmid, hcount, hnodup', hsub, -⟩ :=
    run_collect hcode hnodup fun c hc => htests c (hleft hc)
  by_cases hnil : pending' = []
  · refine ⟨labels ++ [.advance], { mid with code := rest }, ?_, rfl⟩
    rw [run_append, hrun]
    simp [run, step, hmid, hnil]
  · have hagain : step mid .advance =
        some { mid with code := .collect all all pending' :: rest } := by
      simp [step, hmid, hnil]
    obtain ⟨labels', pending'', last, hrun', hlast, -, -, hsub', hnot⟩ :=
      run_collect (s := { mid with code := .collect all all pending' :: rest }) rfl hnodup'
        fun c hc => by
          rw [hcount]
          exact htests c hc
    have hdone : pending'' = [] := by
      rw [List.eq_nil_iff_forall_not_mem]
      intro k hk
      obtain ⟨c, hc, rfl⟩ := List.mem_map.mp (hpending (hsub (hsub' hk)))
      exact hnot c hc hk
    refine ⟨labels ++ (.advance :: (labels' ++ [.advance])), { last with code := rest }, ?_, rfl⟩
    rw [run_append, hrun, Option.bind_some, run, hagain, Option.bind_some, run_append, hrun']
    simp [run, step, hlast, hdone]

/-- Reachable states stay accounted for. -/
theorem Ok.keep_run (h : Ok s) (labels : List (Label κ)) (hrun : run step s labels = some s') :
    Ok s' := by
  induction labels generalizing s with
  | nil =>
      obtain rfl := Option.some.inj hrun
      exact h
  | cons l rest ih =>
      obtain ⟨mid, hmid, hrest⟩ := Option.bind_eq_some_iff.mp hrun
      exact ih (h.keep hmid) hrest

/-- The program can get past its next statement. -/
theorem Ok.exists_next (h : Ok s) {stmt : Stmt κ} {rest : List (Stmt κ)}
    (hcode : s.code = stmt :: rest) :
    ∃ labels s', run step s labels = some s' ∧ s'.code = rest := by
  cases stmt with
  | launch k => exact ⟨[.advance], _, by simp only [run, step, hcode]; rfl, rfl⟩
  | clear ks => exact ⟨[.advance], _, by simp only [run, step, hcode]; rfl, rfl⟩
  | need ks => exact ⟨[.advance], _, by simp only [run, step, hcode]; rfl, rfl⟩
  | poll all left =>
      obtain ⟨labels, mid, hrun, hsame, hquiet⟩ := exists_run_complete s (all.map Prod.fst)
      have hmid := hsame.trans hcode
      obtain ⟨issued, pending, hok⟩ := h.keep_run labels hrun
      have hdisciplined := hok.code
      rw [hmid] at hdisciplined
      obtain ⟨⟨done, hall, -⟩, hissued, -⟩ := hdisciplined
      have htests : ∀ c ∈ left, c.2 (mid.count c.1) = true := by
        intro c hc
        have hmem : c ∈ all := hall ▸ List.mem_append_right _ hc
        exact hok.test_of_quiet (hissued c hmem) (hquiet c.1 (List.mem_map_of_mem hmem))
      refine ⟨labels ++ List.replicate (left.length + 1) .advance, { mid with code := rest }, ?_, rfl⟩
      rw [run_append, hrun]
      exact run_poll hmid htests
  | collect all left pending =>
      obtain ⟨labels, mid, hrun, hsame, hquiet⟩ := exists_run_complete s (all.map Prod.fst)
      have hmid := hsame.trans hcode
      obtain ⟨issued, pending, hok⟩ := h.keep_run labels hrun
      have hdisciplined := hok.code
      rw [hmid] at hdisciplined
      obtain ⟨⟨hleft, hpending, hnodup, -⟩, hissued, -⟩ := hdisciplined
      obtain ⟨labels', s', hrun', hcode'⟩ := exists_run_collect hmid hleft hpending hnodup
        fun c hc => hok.test_of_quiet (hissued c hc) (hquiet c.1 (List.mem_map_of_mem hc))
      refine ⟨labels ++ labels', s', ?_, hcode'⟩
      rw [run_append, hrun]
      exact hrun'

/-- A disciplined program never waits for ever: it can always run to its end. -/
theorem Ok.exists_done (h : Ok s) :
    ∃ labels s', run step s labels = some s' ∧ s'.code = [] := by
  induction hcode : s.code generalizing s with
  | nil => exact ⟨[], s, rfl, hcode⟩
  | cons stmt rest ih =>
      obtain ⟨labels, mid, hrun, hmid⟩ := h.exists_next hcode
      obtain ⟨labels', s', hrun', hdone⟩ := ih (h.keep_run labels hrun) hmid
      refine ⟨labels ++ labels', s', ?_, hdone⟩
      rw [run_append, hrun]
      exact hrun'

/-- How often a statement has still to record a kind. -/
def Stmt.owed (k : κ) : Stmt κ → ℕ
  | .collect _ _ pending => pending.count k
  | _ => 0

/-- How often the code has still to record a kind. -/
def owed (k : κ) : List (Stmt κ) → ℕ
  | [] => 0
  | stmt :: rest => stmt.owed k + owed k rest

theorem owed_append (k : κ) (first second : List (Stmt κ)) :
    owed k (first ++ second) = owed k first + owed k second := by
  induction first with
  | nil => exact (Nat.zero_add _).symm
  | cons stmt rest ih => rw [List.cons_append, owed, owed, ih, Nat.add_assoc]

/-- What is recorded is not owed any more. -/
theorem step_records {l : Label κ} (hstep : step s l = some s') (k : κ) :
    s'.records k + owed k s'.code = s.records k + owed k s.code := by
  obtain ⟨code, inflight, count, records⟩ := s
  cases l with
  | complete j =>
      obtain ⟨-, heq⟩ := Option.ite_none_right_eq_some.mp hstep
      cases heq
      rfl
  | advance =>
      cases code with
      | nil => cases hstep
      | cons stmt rest =>
          cases stmt with
          | launch | clear | need =>
              cases hstep
              simp [owed, Stmt.owed]
          | poll all left =>
              cases left with
              | nil =>
                  cases hstep
                  simp [owed, Stmt.owed]
              | cons c left =>
                  simp only [step] at hstep
                  split at hstep <;> cases hstep <;> rfl
          | collect all left pending =>
              cases left with
              | nil =>
                  simp only [step] at hstep
                  split at hstep
                  · next hnil =>
                      cases hstep
                      simp [owed, Stmt.owed, hnil]
                  · cases hstep
                    rfl
              | cons c left =>
                  simp only [step] at hstep
                  split at hstep
                  · next htest =>
                      cases hstep
                      by_cases hk : k = c.1
                      · subst hk
                        have hpos := List.count_pos_iff.mpr htest.2
                        simp only [owed, Stmt.owed, Function.update_self,
                          List.count_erase_self]
                        omega
                      · simp only [owed, Stmt.owed, Function.update_of_ne hk,
                          List.count_erase_of_ne hk]
                  · cases hstep
                    rfl

/-- Less that is pending does no harm. -/
theorem Disciplined.mono {pending' : κ → ℕ} {code : List (Stmt κ)}
    (h : Disciplined issued pending code) (hle : ∀ k, pending' k ≤ pending k) :
    Disciplined issued pending' code := by
  induction code generalizing issued pending pending' with
  | nil => trivial
  | cons stmt rest ih =>
      have hzero : ∀ k, pending k = 0 → pending' k = 0 := fun k hk =>
        Nat.le_zero.mp (hk ▸ hle k)
      have hsettle : ∀ (all : List (Condition κ)) k, settle pending' all k ≤ settle pending all k := by
        intro all k
        rw [settle, settle]
        split
        · exact le_rfl
        · exact hle k
      cases stmt with
      | launch k =>
          refine ih h fun j => ?_
          by_cases hjk : j = k
          · subst hjk
            simpa only [Function.update_self] using Nat.succ_le_succ (hle j)
          · simpa only [Function.update_of_ne hjk] using hle j
      | clear ks => exact ⟨fun k hk => hzero k (h.1 k hk), ih h.2 hle⟩
      | need ks => exact ⟨fun k hk => hzero k (h.1 k hk), ih h.2 hle⟩
      | poll all left =>
          obtain ⟨⟨done, hall, hdone⟩, hissued, hrest⟩ := h
          exact ⟨⟨done, hall, fun c hc => hzero _ (hdone c hc)⟩,
            fun c hc => (hissued c hc).mono (hle c.1), ih hrest (hsettle all)⟩
      | collect all left records =>
          obtain ⟨⟨hleft, hpending, hnodup, hdone⟩, hissued, hrest⟩ := h
          exact ⟨⟨hleft, hpending, hnodup, fun c hc hnot => hzero _ (hdone c hc hnot)⟩,
            fun c hc => (hissued c hc).mono (hle c.1), ih hrest (hsettle all)⟩

/-- A batch of launches. -/
theorem disciplined_launches {launches : List κ} {rest : List (Stmt κ)}
    (h : Disciplined (fun k => issued k + launches.count k)
      (fun k => pending k + launches.count k) rest) :
    Disciplined issued pending (launches.map .launch ++ rest) := by
  induction launches generalizing issued pending with
  | nil => simpa using h
  | cons k launches ih =>
      have hcons : ∀ f : κ → ℕ, (fun j => Function.update f k (f k + 1) j + launches.count j) =
          fun j => f j + (k :: launches).count j := by
        intro f
        funext j
        by_cases hj : j = k
        · subst hj
          rw [Function.update_self, List.count_cons_self]
          omega
        · rw [Function.update_of_ne hj, List.count_cons_of_ne (Ne.symm hj)]
      apply ih
      rw [hcons, hcons]
      exact h

/-- Nothing is pending. -/
def idle : κ → ℕ := fun _ => 0

/-- The statement settles the kinds of the conditions, which decide. -/
def Waits (stmt : Stmt κ) (conditions : List (Condition κ)) : Prop :=
  ∀ issued pending rest, (∀ c ∈ conditions, Decides c.2 (issued c.1) (pending c.1)) →
    Disciplined issued (settle pending conditions) rest → Disciplined issued pending (stmt :: rest)

theorem Waits.wait (conditions : List (Condition κ)) : Waits (.wait conditions) conditions :=
  fun _ _ _ hissued hrest => ⟨⟨[], rfl, by simp⟩, hissued, hrest⟩

theorem Waits.gather {conditions : List (Condition κ)} (h : (conditions.map Prod.fst).Nodup) :
    Waits (.gather conditions) conditions := by
  refine fun _ _ _ hissued hrest => ⟨⟨List.nil_subset _, List.Subset.refl _, h, ?_⟩, hissued, hrest⟩
  exact fun c hc hnot => absurd (List.mem_map_of_mem hc) hnot

/-- The test of a condition decides for a batch of launches. -/
def DecidesBatch (issued : κ → ℕ) (launches : List κ) (c : Condition κ) : Prop :=
  Decides c.2 (issued c.1 + launches.count c.1) (launches.count c.1)

/-- Launch a batch and wait for all of it. -/
theorem disciplined_batch {launches : List κ} {conditions : List (Condition κ)} {last : Stmt κ}
    {rest : List (Stmt κ)} (hlast : Waits last conditions)
    (hcount : ∀ c ∈ conditions, DecidesBatch issued launches c)
    (hcover : ∀ k ∈ launches, k ∈ conditions.map Prod.fst)
    (hrest : Disciplined (fun k => issued k + launches.count k) idle rest) :
    Disciplined issued idle (launches.map .launch ++ last :: rest) := by
  refine disciplined_launches (hlast _ _ _ (fun c hc => ?_) (hrest.mono fun k => ?_))
  · rw [idle, Nat.zero_add]
    exact hcount c hc
  · rw [settle]
    split
    · exact le_rfl
    · next hk =>
        have hnot : k ∉ launches := fun hmem => hk (hcover k hmem)
        simp only [idle, List.count_eq_zero_of_not_mem hnot, Nat.add_zero, le_refl]

/-- The counters after a clear. -/
def cleared (ks : κ → Bool) (issued : κ → ℕ) : κ → ℕ := fun k => if ks k then 0 else issued k

/-- A block of code that runs from nothing in flight to nothing in flight, with
conditions on the counters before and after. -/
def Triple (pre post : (κ → ℕ) → Prop) (block : List (Stmt κ)) : Prop :=
  ∀ issued rest, pre issued → (∀ issued', post issued' → Disciplined issued' idle rest) →
    Disciplined issued idle (block ++ rest)

namespace Triple

variable {pre mid post : (κ → ℕ) → Prop}

theorem nil (pre : (κ → ℕ) → Prop) : Triple pre pre [] := fun _ _ hpre h => h _ hpre

theorem need (pre : (κ → ℕ) → Prop) (ks : κ → Bool) : Triple pre pre [.need ks] :=
  fun _ _ hpre h => ⟨fun _ _ => rfl, h _ hpre⟩

theorem clear (post : (κ → ℕ) → Prop) (ks : κ → Bool) :
    Triple (fun issued => post (cleared ks issued)) post [.clear ks] :=
  fun _ _ hpre h => ⟨fun _ _ => rfl, h _ hpre⟩

theorem append {first second : List (Stmt κ)} (h : Triple pre mid first)
    (h' : Triple mid post second) : Triple pre post (first ++ second) := by
  intro issued rest hpre hrest
  rw [List.append_assoc]
  exact h _ _ hpre fun issued' hmid => h' _ _ hmid hrest

theorem consequence {pre' post' : (κ → ℕ) → Prop} {block : List (Stmt κ)}
    (h : Triple pre post block) (hpre : ∀ issued, pre' issued → pre issued)
    (hpost : ∀ issued, post issued → post' issued) : Triple pre' post' block :=
  fun _ _ hpre' hrest => h _ _ (hpre _ hpre') fun _ hpost' => hrest _ (hpost _ hpost')

/-- Launch a batch and wait for all of it. -/
theorem batch (post : (κ → ℕ) → Prop) {launches : List κ} {conditions : List (Condition κ)}
    {last : Stmt κ} (hlast : Waits last conditions)
    (hcover : ∀ k ∈ launches, k ∈ conditions.map Prod.fst) :
    Triple (fun issued => (∀ c ∈ conditions, DecidesBatch issued launches c) ∧
      post fun k => issued k + launches.count k) post (launches.map .launch ++ [last]) := by
  intro issued rest hpre hrest
  rw [List.append_assoc]
  exact disciplined_batch hlast hpre.1 hcover (hrest _ hpre.2)

/-- Discipline of a whole program. -/
theorem disciplined {code : List (Stmt κ)} (h : Triple pre post code) {issued : κ → ℕ}
    (hpre : pre issued) : Disciplined issued idle code := by
  have hcode := h issued [] hpre fun _ _ => trivial
  rwa [List.append_nil] at hcode

end Triple

end Machine

end Library.Completion
