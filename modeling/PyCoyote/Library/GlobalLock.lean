import Mathlib.Logic.Function.Basic
import Mathlib.Logic.Relation
import Mathlib.Order.WellFounded

/-!
# Threads under one lock

Each thread has a list of instructions left to run; some acquire or release
the one lock, the others act. Code is disciplined when it acquires the lock
only while not owning it, releases it only while owning it and reaches the
guarded acts only while owning it. Discipline is a property of each thread's
own code, and the steps of any interleaving keep it.
-/

namespace Library.GlobalLock

/-- An instruction: an operation on the lock or an act. -/
inductive Instr (α : Type*) where
  | acquire
  | release
  | act (a : α)
deriving DecidableEq, Repr

variable {τ α : Type*}

/-- Code that follows the lock's rules, run by a thread that owns the lock or not. -/
def Disciplined (guarded : α → Bool) : Bool → List (Instr α) → Prop
  | _, [] => True
  | owns, .acquire :: rest => owns = false ∧ Disciplined guarded true rest
  | owns, .release :: rest => owns = true ∧ Disciplined guarded false rest
  | owns, .act a :: rest => (guarded a = true → owns = true) ∧ Disciplined guarded owns rest

/-- Acts in front of disciplined code leave it disciplined if the lock is owned. -/
theorem Disciplined.append_acts {guarded : α → Bool} {code : List (Instr α)}
    (h : Disciplined guarded true code) (acts : List α) :
    Disciplined guarded true (acts.map .act ++ code) := by
  induction acts with
  | nil => exact h
  | cons a rest ih => exact ⟨fun _ => rfl, ih⟩

/-- The owner of the lock and what is left of each thread's code. -/
structure Threads (τ α : Type*) where
  owner : Option τ
  code : τ → List (Instr α)

namespace Threads

variable [DecidableEq τ]

/-- Thread `t` runs its next instruction; the result names the act, if it is one. -/
def exec (T : Threads τ α) (t : τ) : Option (Option α × Threads τ α) :=
  match T.code t with
  | [] => none
  | .acquire :: rest =>
      if T.owner = none then some (none, ⟨some t, Function.update T.code t rest⟩) else none
  | .release :: rest =>
      if T.owner = some t then some (none, ⟨none, Function.update T.code t rest⟩) else none
  | .act a :: rest => some (some a, ⟨T.owner, Function.update T.code t rest⟩)

/-- Replace the code of a thread. -/
def assign (T : Threads τ α) (t : τ) (code : List (Instr α)) : Threads τ α :=
  { T with code := Function.update T.code t code }

/-- The owner gives the lock up and must take it again before it goes on. -/
def giveUp (T : Threads τ α) (t : τ) : Threads τ α where
  owner := none
  code := Function.update T.code t (.acquire :: T.code t)

@[simp] theorem assign_owner (T : Threads τ α) (t : τ) (code : List (Instr α)) :
    (T.assign t code).owner = T.owner := rfl

@[simp] theorem assign_code_self (T : Threads τ α) (t : τ) (code : List (Instr α)) :
    (T.assign t code).code t = code := Function.update_self ..

theorem assign_code_of_ne (T : Threads τ α) {t u : τ} (h : u ≠ t) (code : List (Instr α)) :
    (T.assign t code).code u = T.code u := Function.update_of_ne h ..

@[simp] theorem giveUp_owner (T : Threads τ α) (t : τ) : (T.giveUp t).owner = none := rfl

@[simp] theorem giveUp_code_self (T : Threads τ α) (t : τ) :
    (T.giveUp t).code t = .acquire :: T.code t := Function.update_self ..

theorem giveUp_code_of_ne (T : Threads τ α) {t u : τ} (h : u ≠ t) :
    (T.giveUp t).code u = T.code u := Function.update_of_ne h ..

/-- What one instruction can do. -/
theorem exec_eq_some {T T' : Threads τ α} {t : τ} {result : Option α}
    (h : T.exec t = some (result, T')) : ∃ i rest, T.code t = i :: rest ∧
      T'.code = Function.update T.code t rest ∧
        ((i = .acquire ∧ result = none ∧ T.owner = none ∧ T'.owner = some t) ∨
          (i = .release ∧ result = none ∧ T.owner = some t ∧ T'.owner = none) ∨
          ∃ a, i = .act a ∧ result = some a ∧ T'.owner = T.owner) := by
  unfold exec at h
  split at h
  · cases h
  · next rest hcode =>
      split at h
      · next hfree =>
          cases h
          exact ⟨.acquire, rest, hcode, rfl, .inl ⟨rfl, rfl, hfree, rfl⟩⟩
      · cases h
  · next rest hcode =>
      split at h
      · next howns =>
          cases h
          exact ⟨.release, rest, hcode, rfl, .inr (.inl ⟨rfl, rfl, howns, rfl⟩)⟩
      · cases h
  · next a rest hcode =>
      cases h
      exact ⟨.act a, rest, hcode, rfl, .inr (.inr ⟨a, rfl, rfl, rfl⟩)⟩

/-- An instruction that acts leaves the lock alone. -/
theorem exec_eq_act {T T' : Threads τ α} {t : τ} {a : α} (h : T.exec t = some (some a, T')) :
    ∃ rest, T.code t = .act a :: rest ∧ T' = ⟨T.owner, Function.update T.code t rest⟩ := by
  obtain ⟨i, rest, hcode, hcode', hcases⟩ := exec_eq_some h
  obtain ⟨-, hnone, -⟩ | ⟨-, hnone, -⟩ | ⟨b, rfl, hb, howner⟩ := hcases
  · cases hnone
  · cases hnone
  · obtain rfl := Option.some.inj hb
    obtain ⟨owner, code⟩ := T'
    obtain rfl : code = _ := hcode'
    obtain rfl : owner = _ := howner
    exact ⟨rest, hcode, rfl⟩

/-- Running an instruction of one thread is nothing to another one. -/
theorem exec_frame {T T' : Threads τ α} {t u : τ} {result : Option α}
    (h : T.exec t = some (result, T')) (hu : u ≠ t) :
    T'.code u = T.code u ∧ (T'.owner = some u ↔ T.owner = some u) := by
  obtain ⟨i, rest, -, hcode', hcases⟩ := exec_eq_some h
  refine ⟨by rw [hcode', Function.update_of_ne hu], ?_⟩
  obtain ⟨-, -, hfree, howner⟩ | ⟨-, -, howns, howner⟩ | ⟨a, -, -, howner⟩ := hcases
  · simp [hfree, howner, hu.symm]
  · simp [howns, howner, hu.symm]
  · rw [howner]

/-- Running an instruction adds none to any thread's code. -/
theorem mem_of_exec {T T' : Threads τ α} {t u : τ} {result : Option α} {i : Instr α}
    (h : T.exec t = some (result, T')) (hi : i ∈ T'.code u) : i ∈ T.code u := by
  obtain ⟨head, rest, hcode, hcode', -⟩ := exec_eq_some h
  rw [hcode'] at hi
  by_cases hu : u = t
  · subst hu
    rw [Function.update_self] at hi
    rw [hcode]
    exact List.mem_cons_of_mem head hi
  · rwa [Function.update_of_ne hu] at hi

/-- Running an instruction uses up no act but the one it performs. -/
theorem count_exec [DecidableEq α] {T T' : Threads τ α} {t : τ} {result : Option α}
    (h : T.exec t = some (result, T')) {a : α} (ha : result ≠ some a) (u : τ) :
    (T'.code u).count (.act a) = (T.code u).count (.act a) := by
  obtain ⟨i, rest, hcode, hcode', hcases⟩ := exec_eq_some h
  have hi : i ≠ .act a := by
    rintro rfl
    obtain ⟨hi, -⟩ | ⟨hi, -⟩ | ⟨b, hi, hb, -⟩ := hcases
    · cases hi
    · cases hi
    · cases hi
      exact ha hb
  rw [hcode']
  by_cases hu : u = t
  · subst hu
    rw [Function.update_self, hcode, List.count_cons_of_ne hi]
  · rw [Function.update_of_ne hu]

/-- Every thread's code is disciplined for what that thread owns. -/
def Ok (guarded : α → Bool) (T : Threads τ α) : Prop :=
  ∀ t, Disciplined guarded (decide (T.owner = some t)) (T.code t)

variable {guarded : α → Bool} {T T' : Threads τ α}

theorem Ok.assign (h : T.Ok guarded) {t : τ} {code : List (Instr α)}
    (hcode : Disciplined guarded (decide (T.owner = some t)) code) :
    (T.assign t code).Ok guarded := by
  intro u
  by_cases hu : u = t
  · subst hu
    rwa [assign_owner, assign_code_self]
  · rw [assign_owner, assign_code_of_ne T hu]
    exact h u

theorem Ok.giveUp (h : T.Ok guarded) {t : τ} (howns : T.owner = some t) :
    (T.giveUp t).Ok guarded := by
  intro u
  by_cases hu : u = t
  · subst hu
    rw [giveUp_owner, giveUp_code_self]
    have hcode := h u
    rw [howns, decide_eq_true rfl] at hcode
    exact ⟨by simp, hcode⟩
  · rw [giveUp_owner, giveUp_code_of_ne T hu]
    have hcode := h u
    rwa [howns, decide_eq_false (by simpa using Ne.symm hu)] at hcode

theorem Ok.exec (h : T.Ok guarded) {t : τ} {result : Option α}
    (hexec : T.exec t = some (result, T')) : T'.Ok guarded := by
  obtain ⟨i, rest, hcode, hcode', hcases⟩ := exec_eq_some hexec
  intro u
  have hu := h u
  by_cases hut : u = t
  · subst hut
    rw [hcode', Function.update_self]
    rw [hcode] at hu
    obtain ⟨rfl, -, -, howner⟩ | ⟨rfl, -, -, howner⟩ | ⟨a, rfl, -, howner⟩ := hcases
    · rw [howner, decide_eq_true rfl]
      exact hu.2
    · rw [howner, decide_eq_false (by simp)]
      exact hu.2
    · rw [howner]
      exact hu.2
  · rw [hcode', Function.update_of_ne hut]
    obtain ⟨-, -, hfree, howner⟩ | ⟨-, -, howns, howner⟩ | ⟨a, -, -, howner⟩ := hcases
    · rw [howner, decide_eq_false (by simpa using Ne.symm hut)]
      rwa [hfree, decide_eq_false (by simp)] at hu
    · rw [howner, decide_eq_false (by simp)]
      rwa [howns, decide_eq_false (by simpa using Ne.symm hut)] at hu
    · rwa [howner]

/-- The next instruction of the thread acquires the lock. -/
def Waiting (T : Threads τ α) (t : τ) : Prop := (T.code t).head? = some .acquire

/-- A thread that waits for the lock does not own it. -/
theorem Ok.not_owner_of_waiting (h : T.Ok guarded) {t : τ} (hwait : T.Waiting t) :
    T.owner ≠ some t := by
  obtain ⟨rest, hcode⟩ := List.head?_eq_some_iff.mp hwait
  have ht := h t
  rw [hcode] at ht
  exact of_decide_eq_false ht.1

/-- A thread about to do a guarded act owns the lock. -/
theorem Ok.owner_of_guarded (h : T.Ok guarded) {t : τ} {a : α} {rest : List (Instr α)}
    (hcode : T.code t = .act a :: rest) (ha : guarded a = true) : T.owner = some t := by
  have ht := h t
  rw [hcode] at ht
  exact of_decide_eq_true (ht.1 ha)

end Threads

/-- A relation that decreases a rank has no cycle. -/
theorem acyclic_of_rank {r : τ → τ → Prop} (rank : τ → ℕ)
    (h : ∀ t u, r t u → rank u < rank t) (t : τ) : ¬Relation.TransGen r t t := by
  have hlt : ∀ u, Relation.TransGen r t u → rank u < rank t := by
    intro u hu
    induction hu with
    | single hr => exact h _ _ hr
    | tail _ hr ih => exact (h _ _ hr).trans ih
  exact fun hcycle => lt_irrefl _ (hlt t hcycle)

end Library.GlobalLock
