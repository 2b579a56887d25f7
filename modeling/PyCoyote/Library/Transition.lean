import Mathlib.Logic.Relation
import Mathlib.Data.Nat.Notation
import Mathlib.Data.Option.Basic
import Mathlib.Order.Nat

/-!
# Transition systems with executable steps

A step function says, for each label, whether a state can take the step and
where it leads. States reached in any number of steps satisfy every invariant;
a state reached by running given labels is reachable.
-/

namespace Library.Transition

variable {σ ℓ : Type*} (step : σ → ℓ → Option σ)

/-- Some label leads from one state to the other. -/
def Step (s s' : σ) : Prop := ∃ l, step s l = some s'

/-- The states that any number of steps reaches from `init`. -/
def Reachable (init s : σ) : Prop := Relation.ReflTransGen (Step step) init s

/-- Take the given steps in order. -/
def run (s : σ) : List ℓ → Option σ
  | [] => some s
  | l :: rest => (step s l).bind fun s' => run s' rest

variable {step}

theorem Reachable.refl (s : σ) : Reachable step s s := Relation.ReflTransGen.refl

theorem Reachable.tail {init s s' : σ} {l : ℓ} (h : Reachable step init s)
    (hstep : step s l = some s') : Reachable step init s' :=
  Relation.ReflTransGen.tail h ⟨l, hstep⟩

/-- The invariant rule. Steps need to keep the invariant in reachable states
only, so that one invariant can rest on another. -/
theorem Reachable.invariant {init s : σ} (inv : σ → Prop) (hinit : inv init)
    (keep : ∀ s l s', Reachable step init s → inv s → step s l = some s' → inv s')
    (h : Reachable step init s) : inv s := by
  induction h with
  | refl => exact hinit
  | tail hbefore hlast ih =>
      obtain ⟨l, hl⟩ := hlast
      exact keep _ l _ hbefore ih hl

/-- Running labels from a reachable state ends in a reachable state. -/
theorem Reachable.run {init s s' : σ} (h : Reachable step init s) (labels : List ℓ)
    (hrun : run step s labels = some s') : Reachable step init s' := by
  induction labels generalizing s with
  | nil =>
      obtain rfl := Option.some.inj hrun
      exact h
  | cons l rest ih =>
      obtain ⟨mid, hmid, hrest⟩ := Option.bind_eq_some_iff.mp hrun
      exact ih (h.tail hmid) hrest

/-- Runs compose. -/
theorem run_append (s : σ) (first second : List ℓ) :
    run step s (first ++ second) = (run step s first).bind fun s' => run step s' second := by
  induction first generalizing s with
  | nil => rfl
  | cons l rest ih => simp only [List.cons_append, run, Option.bind_assoc, ih]

/-- The progress rule. If every state short of the goal has a step that keeps
the invariant and lowers the rank, every state can run to the goal. -/
theorem exists_run_of_rank (inv goal : σ → Prop) (rank : σ → ℕ)
    (progress : ∀ s, inv s → ¬goal s →
      ∃ l s', step s l = some s' ∧ inv s' ∧ rank s' < rank s) {s : σ} (h : inv s) :
    ∃ labels s', run step s labels = some s' ∧ inv s' ∧ goal s' := by
  induction hn : rank s using Nat.strongRecOn generalizing s with
  | ind n ih =>
      by_cases hgoal : goal s
      · exact ⟨[], s, rfl, h, hgoal⟩
      · obtain ⟨l, mid, hstep, hmid, hlt⟩ := progress s h hgoal
        obtain ⟨labels, s', hrun, hs'⟩ := ih (rank mid) (hn ▸ hlt) hmid rfl
        exact ⟨l :: labels, s', by rw [run, hstep]; exact hrun, hs'⟩

end Library.Transition
