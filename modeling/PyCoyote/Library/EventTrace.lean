import Mathlib.Data.List.Basic

/-!
# Runs of a deterministic event-driven system

A system reads one event at a time. `visits` pairs every event of a run with
the state that met it, so that a property of single steps becomes a property
of runs by quantifying over the pairs.
-/

namespace Library.EventTrace

variable {σ ε : Type*} (step : σ → ε → σ)

/-- The state after all events of a run. -/
def final (s : σ) (events : List ε) : σ := events.foldl step s

/-- Every event of a run together with the state it was met in. -/
def visits : σ → List ε → List (σ × ε)
  | _, [] => []
  | s, e :: rest => (s, e) :: visits (step s e) rest

@[simp] theorem visits_nil (s : σ) : visits step s [] = [] := rfl

@[simp] theorem visits_cons (s : σ) (e : ε) (rest : List ε) :
    visits step s (e :: rest) = (s, e) :: visits step (step s e) rest := rfl

theorem visits_map_snd (s : σ) (events : List ε) :
    (visits step s events).map Prod.snd = events := by
  induction events generalizing s with
  | nil => rfl
  | cons e rest ih => simp only [visits_cons, List.map_cons, ih]

/-- When the guard is exactly what makes a step good in the states of an
invariant, and guarded steps keep the invariant, a run is good throughout if
and only if it is guarded throughout. -/
theorem forall_visits_iff (inv : σ → Prop) (good guard : σ → ε → Prop)
    (keep : ∀ s e, inv s → guard s e → inv (step s e))
    (exact_guard : ∀ s e, inv s → (good s e ↔ guard s e))
    {s : σ} (hs : inv s) (events : List ε) :
    (∀ p ∈ visits step s events, good p.1 p.2) ↔
      ∀ p ∈ visits step s events, guard p.1 p.2 := by
  induction events generalizing s with
  | nil => simp
  | cons e rest ih =>
      simp only [visits_cons, List.forall_mem_cons]
      constructor
      · rintro ⟨hgood, hrest⟩
        have hguard := (exact_guard s e hs).mp hgood
        exact ⟨hguard, (ih (keep s e hs hguard)).mp hrest⟩
      · rintro ⟨hguard, hrest⟩
        exact ⟨(exact_guard s e hs).mpr hguard, (ih (keep s e hs hguard)).mpr hrest⟩

/-- The answers a system gives along a run. -/
def outputs {ω : Type*} (out : σ → ε → ω) (s : σ) (events : List ε) : List ω :=
  (visits step s events).map fun p => out p.1 p.2

/-- Two systems in related states give the same answers and stay related, if
related states answer alike and every event keeps them related. -/
theorem outputs_of_simulation {τ ω : Type*} {step' : τ → ε → τ} {out : σ → ε → ω}
    {out' : τ → ε → ω} (rel : σ → τ → Prop)
    (answer : ∀ s t e, rel s t → out s e = out' t e)
    (keep : ∀ s t e, rel s t → rel (step s e) (step' t e))
    {s : σ} {t : τ} (h : rel s t) (events : List ε) :
    outputs step out s events = outputs step' out' t events ∧
      rel (final step s events) (final step' t events) := by
  induction events generalizing s t with
  | nil => exact ⟨rfl, h⟩
  | cons e rest ih =>
      obtain ⟨hrest, hend⟩ := ih (keep s t e h)
      constructor
      · exact congrArg₂ List.cons (answer s t e h) hrest
      · exact hend

end Library.EventTrace
