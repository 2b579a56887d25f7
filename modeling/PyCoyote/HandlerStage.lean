import PyCoyote.LockInvariant

/-!
# The life of a handler

A handler waits for the GIL, calls the callable, gives the GIL back and
destroys its closure; inside the callable it may have to let others run. The
abstract model knows one stage for each handler and nothing else of the
process. Every step of the process moves at most one handler, and that one
along an edge of the model; two handlers are never inside the callable at once.
-/

namespace PyCoyote.Trampoline

open Library.GlobalLock Library.Transition

/-- Where a handler is in its life; inside the callable, with the Python steps
still to take. -/
inductive Stage where
  | unstarted
  | waiting
  | holding
  | inside (steps : ℕ)
  | parked (steps : ℕ)
  | leaving
  | closing
  | finished
deriving DecidableEq, Repr

namespace Stage

/-- What is left of the handler's code; `outcome` is how its call ends. -/
def code (outcome : CallOutcome) : Stage → List (Instr Act)
  | .unstarted => []
  | .waiting => innerLambda
  | .holding => [.act .call, .release, .act .destroy]
  | .inside steps => (callBody steps outcome).map .act ++ [.release, .act .destroy]
  | .parked steps => .acquire :: ((callBody steps outcome).map .act ++ [.release, .act .destroy])
  | .leaving => [.release, .act .destroy]
  | .closing => [.act .destroy]
  | .finished => []

/-- The handler owns the GIL. -/
def owns : Stage → Bool
  | .holding | .inside _ | .leaving => true
  | _ => false

/-- The edges of a handler's life. -/
inductive Next : Stage → Stage → Prop
  | start : Next .unstarted .waiting
  | acquire : Next .waiting .holding
  | enter (steps : ℕ) : Next .holding (.inside steps)
  | python (steps : ℕ) : Next (.inside (steps + 1)) (.inside steps)
  | park (steps : ℕ) : Next (.inside steps) (.parked steps)
  | resume (steps : ℕ) : Next (.parked steps) (.inside steps)
  | finish : Next (.inside 0) .leaving
  | release : Next .leaving .closing
  | close : Next .closing .finished

/-- The stage that some code belongs to, for a handler that was started. -/
def ofCode : List (Instr Act) → Stage
  | [] => .finished
  | [.act .destroy] => .closing
  | .release :: _ => .leaving
  | .act .call :: _ => .holding
  | .acquire :: .act .call :: _ => .waiting
  | .acquire :: rest => .parked (rest.length - 3)
  | body => .inside (body.length - 3)

theorem ofCode_code (outcome : CallOutcome) {g : Stage} (h : g ≠ .unstarted) :
    ofCode (g.code outcome) = g := by
  cases g with
  | unstarted => exact absurd rfl h
  | inside steps | parked steps =>
      cases steps <;> simp [code, callBody, ofCode, List.replicate_succ]
  | _ => rfl

/-- Running an instruction other than the call follows an edge. -/
theorem exists_next {outcome : CallOutcome} {g : Stage} {i : Instr Act} {rest : List (Instr Act)}
    (h : g.code outcome = i :: rest) (hcall : i ≠ .act .call) :
    ∃ g', g.Next g' ∧ g'.code outcome = rest ∧ g ≠ .unstarted ∧ g' ≠ .unstarted ∧
      (i = .acquire → g'.owns = true) ∧ (i = .release → g'.owns = false) ∧
        ∀ a, i = .act a → g'.owns = g.owns ∧ a ≠ .startThread := by
  cases g with
  | unstarted => cases h
  | waiting =>
      cases h
      exact ⟨.holding, .acquire, rfl, by simp, by simp, fun _ => rfl, by simp, by simp⟩
  | holding =>
      cases h
      exact absurd rfl hcall
  | inside steps =>
      cases steps with
      | zero =>
          cases h
          exact ⟨.leaving, .finish, rfl, by simp, by simp, by simp, by simp, by simp [owns]⟩
      | succ steps =>
          cases h
          exact ⟨.inside steps, .python steps, rfl, by simp, by simp, by simp, by simp,
            by simp [owns]⟩
  | parked steps =>
      cases h
      exact ⟨.inside steps, .resume steps, rfl, by simp, by simp, fun _ => rfl, by simp, by simp⟩
  | leaving =>
      cases h
      exact ⟨.closing, .release, rfl, by simp, by simp, by simp, fun _ => rfl, by simp⟩
  | closing =>
      cases h
      exact ⟨.finished, .close, rfl, by simp, by simp, by simp, by simp, by simp [owns]⟩
  | finished => cases h

/-- A handler gives the GIL back before it ends. -/
theorem code_ne_nil {outcome : CallOutcome} {g : Stage} (h : g.owns = true) :
    g.code outcome ≠ [] := by
  cases g with
  | inside steps => simp [code]
  | holding | leaving => exact List.cons_ne_nil _ _
  | _ => cases h

/-- The call is ahead at one stage only. -/
theorem eq_holding {outcome : CallOutcome} {g : Stage} {rest : List (Instr Act)}
    (h : g.code outcome = .act .call :: rest) :
    g = .holding ∧ rest = [.release, .act .destroy] := by
  cases g with
  | inside steps => cases steps <;> cases h
  | holding =>
      cases h
      exact ⟨rfl, rfl⟩
  | _ => cases h

end Stage

/-- The stage of handler `k`. -/
def State.stage (s : State) (k : ℕ) : Stage :=
  if s.values.length ≤ k then .unstarted else .ofCode (s.threads.code (.handler k))

/-- The process has handler `k` at the given stage. -/
structure AtStage (outcome : ℕ → CallOutcome) (s : State) (k : ℕ) (g : Stage) : Prop where
  code : s.threads.code (.handler k) = g.code (outcome k)
  owner : s.threads.owner = some (.handler k) ↔ g.owns = true
  started : s.values.length ≤ k ↔ g = .unstarted

/-- The process has each handler at its stage. -/
def AtStages (outcome : ℕ → CallOutcome) (s : State) (f : ℕ → Stage) : Prop :=
  ∀ k, AtStage outcome s k (f k)

/-- One handler takes an edge, unless another one owns the GIL that it would
own then; the others stay where they are. -/
inductive Turn (f : ℕ → Stage) : (ℕ → Stage) → Prop
  | move (k : ℕ) (g : Stage) (hnext : (f k).Next g)
      (hlock : g.owns = true → ∀ j, j ≠ k → (f j).owns = false) : Turn f (Function.update f k g)

section Step
variable {outcome : ℕ → CallOutcome} {s s' : State} {f : ℕ → Stage}

/-- A handler stays at its stage if its code and its hold on the GIL stay. -/
theorem AtStage.congr {k : ℕ} {g : Stage} (h : AtStage outcome s k g)
    (hcode : s'.threads.code (.handler k) = s.threads.code (.handler k))
    (howner : s'.threads.owner = some (.handler k) ↔ s.threads.owner = some (.handler k))
    (hvalues : s'.values.length ≤ k ↔ s.values.length ≤ k) : AtStage outcome s' k g where
  code := hcode.trans h.code
  owner := howner.trans h.owner
  started := hvalues.trans h.started

/-- Steps of other threads that start no handler keep every stage. -/
theorem AtStages.congr (h : AtStages outcome s f)
    (hcode : ∀ k, s'.threads.code (.handler k) = s.threads.code (.handler k))
    (howner : ∀ k, s'.threads.owner = some (.handler k) ↔ s.threads.owner = some (.handler k))
    (hvalues : s'.values = s.values) : AtStages outcome s' f := fun k =>
  (h k).congr (hcode k) (howner k) (by rw [hvalues])

/-- One handler takes an edge and the others keep their stage. -/
theorem AtStages.update {k : ℕ} {g : Stage} (h : AtStages outcome s f)
    (hk : AtStage outcome s' k g)
    (hother : ∀ j, j ≠ k → AtStage outcome s j (f j) → AtStage outcome s' j (f j)) :
    AtStages outcome s' (Function.update f k g) := by
  intro j
  by_cases hj : j = k
  · subst hj
    rw [Function.update_self]
    exact hk
  · rw [Function.update_of_ne hj]
    exact hother j hj (h j)

/-- The GIL has one owner, so that the edge is a turn of the model. -/
theorem AtStages.turn {k : ℕ} {g : Stage} (h : AtStages outcome s' (Function.update f k g))
    (hnext : (f k).Next g) : Turn f (Function.update f k g) := by
  refine .move k g hnext ?_
  intro howns j hj
  have hk := h k
  rw [Function.update_self] at hk
  have hj' := h j
  rw [Function.update_of_ne hj] at hj'
  have hne : s'.threads.owner ≠ some (.handler j) := by
    rw [hk.owner.mpr howns]
    simpa using hj.symm
  exact Bool.eq_false_iff.mpr fun hown => hne (hj'.owner.mpr hown)

/-- Running an instruction of another thread. -/
theorem AtStage.exec_other {T : Threads ThreadId Act} {t : ThreadId} {result : Option Act} {j : ℕ}
    {g : Stage} (h : AtStage outcome s j g) (hexec : s.threads.exec t = some (result, T))
    (hj : ThreadId.handler j ≠ t) : AtStage outcome { s with threads := T } j g := by
  obtain ⟨hcode, howner⟩ := Threads.exec_frame hexec hj
  exact h.congr hcode howner Iff.rfl

/-- Running an instruction of a handler takes it along an edge. -/
theorem AtStages.exec_handler {T : Threads ThreadId Act} {k : ℕ} {result : Option Act}
    (h : AtStages outcome s f) (hexec : s.threads.exec (.handler k) = some (result, T))
    (hcall : result ≠ some .call) : ∃ g, (f k).Next g ∧ result ≠ some .startThread ∧
      AtStages outcome { s with threads := T } (Function.update f k g) := by
  obtain ⟨i, rest, hcode, hcode', hcases⟩ := Threads.exec_eq_some hexec
  rw [(h k).code] at hcode
  have hi : i ≠ .act .call := by
    rintro rfl
    obtain ⟨hi, -⟩ | ⟨hi, -⟩ | ⟨a, hi, ha, -⟩ := hcases <;> cases hi
    exact hcall ha
  obtain ⟨g, hnext, hrest, hstarted, hstarted', hacquire, hrelease, hact⟩ :=
    Stage.exists_next hcode hi
  refine ⟨g, hnext, ?_, h.update ⟨?_, ?_, ?_⟩ ?_⟩
  · rintro rfl
    obtain ⟨-, hnone, -⟩ | ⟨-, hnone, -⟩ | ⟨a, rfl, ha, -⟩ := hcases
    · cases hnone
    · cases hnone
    · exact (hact a rfl).2 (Option.some.inj ha).symm
  · rw [hcode', Function.update_self, hrest]
  · obtain ⟨rfl, -, -, howner⟩ | ⟨rfl, -, -, howner⟩ | ⟨a, rfl, -, howner⟩ := hcases
    · simp [howner, hacquire rfl]
    · simp [howner, hrelease rfl]
    · rw [howner, (hact a rfl).1]
      exact (h k).owner
  · refine ((h k).started).trans (iff_of_false ?_ hstarted')
    exact hstarted
  · intro j hj hstage
    exact hstage.exec_other hexec (by simpa using hj)

/-- An act other than the start of a handler is nothing to the stages. -/
theorem AtStages.effect {a : Act} (h : AtStages outcome s f) (ha : a ≠ .startThread)
    (heffect : s.effect a = some s') : AtStages outcome s' f := by
  obtain ⟨v, rfl, -, -⟩ | ⟨-, rfl⟩ | ⟨-, -, -, refs, joinable, rfl⟩ := effect_cases heffect
  · exact absurd rfl ha
  · exact h.congr (fun _ => rfl) (fun _ => Iff.rfl) rfl
  · exact h.congr (fun _ => rfl) (fun _ => Iff.rfl) rfl

/-- The next handler starts to wait. -/
theorem AtStages.start (h : AtStages outcome s f) (v : Int32) :
    f s.values.length = .unstarted ∧ AtStages outcome { s with
      values := s.values ++ [v]
      threads := s.threads.assign (.handler s.values.length) innerLambda
      joinable := true }
      (Function.update f s.values.length .waiting) := by
  have hfirst := (h s.values.length).started.mp le_rfl
  refine ⟨hfirst, h.update ⟨?_, ?_, ?_⟩ ?_⟩
  · exact Threads.assign_code_self ..
  · rw [Threads.assign_owner, (h _).owner, hfirst]
    rfl
  · simp
  · intro j hj hstage
    refine hstage.congr (Threads.assign_code_of_ne _ (by simpa using hj) _) Iff.rfl ?_
    simp only [List.length_append, List.length_singleton]
    omega

/-- A handler calls the callable. -/
theorem AtStages.enter {k : ℕ} {rest : List (Instr Act)} (h : AtStages outcome s f)
    (hcode : s.threads.code (.handler k) = .act .call :: rest) (steps : ℕ) (v : Int32) :
    f k = .holding ∧ AtStages outcome { s with
      threads := s.threads.assign (.handler k) ((callBody steps (outcome k)).map .act ++ rest)
      passed := s.passed ++ [(k, v)] } (Function.update f k (.inside steps)) := by
  rw [(h k).code] at hcode
  obtain ⟨hk, rfl⟩ := Stage.eq_holding hcode
  refine ⟨hk, h.update ⟨?_, ?_, ?_⟩ ?_⟩
  · exact Threads.assign_code_self ..
  · rw [Threads.assign_owner, (h k).owner, hk]
    rfl
  · rw [(h k).started, hk]
    simp
  · intro j hj hstage
    exact hstage.congr (Threads.assign_code_of_ne _ (by simpa using hj) _) Iff.rfl Iff.rfl

/-- A handler lets others run only inside the callable. -/
theorem exists_inside {k : ℕ} {g : Stage} (h : AtStage outcome s k g)
    (hpython : s.inPython (.handler k) = true) : ∃ steps, g = .inside steps := by
  simp only [State.inPython, h.code] at hpython
  cases g with
  | inside steps => exact ⟨steps, rfl⟩
  | _ => cases hpython

/-- A thread in Python code lets others run. -/
theorem AtStages.giveUp {t : ThreadId} (h : AtStages outcome s f)
    (hpython : s.inPython t = true) (hown : s.threads.owner = some t) :
    ∃ f', Relation.ReflGen Turn f f' ∧
      AtStages outcome { s with threads := s.threads.giveUp t } f' := by
  have hother : ∀ j g, ThreadId.handler j ≠ t → AtStage outcome s j g →
      AtStage outcome { s with threads := s.threads.giveUp t } j g := by
    intro j g hj hstage
    refine hstage.congr (Threads.giveUp_code_of_ne _ hj) ?_ Iff.rfl
    simp [hown, Ne.symm hj]
  cases t with
  | event => cases hpython
  | python p => exact ⟨f, .refl, fun j => hother j _ (by simp) (h j)⟩
  | handler k =>
      obtain ⟨steps, hk⟩ := exists_inside (h k) hpython
      have hnext : (f k).Next (.parked steps) := hk ▸ .park steps
      have hstages : AtStages outcome { s with threads := s.threads.giveUp (.handler k) }
          (Function.update f k (.parked steps)) := by
        refine h.update ⟨?_, ?_, ?_⟩ fun j hj => hother j _ (by simpa using hj)
        · rw [Threads.giveUp_code_self, (h k).code, hk]
          rfl
        · simp [Stage.owns]
        · rw [(h k).started, hk]
          simp
      exact ⟨_, .single (hstages.turn hnext), hstages⟩

theorem atStages_act {t : ThreadId} {a : Act} {T : Threads ThreadId Act}
    (h : AtStages outcome s f) (hexec : s.threads.exec t = some (some a, T))
    (heffect : { s with threads := T }.effect a = some s') :
    ∃ f', Relation.ReflGen Turn f f' ∧ AtStages outcome s' f' := by
  have hcall : a ≠ .call := by
    rintro rfl
    cases heffect
  cases t with
  | event | python _ =>
      have hafter : AtStages outcome { s with threads := T } f :=
        fun j => (h j).exec_other hexec (by simp)
      by_cases ha : a = .startThread
      · subst ha
        obtain ⟨v, -, -, rfl⟩ | ⟨hend, -⟩ | ⟨ha, -⟩ := effect_cases heffect
        · obtain ⟨hfirst, hstages⟩ := hafter.start v
          have hnext : (f s.values.length).Next .waiting := hfirst ▸ .start
          exact ⟨_, .single (hstages.turn hnext), hstages⟩
        · simp at hend
        · exact absurd rfl ha
      · exact ⟨f, .refl, hafter.effect ha heffect⟩
  | handler k =>
      obtain ⟨g, hnext, hstart, hafter⟩ := h.exec_handler hexec (by simpa using hcall)
      have hstages := hafter.effect (by simpa using hstart) heffect
      exact ⟨_, .single (hstages.turn hnext), hstages⟩

/-- Every step of the process is no turn or one turn of the model. -/
theorem atStages_takes {l : Label} (h : AtStages outcome s f) (hstep : Takes outcome s l s') :
    ∃ f', Relation.ReflGen Turn f f' ∧ AtStages outcome s' f' := by
  cases hstep with
  | deliver v rest hevent hpending =>
      exact ⟨f, .refl, h.congr (fun _ => Threads.assign_code_of_ne _ (by simp) _)
        (fun _ => Iff.rfl) rfl⟩
  | lock t T hbusy hexec =>
      cases t with
      | event | python _ => exact ⟨f, .refl, fun j => (h j).exec_other hexec (by simp)⟩
      | handler k =>
          obtain ⟨g, hnext, -, hstages⟩ := h.exec_handler hexec (by simp)
          exact ⟨_, .single (hstages.turn hnext), hstages⟩
  | act t a T _ hbusy hexec heffect => exact atStages_act h hexec heffect
  | enter k steps rest v hbusy hcode hval =>
      obtain ⟨hk, hstages⟩ := h.enter hcode steps v
      have hnext : (f k).Next (.inside steps) := hk ▸ .enter steps
      exact ⟨_, .single (hstages.turn hnext), hstages⟩
  | giveUp t hpython hown hbusy => exact h.giveUp hpython hown
  | _ => exact ⟨f, .refl, h.congr (fun _ => rfl) (fun _ => Iff.rfl) rfl⟩

theorem AtStage.eq {k : ℕ} {g : Stage} (h : AtStage outcome s k g) : s.stage k = g := by
  unfold State.stage
  split
  · next hle => exact (h.started.mp hle).symm
  · next hlt =>
      rw [h.code]
      exact Stage.ofCode_code _ fun hg => hlt (h.started.mpr hg)

theorem AtStages.eq (h : AtStages outcome s f) : s.stage = f := funext fun k => (h k).eq

end Step

section Run
variable {outcome : ℕ → CallOutcome} {interrupts : List Int32} {s s' : State}

/-- A reachable state has every handler at its stage. -/
theorem Reaches.atStages (h : Reaches outcome interrupts s) : AtStages outcome s s.stage := by
  have hstages : ∃ f, AtStages outcome s f := by
    refine Reachable.invariant (fun s => ∃ f, AtStages outcome s f) ?_ ?_ h
    · exact ⟨fun _ => .unstarted, fun _ => ⟨rfl, by simp [initial, Stage.owns], by simp [initial]⟩⟩
    · rintro s l s' - ⟨f, hf⟩ hstep
      obtain ⟨f', -, hf'⟩ := atStages_takes hf (takes_of_step hstep).2
      exact ⟨f', hf'⟩
  obtain ⟨f, hf⟩ := hstages
  exact hf.eq ▸ hf

/-- The abstraction of a step. -/
theorem Reaches.turn (h : Reaches outcome interrupts s) {l : Label}
    (hstep : step outcome s l = some s') : Relation.ReflGen Turn s.stage s'.stage := by
  obtain ⟨f', hturn, hf'⟩ := atStages_takes h.atStages (takes_of_step hstep).2
  exact hf'.eq ▸ hturn

/-- A turn takes every handler along an edge or leaves it where it is. -/
theorem Turn.reflGen {f f' : ℕ → Stage} (h : Turn f f') (k : ℕ) :
    Relation.ReflGen Stage.Next (f k) (f' k) := by
  obtain ⟨j, g, hnext, -⟩ := h
  by_cases hk : k = j
  · subst hk
    rw [Function.update_self]
    exact .single hnext
  · rw [Function.update_of_ne hk]

end Run

end PyCoyote.Trampoline
