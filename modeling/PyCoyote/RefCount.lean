import PyCoyote.HandlerStage
import PyCoyote.GilSafety
import Mathlib.Data.Finset.Card
import Mathlib.Data.Finset.Range

/-!
# References to the callable

Each closure that captures the callable holds one reference: that of the
function until the destructor ends, the one that a call of the function makes
for its handler, and that of each handler until its thread ends. Where every
update is one step the count is exact in every interleaving, so that nobody
touches the callable after its last reference is gone. Who drops the last one
need not own the GIL.
-/

namespace PyCoyote.Trampoline

open Library.GlobalLock Library.Transition

/-- The closures with a reference that a call of the function has, by what is
left of its code: the one it has still to hand over to a handler, unless it has
still to copy the callable into it. -/
def closures (code : List (Instr Act)) : ℕ :=
  code.count (.act .startThread) - code.count (.act .copy)

namespace State

/-- The reference of the function's own closure. -/
def functionRefs (s : State) : ℕ := if s.destructor = .finished then 0 else 1

/-- The references of a call in progress. -/
def callRefs (s : State) : ℕ := closures (s.threads.code .event)

/-- The handlers whose thread has not ended. -/
def liveHandlers (s : State) : Finset ℕ :=
  (Finset.range s.values.length).filter fun k => s.threads.code (.handler k) ≠ []

end State

/-- How the event thread and the destructor know of each other. -/
structure EventInv (s : State) : Prop where
  stopped : s.event = .stopped → s.stop = true
  stop : s.stop = true → s.destructor ≠ .alive
  joined : (∃ t, s.destructor = .joined t) ∨ s.destructor = .finished → s.event = .stopped

section Event
variable {outcome : ℕ → CallOutcome} {interrupts : List Int32} {s s' : State}

theorem eventInv_takes {l : Label} (h : EventInv s) (hstep : Takes outcome s l s') :
    EventInv s' := by
  cases hstep with
  | deliver v rest hevent hpending =>
      refine ⟨by simp, h.stop, fun hjoined => ?_⟩
      rw [h.joined hjoined] at hevent
      cases hevent
  | functionReturns v hevent hcode hdetached =>
      refine ⟨by simp, h.stop, fun hjoined => ?_⟩
      rw [h.joined hjoined] at hevent
      cases hevent
  | eventStops hevent hstop => exact ⟨fun _ => hstop, h.stop, fun _ => rfl⟩
  | act t a T _ hbusy hexec heffect =>
      obtain ⟨v, -, -, rfl⟩ | ⟨-, rfl⟩ | ⟨-, -, -, refs, joinable, rfl⟩ := effect_cases heffect <;>
        exact ⟨h.stopped, h.stop, h.joined⟩
  | beginDestroy t halive hpython hown => exact ⟨h.stopped, by simp, by simp⟩
  | tell t hdestructor => exact ⟨fun _ => rfl, by simp, by simp⟩
  | join t hdestructor hevent => exact ⟨h.stopped, by simp, fun _ => hevent⟩
  | destroyed t hdestructor =>
      exact ⟨h.stopped, by simp, fun _ => h.joined (.inl ⟨t, hdestructor⟩)⟩
  | lock | enter | giveUp | destroysJoinable => exact ⟨h.stopped, h.stop, h.joined⟩

theorem Reaches.eventInv (h : Reaches outcome interrupts s) : EventInv s := by
  refine Reachable.invariant EventInv ⟨by simp [initial], by simp [initial], by simp [initial]⟩ ?_ h
  exact fun s l s' _ hs hstep => eventInv_takes hs (takes_of_step hstep).2

/-- Once the event thread has been joined it has nothing left to run. -/
theorem Reaches.code_of_joined (h : Reaches outcome interrupts s)
    (hjoined : (∃ t, s.destructor = .joined t) ∨ s.destructor = .finished) :
    s.threads.code .event = [] :=
  h.callInv.idle (by simp [h.eventInv.joined hjoined])

end Event

/-- What an instruction of the function does to its closures. -/
theorem closures_cons {a : Act} {rest : List (Instr Act)} (h : .act a :: rest <:+ outerLambda) :
    (a = .copy ∧ closures rest = closures (.act a :: rest) + 1) ∨
    (a = .startThread ∧ closures (.act a :: rest) = closures rest + 1) ∨
    (a = .detach ∧ closures rest = closures (.act a :: rest)) := by
  obtain ⟨ha, rfl⟩ | ⟨ha, rfl⟩ | ⟨ha, rfl⟩ := outerLambda_suffix h <;> cases ha <;> decide

/-- A handler ends its thread exactly by destroying its closure. -/
theorem Stage.rest_eq_nil_iff {outcome : CallOutcome} {g : Stage} {i : Instr Act}
    {rest : List (Instr Act)} (h : g.code outcome = i :: rest) :
    rest = [] ↔ i = .act .destroy := by
  cases g with
  | inside steps | parked steps => cases steps <;> cases h <;> simp [callBody]
  | unstarted | finished => cases h
  | waiting | holding | leaving | closing => cases h; simp

/-- A handler destroys its closure after it has given the GIL back. -/
theorem Stage.owns_of_destroy {outcome : CallOutcome} {g : Stage} {rest : List (Instr Act)}
    (h : g.code outcome = .act .destroy :: rest) : g.owns = false := by
  cases g with
  | inside steps => cases steps <;> cases h
  | closing => rfl
  | _ => cases h

/-- Each reference is that of a closure. -/
def Counted (s : State) : Prop :=
  s.refs = s.functionRefs + s.callRefs + s.liveHandlers.card

section Count
variable {outcome : ℕ → CallOutcome} {interrupts : List Int32} {s s' : State}

theorem mem_liveHandlers (hlock : LockInv s.threads s.values.length) {k : ℕ} :
    k ∈ s.liveHandlers ↔ s.threads.code (.handler k) ≠ [] := by
  rw [State.liveHandlers, Finset.mem_filter, Finset.mem_range]
  exact and_iff_right_of_imp hlock.lt_of_code

/-- The handlers that live are those whose code has something left. -/
theorem liveHandlers_congr (hlock : LockInv s.threads s.values.length)
    (hlock' : LockInv s'.threads s'.values.length)
    (hcode : ∀ k, s'.threads.code (.handler k) = [] ↔ s.threads.code (.handler k) = []) :
    s'.liveHandlers = s.liveHandlers := by
  ext k
  rw [mem_liveHandlers hlock, mem_liveHandlers hlock']
  exact not_congr (hcode k)

/-- A step that makes, hands over and destroys no closure. -/
theorem Counted.congr (h : Counted s) (hrefs : s'.refs = s.refs)
    (hdestructor : s'.destructor = .finished ↔ s.destructor = .finished)
    (hcall : s'.callRefs = s.callRefs) (hlive : s'.liveHandlers = s.liveHandlers) :
    Counted s' := by
  rw [Counted, hrefs, hcall, hlive, h]
  simp only [State.functionRefs, hdestructor]

/-- An act other than copying and destroying leaves the count alone. -/
theorem effect_refs {a : Act} (hcopy : a ≠ .copy) (hdestroy : a ≠ .destroy)
    (heffect : s.effect a = some s') : s'.refs = s.refs := by
  cases a with
  | copy => exact absurd rfl hcopy
  | destroy => exact absurd rfl hdestroy
  | call => cases heffect
  | detach =>
      simp only [State.effect] at heffect
      split at heffect <;> cases heffect <;> rfl
  | python =>
      cases heffect
      rfl
  | startThread =>
      simp only [State.effect] at heffect
      split at heffect <;> cases heffect
      rfl
  | finish outcome => cases outcome <;> cases heffect <;> rfl

/-- The new handler takes over the closure of the call. -/
theorem Counted.start {T : Threads ThreadId Act} {v : Int32} (h : Counted s)
    (hlock : LockInv s.threads s.values.length)
    (hhandlers : ∀ k, T.code (.handler k) = s.threads.code (.handler k))
    (hclosures : s.callRefs = closures (T.code .event) + 1) :
    Counted { s with
      values := s.values ++ [v]
      threads := T.assign (.handler s.values.length) innerLambda
      joinable := true } := by
  have hfresh : s.values.length ∉ s.liveHandlers := by
    rw [mem_liveHandlers hlock, not_not]
    exact hlock.fresh_code _ le_rfl
  have hlive : State.liveHandlers { s with
      values := s.values ++ [v]
      threads := T.assign (.handler s.values.length) innerLambda
      joinable := true } =
      insert s.values.length s.liveHandlers := by
    ext k
    simp only [State.liveHandlers, List.length_append, List.length_singleton, Finset.mem_filter,
      Finset.mem_range, Finset.mem_insert]
    by_cases hk : k = s.values.length
    · subst hk
      simp [innerLambda]
    · rw [Threads.assign_code_of_ne _ (by simpa using hk), hhandlers]
      have hlt : k < s.values.length + 1 ↔ k < s.values.length := by omega
      simp [hk, hlt]
  have hevent : (T.assign (.handler s.values.length) innerLambda).code .event = T.code .event :=
    Threads.assign_code_of_ne _ (by simp) _
  rw [Counted, hlive, Finset.card_insert_of_notMem hfresh]
  change s.refs = s.functionRefs + closures _ + _
  rw [hevent, h, hclosures]
  omega

/-- A call of the function makes one closure and hands it over. -/
theorem counted_event {a : Act} {T : Threads ThreadId Act} (h : Counted s)
    (hlock : LockInv s.threads s.values.length) (hexec : s.threads.exec .event = some (some a, T))
    (heffect : { s with threads := T }.effect a = some s')
    (hlock' : LockInv s'.threads s'.values.length) : Counted s' := by
  obtain ⟨rest, hcode, rfl⟩ := Threads.exec_eq_act hexec
  have hclosures := closures_cons (hcode ▸ hlock.event_code)
  have hcall : s.callRefs = closures (.act a :: rest) := by rw [State.callRefs, hcode]
  have hhandlers : ∀ k, Function.update s.threads.code .event rest (.handler k) =
      s.threads.code (.handler k) := fun k => Function.update_of_ne (by simp) ..
  have hempty : ∀ k, Function.update s.threads.code .event rest (.handler k) = [] ↔
      s.threads.code (.handler k) = [] := fun k => by rw [hhandlers]
  have hafter : closures (Function.update s.threads.code .event rest .event) = closures rest := by
    rw [Function.update_self]
  have hcount : s.refs = s.functionRefs + closures (.act a :: rest) + s.liveHandlers.card :=
    hcall ▸ h
  obtain ⟨rfl, hmore⟩ | ⟨rfl, hless⟩ | ⟨rfl, hsame⟩ := hclosures
  · cases heffect
    change s.refs + 1 = s.functionRefs + closures _ + _
    rw [hafter, liveHandlers_congr hlock hlock' hempty]
    omega
  · obtain ⟨v, -, hevent, rfl⟩ | ⟨hraise, -⟩ | ⟨hstart, -⟩ := effect_cases heffect
    · exact h.start hlock hhandlers (by rw [hafter, hcall, hless])
    · simp at hraise
    · exact absurd rfl hstart
  · have hrefs := effect_refs (by simp) (by simp) heffect
    obtain ⟨v, hstart, -⟩ | ⟨-, rfl⟩ | ⟨-, -, -, refs, joinable, rfl⟩ := effect_cases heffect
    · cases hstart
    · change s.refs = s.functionRefs + closures _ + _
      rw [hafter, liveHandlers_congr hlock hlock' hempty, hsame]
      exact hcount
    · change refs = s.functionRefs + closures _ + _
      rw [hafter, liveHandlers_congr hlock hlock' hempty, hsame]
      exact hrefs.trans hcount

/-- An instruction of a handler leaves the others alive or dead, and ends its
own thread by destroying its closure only. -/
theorem liveHandlers_exec {T : Threads ThreadId Act} {k : ℕ} {result : Option Act}
    (hstages : AtStages outcome s s.stage) (hlock : LockInv s.threads s.values.length)
    (hexec : s.threads.exec (.handler k) = some (result, T)) :
    State.liveHandlers { s with threads := T } =
      if result = some .destroy then s.liveHandlers.erase k else s.liveHandlers := by
  obtain ⟨i, rest, hcode, hcode', hcases⟩ := Threads.exec_eq_some hexec
  have hrest : rest = [] ↔ result = some .destroy := by
    rw [Stage.rest_eq_nil_iff ((hstages k).code ▸ hcode)]
    obtain ⟨rfl, rfl, -⟩ | ⟨rfl, rfl, -⟩ | ⟨a, rfl, rfl, -⟩ := hcases <;> simp
  have hlock' : LockInv T s.values.length := hlock.exec hexec
  ext j
  rw [mem_liveHandlers (s := { s with threads := T }) hlock', hcode']
  by_cases hj : j = k
  · subst hj
    have hlive : j ∈ s.liveHandlers := by
      rw [mem_liveHandlers hlock, hcode]
      exact List.cons_ne_nil i rest
    rw [Function.update_self, ne_eq, hrest]
    split <;> simp_all
  · rw [Function.update_of_ne (by simpa using hj)]
    split <;> simp [hj, mem_liveHandlers hlock]

/-- A handler destroys the reference that it has. -/
theorem counted_handler {a : Act} {k : ℕ} {T : Threads ThreadId Act} (h : Counted s)
    (hstages : AtStages outcome s s.stage) (hlock : LockInv s.threads s.values.length)
    (hexec : s.threads.exec (.handler k) = some (some a, T))
    (heffect : { s with threads := T }.effect a = some s') (hcopy : a ≠ .copy)
    (hstart : a ≠ .startThread) : Counted s' := by
  have hlive := liveHandlers_exec hstages hlock hexec
  have hevent : T.code .event = s.threads.code .event :=
    (Threads.exec_frame hexec (by simp)).1
  by_cases ha : a = .destroy
  · subst ha
    cases heffect
    have hmem : k ∈ s.liveHandlers := by
      obtain ⟨rest, hcode, -⟩ := Threads.exec_eq_act hexec
      rw [mem_liveHandlers hlock, hcode]
      exact List.cons_ne_nil _ rest
    have hpos := Finset.card_pos.mpr ⟨k, hmem⟩
    change s.refs - 1 = s.functionRefs + closures (T.code .event) +
      (State.liveHandlers { s with threads := T }).card
    rw [hlive, if_pos rfl, Finset.card_erase_of_mem hmem, hevent, h, State.callRefs]
    omega
  · rw [if_neg (by simpa using ha)] at hlive
    have hrefs := effect_refs hcopy ha heffect
    obtain ⟨v, hv, -⟩ | ⟨-, rfl⟩ | ⟨-, -, -, refs, joinable, rfl⟩ := effect_cases heffect
    · exact absurd hv hstart
    · exact h.congr rfl Iff.rfl (by rw [State.callRefs, State.callRefs, hevent]) hlive
    · exact h.congr hrefs Iff.rfl (by rw [State.callRefs, State.callRefs, hevent]) hlive

/-- Every step keeps the count exact. -/
theorem counted_takes {l : Label} (h : Counted s) (hstages : AtStages outcome s s.stage)
    (hcode : CodeInv outcome s) (hlock : LockInv s.threads s.values.length) (hidle : CallInv s)
    (hstep : Takes outcome s l s') : Counted s' := by
  have hlock' := lockInv_takes hlock hstep
  cases hstep with
  | deliver v rest hwaiting hpending =>
      have hlive := liveHandlers_congr hlock hlock' fun k =>
        iff_of_eq (congrArg (· = []) (Threads.assign_code_of_ne s.threads (by simp) outerLambda))
      have hbefore : s.callRefs = 0 := by
        rw [State.callRefs, hidle.idle (by simp [hwaiting])]
        rfl
      refine h.congr rfl Iff.rfl ?_ hlive
      rw [hbefore, State.callRefs, Threads.assign_code_self]
      decide
  | lock t T hbusy hexec =>
      cases t with
      | handler k =>
          have hlive := liveHandlers_exec hstages hlock hexec
          rw [if_neg (by simp)] at hlive
          refine h.congr rfl Iff.rfl ?_ hlive
          rw [State.callRefs, State.callRefs, (Threads.exec_frame hexec (by simp)).1]
      | event => exact absurd rfl (hlock.ne_event_of_lock hexec)
      | python p =>
          refine h.congr rfl Iff.rfl ?_ (liveHandlers_congr hlock hlock' fun k => ?_)
          · rw [State.callRefs, State.callRefs, (Threads.exec_frame hexec (by simp)).1]
          · rw [(Threads.exec_frame hexec (by simp)).1]
  | act t a T _ hbusy hexec heffect =>
      obtain ⟨rest, hfirst, -⟩ := Threads.exec_eq_act hexec
      have hruns := hcode t a (by simp [hfirst])
      cases t with
      | event => exact counted_event h hlock hexec heffect hlock'
      | handler k =>
          refine counted_handler h hstages hlock hexec heffect ?_ ?_ <;>
            · rintro rfl
              simp [Runs, innerLambda] at hruns
      | python p => cases hruns
  | enter k steps rest v hbusy hcall hval =>
      refine h.congr rfl Iff.rfl ?_ (liveHandlers_congr hlock hlock' fun j => ?_)
      · rw [State.callRefs, State.callRefs, Threads.assign_code_of_ne _ (by simp)]
      · by_cases hj : j = k
        · subst hj
          simp [hcall, callBody]
        · rw [Threads.assign_code_of_ne _ (by simpa using hj)]
  | giveUp t hpython hown hbusy =>
      have hne : ThreadId.event ≠ t := fun heq => hlock.event_owner (heq ▸ hown)
      refine h.congr rfl Iff.rfl ?_ (liveHandlers_congr hlock hlock' fun k => ?_)
      · rw [State.callRefs, State.callRefs, Threads.giveUp_code_of_ne _ hne]
      · by_cases hk : ThreadId.handler k = t
        · subst hk
          have hcalling := exists_inside (hstages k) hpython
          obtain ⟨steps, hinside⟩ := hcalling
          rw [Threads.giveUp_code_self, (hstages k).code, hinside]
          simp [Stage.code]
        · rw [Threads.giveUp_code_of_ne _ hk]
  | functionReturns v hcalling hempty hdetached => exact h.congr rfl Iff.rfl rfl rfl
  | destroysJoinable v hcalling hempty hjoinable => exact h.congr rfl Iff.rfl rfl rfl
  | eventStops hwaiting hstop => exact h.congr rfl Iff.rfl rfl rfl
  | beginDestroy t halive hpython hown => exact h.congr rfl (by simp [halive]) rfl rfl
  | tell t hdestructor => exact h.congr rfl (by simp [hdestructor]) rfl rfl
  | join t hdestructor hstopped => exact h.congr rfl (by simp [hdestructor]) rfl rfl
  | destroyed t hdestructor =>
      have hone : s.functionRefs = 1 := by simp [State.functionRefs, hdestructor]
      rw [Counted, hone] at h
      change s.refs - 1 = 0 + s.callRefs + s.liveHandlers.card
      omega

theorem Reaches.counted (h : Reaches outcome interrupts s) : Counted s := by
  refine Reachable.invariant Counted ?_ ?_ h
  · simp [Counted, initial, State.functionRefs, State.callRefs, State.liveHandlers, closures,
      initialCode]
  · intro s l s' hreach hs hstep
    have hreach : Reaches outcome interrupts s := hreach
    exact counted_takes hs hreach.atStages hreach.codeInv hreach.lockInv hreach.callInv
      (takes_of_step hstep).2

/-- A handler that lives has a reference. -/
theorem Reaches.refs_pos_of_live (h : Reaches outcome interrupts s) {k : ℕ}
    (hk : s.threads.code (.handler k) ≠ []) : 0 < s.refs := by
  have hpos := Finset.card_pos.mpr ⟨k, (mem_liveHandlers h.lockInv).mpr hk⟩
  have hcount := h.counted
  rw [Counted] at hcount
  omega

/-- Until the destructor ends the function has a reference. -/
theorem Reaches.refs_pos_of_function (h : Reaches outcome interrupts s)
    (hdestructor : s.destructor ≠ .finished) : 0 < s.refs := by
  have hcount := h.counted
  rw [Counted, State.functionRefs, if_neg hdestructor] at hcount
  omega

/-- A call of the function ends before the destructor does. -/
theorem Reaches.refs_pos_of_event (h : Reaches outcome interrupts s)
    (hcode : s.threads.code .event ≠ []) : 0 < s.refs :=
  h.refs_pos_of_function fun hfinished => hcode (h.code_of_joined (.inr hfinished))

/-- Nobody touches the callable once its last reference is gone. -/
theorem Reaches.refs_pos_of_access (h : Reaches outcome interrupts s) {l : Label} {t : ThreadId}
    (hstep : step outcome s l = some s') (ht : accesses s l = some t) : 0 < s.refs := by
  cases (takes_of_step hstep).2 with
  | lock u T hbusy hexec | act u a T _ hbusy hexec heffect =>
      obtain ⟨i, rest, hfirst, -⟩ := Threads.exec_eq_some hexec
      have hne : s.threads.code u ≠ [] := by simp [hfirst]
      cases u with
      | event => exact h.refs_pos_of_event hne
      | handler k => exact h.refs_pos_of_live hne
      | python p =>
          simp only [accesses, hfirst] at ht
          split at ht
          · next heq =>
              cases heq
              cases h.codeInv (.python p) .copy (by simp [hfirst])
          · next heq =>
              cases heq
              cases h.codeInv (.python p) .destroy (by simp [hfirst])
          · cases ht
  | enter k steps rest v hbusy hcode hval =>
      have hne : s.threads.code (.handler k) ≠ [] := by simp [hcode]
      exact h.refs_pos_of_live hne
  | destroyed u hdestructor => exact h.refs_pos_of_function (by simp [hdestructor])
  | _ => cases ht

/-- The callable is deallocated when the destructor has ended and every handler
has, and not before. -/
theorem Reaches.refs_eq_zero_iff (h : Reaches outcome interrupts s) :
    s.refs = 0 ↔ s.destructor = .finished ∧ ∀ k, s.threads.code (.handler k) = [] := by
  constructor
  · intro hzero
    constructor
    · by_contra hfinished
      exact (h.refs_pos_of_function hfinished).ne' hzero
    · intro k
      by_contra hlive
      exact (h.refs_pos_of_live hlive).ne' hzero
  · rintro ⟨hfinished, hdead⟩
    have hlive : s.liveHandlers = ∅ := by
      ext k
      simp [mem_liveHandlers h.lockInv, hdead]
    have hcall : s.callRefs = 0 := by
      rw [State.callRefs, h.code_of_joined (.inr hfinished)]
      rfl
    rw [h.counted, State.functionRefs, if_pos hfinished, hcall, hlive, Finset.card_empty]

/-- The event thread has been joined. -/
def State.Joined (s : State) : Prop := (∃ t, s.destructor = .joined t) ∨ s.destructor = .finished

/-- After the join no handler starts. -/
theorem joined_takes {l : Label} (hjoined : s.Joined) (hevent : EventInv s)
    (hstep : Takes outcome s l s') : s'.Joined ∧ s'.values = s.values ∧
      (s.destructor = .finished → s'.destructor = .finished) := by
  have hstopped := hevent.joined hjoined
  cases hstep with
  | deliver v rest hwaiting hpending => simp [hstopped] at hwaiting
  | functionReturns v hcalling hcode hdetached => simp [hstopped] at hcalling
  | destroysJoinable v hcalling hcode hjoinable => simp [hstopped] at hcalling
  | eventStops hwaiting hstop => simp [hstopped] at hwaiting
  | act t a T _ hbusy hexec heffect =>
      obtain ⟨v, -, hcalling, -⟩ | ⟨-, rfl⟩ | ⟨-, -, -, refs, joinable, rfl⟩ := effect_cases heffect
      · simp [hstopped] at hcalling
      · exact ⟨hjoined, rfl, id⟩
      · exact ⟨hjoined, rfl, id⟩
  | beginDestroy t halive hpython hown => simp [State.Joined, halive] at hjoined
  | tell t hdestructor => simp [State.Joined, hdestructor] at hjoined
  | join t hdestructor hstopped => simp [State.Joined, hdestructor] at hjoined
  | destroyed t hdestructor => exact ⟨.inr rfl, rfl, fun _ => rfl⟩
  | lock | enter | giveUp => exact ⟨hjoined, rfl, id⟩

/-- A handler that is not alive stays so if none starts. -/
theorem Reaches.dead_step (h : Reaches outcome interrupts s) {l : Label}
    (hstep : step outcome s l = some s') (hvalues : s'.values = s.values) {k : ℕ}
    (hdead : s.threads.code (.handler k) = []) : s'.threads.code (.handler k) = [] := by
  have hstages := h.atStages k
  have hstages' := Reaches.atStages (h.tail hstep : Reaches outcome interrupts s') k
  have hnext : Relation.ReflGen Stage.Next (s.stage k) (s'.stage k) := by
    obtain heq | hturn := (Relation.reflGen_iff ..).mp (h.turn hstep)
    · rw [heq]
    · exact hturn.reflGen k
  by_cases hk : s.values.length ≤ k
  · rw [hstages'.code, hstages'.started.mp (hvalues ▸ hk)]
    rfl
  · have hlate : s.stage k = .finished := by
      rw [State.stage, if_neg hk, hdead]
      rfl
    rw [hlate] at hnext
    obtain heq | hedge := (Relation.reflGen_iff ..).mp hnext
    · rw [hstages'.code, heq]
      rfl
    · cases hedge

theorem Reaches.liveHandlers_antitone (h : Reaches outcome interrupts s) (hjoined : s.Joined)
    (labels : List Label) (hrun : run (step outcome) s labels = some s') :
    s'.Joined ∧ s'.values = s.values ∧ (s.destructor = .finished → s'.destructor = .finished) ∧
      s'.liveHandlers ⊆ s.liveHandlers := by
  induction labels generalizing s with
  | nil =>
      obtain rfl := Option.some.inj hrun
      exact ⟨hjoined, rfl, id, subset_rfl⟩
  | cons l rest ih =>
      obtain ⟨mid, hmid, hrest⟩ := Option.bind_eq_some_iff.mp hrun
      have hreach : Reaches outcome interrupts mid := h.tail hmid
      obtain ⟨hjoined', hvalues, hfinished⟩ :=
        joined_takes hjoined h.eventInv (takes_of_step hmid).2
      obtain ⟨hend, hvalues', hfinished', hlive⟩ := ih hreach hjoined' hrest
      refine ⟨hend, hvalues'.trans hvalues, hfinished' ∘ hfinished, hlive.trans fun k hk => ?_⟩
      rw [mem_liveHandlers hreach.lockInv] at hk
      rw [mem_liveHandlers h.lockInv]
      exact fun hdead => hk (h.dead_step hmid hvalues hdead)

end Count

section Results
variable {outcome : ℕ → CallOutcome} {interrupts : List Int32} {s s' : State}

/-- The reference count is the number of closures in every interleaving. -/
theorem refs_eq_closures (h : Reaches outcome interrupts s) :
    s.refs = s.functionRefs + s.callRefs + s.liveHandlers.card :=
  h.counted

/-- Nobody touches the callable after its last reference is gone, which is when
the destructor and all handlers have ended. -/
theorem no_use_after_free (h : Reaches outcome interrupts s) :
    (∀ l s' t, step outcome s l = some s' → accesses s l = some t → 0 < s.refs) ∧
      (s.refs = 0 ↔ s.destructor = .finished ∧ ∀ k, s.threads.code (.handler k) = []) :=
  ⟨fun _ _ _ hstep ht => h.refs_pos_of_access hstep ht, h.refs_eq_zero_iff⟩

/-- After the join the event thread stays stopped, no handler starts and no
reference is added. -/
theorem after_join (h : Reaches outcome interrupts s) (hjoined : s.Joined) (labels : List Label)
    (hrun : run (step outcome) s labels = some s') :
    s'.event = .stopped ∧ s'.values = s.values ∧ s'.liveHandlers ⊆ s.liveHandlers ∧
      s'.refs ≤ s.refs := by
  have hreach : Reaches outcome interrupts s' := h.run labels hrun
  obtain ⟨hjoined', hvalues, hfinished, hlive⟩ := h.liveHandlers_antitone hjoined labels hrun
  refine ⟨hreach.eventInv.joined hjoined', hvalues, hlive, ?_⟩
  have hidle : ∀ {u : State}, Reaches outcome interrupts u → u.Joined → u.callRefs = 0 := by
    intro u hu hj
    rw [State.callRefs, hu.code_of_joined hj]
    rfl
  have hfunction : s'.functionRefs ≤ s.functionRefs := by
    unfold State.functionRefs
    split <;> split <;> simp_all
  rw [hreach.counted, h.counted, hidle h hjoined, hidle hreach hjoined']
  have hcard := Finset.card_le_card hlive
  omega

/-- The last reference goes with the function, under the GIL, if all handlers
have ended by then; otherwise it goes with the closure of the last handler, on a
thread that does not own the GIL. -/
theorem last_reference (h : Reaches outcome interrupts s) {l : Label}
    (hstep : step outcome s l = some s') (hbefore : 0 < s.refs) (hafter : s'.refs = 0) :
    (∃ t, l = .destroyed ∧ s.destructor = .joined t ∧ s.liveHandlers = ∅ ∧
        s.threads.owner = some t) ∨
      ∃ k, l = .run (.handler k) ∧ s.destructor = .finished ∧ s.liveHandlers = {k} ∧
        s.threads.owner ≠ some (.handler k) := by
  have hreach : Reaches outcome interrupts s' := h.tail hstep
  obtain ⟨hfinished, hdead⟩ := hreach.refs_eq_zero_iff.mp hafter
  have htakes := (takes_of_step hstep).2
  cases htakes with
  | destroyed t hdestructor =>
      refine .inl ⟨t, rfl, hdestructor, ?_, h.destructorInv.owns t (by rw [hdestructor]; rfl)⟩
      ext k
      simpa [mem_liveHandlers h.lockInv] using hdead k
  | act t a T _ hbusy hexec heffect =>
      obtain ⟨rest, hfirst, -⟩ := Threads.exec_eq_act hexec
      have hruns := h.codeInv t a (by simp [hfirst])
      have hkeeps : s.destructor = .finished := by
        obtain ⟨hdestructor, -⟩ := effect_destructor heffect
        exact hdestructor.symm.trans hfinished
      cases t with
      | event =>
          rw [h.code_of_joined (.inr hkeeps)] at hfirst
          cases hfirst
      | handler k =>
          have hcopy : a ≠ .copy := by
            rintro rfl
            simp [Runs, innerLambda] at hruns
          by_cases ha : a = .destroy
          · subst ha
            cases heffect
            have hmem : k ∈ s.liveHandlers := by simp [mem_liveHandlers h.lockInv, hfirst]
            have hnone : s.liveHandlers.erase k = ∅ := by
              have hlive := liveHandlers_exec h.atStages h.lockInv hexec
              rw [if_pos rfl] at hlive
              have hlock : LockInv T s.values.length := h.lockInv.exec hexec
              rw [← hlive]
              ext j
              simpa [mem_liveHandlers (s := { s with threads := T }) hlock] using hdead j
            have hone : s.liveHandlers = {k} :=
              (Finset.erase_eq_empty_iff _ _).mp hnone |>.resolve_left (Finset.ne_empty_of_mem hmem)
            refine .inr ⟨k, rfl, hkeeps, hone, fun hown => ?_⟩
            have hfree := Stage.owns_of_destroy ((h.atStages k).code ▸ hfirst)
            rw [(h.atStages k).owner.mp hown] at hfree
            cases hfree
          · exact absurd ((effect_refs hcopy ha heffect).symm.trans hafter) hbefore.ne'
      | python p => cases hruns
  | _ => exact absurd hafter hbefore.ne'

end Results

/-- The trampoline in the middle of handing an interrupt over. -/
def handingOver : List Label := [.deliver, .run .event, .run .event]

/-- The function's closure and that of the handler that has just been started. -/
theorem refs_eq_closures_handing_over :
    ∃ s : State, s.refs = 2 ∧ s.refs = s.functionRefs + s.callRefs + s.liveHandlers.card := by
  have hreach : Reaches (fun _ => .returns) [73] _ :=
    (Reachable.refl (initial [73])).run handingOver rfl
  exact ⟨_, rfl, refs_eq_closures hreach⟩

/-- The event thread copies a callable that the function keeps alive. -/
theorem no_use_after_free_first_copy :
    ∃ s s' : State, step (fun _ => .returns) s (.run .event) = some s' ∧ 0 < s.refs := by
  have hreach : Reaches (fun _ => .returns) [73] _ :=
    (Reachable.refl (initial [73])).run [.deliver] rfl
  exact ⟨_, _, rfl, (no_use_after_free hreach).1 (.run .event) _ .event rfl rfl⟩

/-- The object is destroyed and nothing was delivered. -/
def destruction : List Label := [.beginDestroy (.python 0), .tell, .eventStops, .join]

/-- Joined with an interrupt still ahead, which is never delivered. -/
theorem after_join_undelivered :
    ∃ s s' : State, s.pending = [73] ∧ s'.destructor = .finished ∧ s'.values = s.values := by
  have hreach : Reaches (fun _ => .returns) [73] _ :=
    (Reachable.refl (initial [73])).run destruction rfl
  exact ⟨_, _, rfl, rfl, (after_join hreach (.inl ⟨.python 0, rfl⟩) [.destroyed] rfl).2.1⟩

/-- A handler starts, the object is destroyed, and the handler ends after it. -/
theorem last_reference_of_handler :
    ∃ s s' : State, step (fun _ => .returns) s (.run (.handler 0)) = some s' ∧ s.refs = 1 ∧
      s'.refs = 0 ∧ s.threads.owner ≠ some (.handler 0) := by
  have hrefs : (run (step fun _ => .returns) (initial [73])
      ([.deliver, .run .event, .run .event, .run .event, .functionReturns] ++ destruction ++ [.destroyed, .giveUp (.python 0), .run (.handler 0),
        .enter 0 0, .run (.handler 0), .run (.handler 0)])).bind
      (fun s => (step (fun _ => .returns) s (.run (.handler 0))).map fun s' => (s.refs, s'.refs)) =
        some (1, 0) := by
    decide +kernel
  obtain ⟨s, hs, hlast⟩ := Option.bind_eq_some_iff.mp hrefs
  obtain ⟨s', hstep, hpair⟩ := Option.map_eq_some_iff.mp hlast
  obtain ⟨hbefore, hafter⟩ := Prod.mk.inj hpair
  have hreach : Reaches (fun _ => .returns) [73] s := (Reachable.refl _).run _ hs
  refine ⟨s, s', hstep, hbefore, hafter, ?_⟩
  obtain ⟨t, hlabel, -⟩ | ⟨k, hlabel, -, -, howner⟩ :=
    last_reference hreach hstep (by omega) hafter
  · cases hlabel
  · cases hlabel
    exact howner

end PyCoyote.Trampoline
