import PyCoyote.Coyote

/-!
# Operations of the wrapper as state transformers

An operation reads and writes the wrapper's own state, creates and ends C++
storage objects, calls Coyote and may raise. State written before an exception
stays written, as in the source: nothing here undoes it.
-/

namespace PyCoyote

/-- The member `qp_dtype`, and whether it has been assigned since construction. -/
structure QpDtype where
  value : DataType
  assigned : Bool
deriving DecidableEq, Repr

/-- `qp_dtype` as the constructor leaves it: the strings are empty and `size`
is whatever the memory held. -/
def QpDtype.uninitialised (bits : UInt64) : QpDtype := ⟨⟨"", "", bits⟩, false⟩

/-- The state an operation runs in. -/
structure WrapperState where
  qpDtype : QpDtype
  storage : List StorageObject
deriving DecidableEq, Repr

/-- The state after the constructor `cThreadWrapper::cThreadWrapper`. -/
def WrapperState.constructed (bits : UInt64) : WrapperState :=
  ⟨QpDtype.uninitialised bits, []⟩

/-- What an operation did: its value or exception, the state it left and the
calls it made, in order. -/
structure Outcome (α : Type) where
  result : Except PyError α
  state : WrapperState
  exchanges : List Exchange

/-- The calls made, without Coyote's side of them. -/
def Outcome.calls {α : Type} (o : Outcome α) : List CoyoteCall := o.exchanges.map (·.call)

/-- The operation ended by an exception. -/
def Outcome.Raised {α : Type} (o : Outcome α) : Prop := ∃ e, o.result = .error e

/-- The operation ended by an exception without having called Coyote. -/
def Outcome.Rejected {α : Type} (o : Outcome α) : Prop := o.Raised ∧ o.exchanges = []

theorem answer_of_isOk {answer : Answer} (h : answer.isOk = true) :
    ∃ v, answer = .ok v := by
  cases answer with
  | ok v => exact ⟨v, rfl⟩
  | error msg => cases h

theorem except_map_eq_ok {ε α β : Type} {f : α → β} {x : Except ε α} {b : β}
    (h : x.map f = .ok b) : ∃ a, x = .ok a ∧ f a = b := by
  cases x with
  | ok a => exact ⟨a, rfl, Except.ok.inj h⟩
  | error e => cases h

/-- The operation made exactly one call, and raised exactly when that call threw. -/
structure Outcome.OneCall {α : Type} (o : Outcome α) (answer : Answer) : Prop where
  exchange : ∃ c storage, o.exchanges = [⟨c, storage, answer.isOk⟩]
  raised_iff : o.Raised ↔ answer.isOk = false

theorem Outcome.OneCall.of_ok {α : Type} (a : α) (s : WrapperState) (c : CoyoteCall)
    (storage : List StorageObject) (v : UInt64) :
    Outcome.OneCall ⟨.ok a, s, [⟨c, storage, true⟩]⟩ (.ok v) :=
  ⟨⟨c, storage, rfl⟩, iff_of_false (fun ⟨_, h⟩ => nomatch h) Bool.true_eq_false.mp⟩

theorem Outcome.OneCall.of_error {α : Type} (e : PyError) (s : WrapperState) (c : CoyoteCall)
    (storage : List StorageObject) (msg : String) :
    Outcome.OneCall (α := α) ⟨.error e, s, [⟨c, storage, false⟩]⟩ (.error msg) :=
  ⟨⟨c, storage, rfl⟩, iff_of_true ⟨e, rfl⟩ rfl⟩

/-- The same outcome with its value converted. -/
def Outcome.map {α β : Type} (f : α → β) (o : Outcome α) : Outcome β :=
  ⟨o.result.map f, o.state, o.exchanges⟩

/-- An operation, given Coyote's answer to the call it makes. -/
def Op (α : Type) := Answer → WrapperState → Outcome α

namespace Op

variable {α β : Type}

/-- Run the second operation where the first returned, after its calls. -/
def bind (x : Op α) (f : α → Op β) : Op β := fun answer s =>
  match x answer s with
  | ⟨.error e, s', xs⟩ => ⟨.error e, s', xs⟩
  | ⟨.ok a, s', xs⟩ =>
      let o := f a answer s'
      ⟨o.result, o.state, xs ++ o.exchanges⟩

instance : Monad Op where
  pure a := fun _ s => ⟨.ok a, s, []⟩
  bind := bind

/-- `throw` -/
def raise (e : PyError) : Op α := fun _ s => ⟨.error e, s, []⟩

/-- A constructor or conversion that changes no state. -/
def lift (x : Except PyError α) : Op α := fun _ s => ⟨x, s, []⟩

/-- A call of Coyote; an exception it throws propagates. -/
def call (c : CoyoteCall) : Op UInt64 := fun answer s =>
  match answer with
  | .ok v => ⟨.ok v, s, [⟨c, s.storage, true⟩]⟩
  | .error msg => ⟨.error (.coyoteError msg), s, [⟨c, s.storage, false⟩]⟩

/-- A call whose result is not used. -/
def invoke (c : CoyoteCall) : Op Unit := do
  let _ ← call c
  pure ()

/-- Assign `qp_dtype`. -/
def setQpDtype (d : DataType) : Op Unit := fun _ s =>
  ⟨.ok (), { s with qpDtype := ⟨d, true⟩ }, []⟩

/-- Read `qp_dtype`. -/
def getQpDtype : Op DataType := fun _ s => ⟨.ok s.qpDtype.value, s, []⟩

/-- Create a `std::string`; its storage object is identified by its position. -/
def newString (chars : List Char) : Op Nat := fun _ s =>
  ⟨.ok s.storage.length, { s with storage := s.storage ++ [⟨chars, true⟩] }, []⟩

/-- End the lifetime of a storage object. -/
def endLifetime (object : Nat) : Op Unit := fun _ s =>
  ⟨.ok (), { s with storage := s.storage.modify object fun o => { o with alive := false } }, []⟩

variable (answer : Answer) (s : WrapperState)

@[simp] theorem raise_run (e : PyError) : (raise e : Op α) answer s = ⟨.error e, s, []⟩ := rfl

@[simp] theorem lift_run (x : Except PyError α) : lift x answer s = ⟨x, s, []⟩ := rfl

@[simp] theorem call_ok_run (c : CoyoteCall) (v : UInt64) :
    call c (.ok v) s = ⟨.ok v, s, [⟨c, s.storage, true⟩]⟩ := rfl

@[simp] theorem call_error_run (c : CoyoteCall) (msg : String) :
    call c (.error msg) s = ⟨.error (.coyoteError msg), s, [⟨c, s.storage, false⟩]⟩ := rfl

theorem bind_ok {x : Op α} {f : α → Op β} {a : α} {s' : WrapperState} {xs : List Exchange}
    (h : x answer s = ⟨.ok a, s', xs⟩) :
    (x >>= f) answer s =
      ⟨(f a answer s').result, (f a answer s').state, xs ++ (f a answer s').exchanges⟩ := by
  change bind x f answer s = _
  simp only [bind, h]

theorem bind_error {x : Op α} {f : α → Op β} {e : PyError} {s' : WrapperState}
    {xs : List Exchange} (h : x answer s = ⟨.error e, s', xs⟩) :
    (x >>= f) answer s = ⟨.error e, s', xs⟩ := by
  change bind x f answer s = _
  simp only [bind, h]

@[simp] theorem invoke_calls (c : CoyoteCall) : (invoke c answer s).calls = [c] := by
  cases answer <;> rfl

theorem invoke_not_rejected (c : CoyoteCall) : ¬(invoke c answer s).Rejected := by
  rintro ⟨-, h⟩
  cases answer <;> cases h

@[simp] theorem raise_rejected (e : PyError) : ((raise e : Op α) answer s).Rejected :=
  ⟨⟨e, rfl⟩, rfl⟩

/-- A pure first step only passes its value on. -/
@[simp] theorem pure_bind_run (a : α) (f : α → Op β) :
    ((pure a : Op α) >>= f) answer s = f a answer s := rfl

@[simp] theorem raise_bind_run (e : PyError) (f : α → Op β) :
    ((raise e : Op α) >>= f) answer s = ⟨.error e, s, []⟩ := rfl

@[simp] theorem setQpDtype_bind_run (d : DataType) (f : Unit → Op β) :
    (setQpDtype d >>= f) answer s = f () answer { s with qpDtype := ⟨d, true⟩ } := rfl

@[simp] theorem getQpDtype_bind_run (f : DataType → Op β) :
    (getQpDtype >>= f) answer s = f s.qpDtype.value answer s := rfl

@[simp] theorem call_error_bind_run (c : CoyoteCall) (msg : String) (f : UInt64 → Op β) :
    (call c >>= f) (.error msg) s =
      ⟨.error (.coyoteError msg), s, [⟨c, s.storage, false⟩]⟩ := rfl

end Op

namespace Outcome

variable {α β : Type} {f : α → β} {o : Outcome α}

@[simp] theorem map_exchanges : (o.map f).exchanges = o.exchanges := rfl

@[simp] theorem map_calls : (o.map f).calls = o.calls := rfl

end Outcome

end PyCoyote
