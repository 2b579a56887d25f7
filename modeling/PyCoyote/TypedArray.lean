import PyCoyote.DataType
import PyCoyote.Library.EventTrace
import Mathlib.Algebra.Group.Int.Defs
import Mathlib.Logic.Function.Basic

/-!
# Typed arrays of fixed length

What a buffer of integers or booleans is meant to be: an array of `n` values of
one kind, indexed as Python indexes lists, with generators that walk it. The
values of a kind are a type, so an array never holds a value out of range.
-/

namespace PyCoyote

/-- The kinds of values an array may hold. An integer lies in `[lo, hi)`. -/
inductive ElementKind where
  | truth
  | integer (lo hi : ℤ)
deriving DecidableEq, Repr

namespace ElementKind

/-- The kind of a data type, by its canonical name; floats have none. -/
def ofName : String → Option ElementKind
  | "bool" => some .truth
  | "char" => some (.integer (-2 ^ 7) (2 ^ 7))
  | "int8" => some (.integer (-2 ^ 7) (2 ^ 7))
  | "uint8" => some (.integer 0 (2 ^ 8))
  | "int16" => some (.integer (-2 ^ 15) (2 ^ 15))
  | "uint16" => some (.integer 0 (2 ^ 16))
  | "int32" => some (.integer (-2 ^ 31) (2 ^ 31))
  | "uint32" => some (.integer 0 (2 ^ 32))
  | "int64" => some (.integer (-2 ^ 63) (2 ^ 63))
  | "uint64" => some (.integer 0 (2 ^ 64))
  | _ => none

/-- The values of a kind. -/
def Value : ElementKind → Type
  | .truth => Bool
  | .integer lo hi => {z : ℤ // lo ≤ z ∧ z < hi}

/-- A value as Python reads it. -/
def Value.toPy : {k : ElementKind} → k.Value → PyValue
  | .truth, b => .bool b
  | .integer _ _, z => .int z.val

/-- The value an object stands for: its truth value, or its integer if that is
in range. -/
def accept : (k : ElementKind) → PyObject → Option k.Value
  | .truth, v => v.truth.toOption
  | .integer lo hi, v => v.index.toOption.bind fun z =>
      if h : lo ≤ z ∧ z < hi then some ⟨z, h⟩ else none

end ElementKind

/-- The element that an integer names in a Python sequence of length `n`. -/
def pyIndex (n : ℕ) (i : ℤ) : Option (Fin n) :=
  if h : 0 ≤ i ∧ i < n then some ⟨i.toNat, by omega⟩
  else if h : -n ≤ i ∧ i < 0 then some ⟨(i + n).toNat, by omega⟩
  else none

theorem pyIndex_natCast {n j : ℕ} (h : j < n) : pyIndex n j = some ⟨j, h⟩ := by
  unfold pyIndex
  rw [dif_pos ⟨by omega, by omega⟩]
  rfl

theorem pyIndex_eq_none_iff {n : ℕ} {i : ℤ} : pyIndex n i = none ↔ ¬(-n ≤ i ∧ i < n) := by
  unfold pyIndex
  split
  · simp only [reduceCtorEq, false_iff]
    omega
  · split
    · simp only [reduceCtorEq, false_iff]
      omega
    · simp only [true_iff]
      omega

/-- What a program asks of an array. Every natural number names a generator of
its own, unstarted until its first `next`. -/
inductive Request where
  | getItem (i : ℤ)
  | setItem (i : ℤ) (value : PyObject)
  | len
  | next (generator : ℕ)

/-- The answers other than an exception. -/
inductive Response where
  | value (v : PyValue)
  | assigned
  | length (n : ℕ)
  | stop
deriving DecidableEq, Repr

/-- An array and the positions of the generators that walk it. -/
structure TypedArray (k : ElementKind) (n : ℕ) where
  items : Vector k.Value n
  positions : ℕ → ℕ

namespace TypedArray

variable {k : ElementKind} {n : ℕ}

/-- The answer to a request, `none` for an exception. -/
def respond (a : TypedArray k n) : Request → Option Response
  | .getItem i => (pyIndex n i).map fun j => .value a.items[j].toPy
  | .setItem i v => (pyIndex n i).bind fun _ => (k.accept v).map fun _ => .assigned
  | .len => some (.length n)
  | .next g =>
      if h : a.positions g < n then some (.value a.items[a.positions g].toPy) else some .stop

/-- The items after an assignment; a failed one changes nothing. -/
def assign (a : TypedArray k n) (i : ℤ) (v : PyObject) : Vector k.Value n :=
  match pyIndex n i, k.accept v with
  | some j, some w => a.items.set j w
  | _, _ => a.items

/-- The array after a request. -/
def step (a : TypedArray k n) : Request → TypedArray k n
  | .setItem i v => { a with items := a.assign i v }
  | .next g =>
      if a.positions g < n then
        { a with positions := Function.update a.positions g (a.positions g + 1) }
      else a
  | .getItem _ => a
  | .len => a

end TypedArray

end PyCoyote
