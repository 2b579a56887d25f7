import Mathlib.Algebra.Group.Nat.Defs
import Mathlib.Data.List.Basic

/-!
# What the bindings see of Python

Only the parts of Python objects that the wrapper and CPython's `memoryview`
read: the outcome of the conversions they apply. Exceptions keep their class
and text.
-/

namespace PyCoyote

/-- The exceptions a call of the library can raise, each standing for the
subclasses of its class too. `coyoteError` carries the text of an exception
thrown by the Coyote library, `other` one of a class that none of these is. -/
inductive PyError where
  | runtimeError (msg : String)
  | castError
  | indexError (msg : String)
  | typeError (msg : String)
  | valueError (msg : String)
  | overflowError (msg : String)
  | notImplementedError (msg : String)
  | coyoteError (msg : String)
  | other (className msg : String)
deriving DecidableEq, Repr

/-- An object handed to `memoryview.__setitem__`: its `operator.index`, its truth
test and the IEEE bits of its float at a byte width, or what each of them raises. -/
structure PyObject where
  index : Except PyError ℤ
  truth : Except PyError Bool
  ieee : Except PyError (ℕ → ℕ)

theorem toOption_eq_some {α : Type} {x : Except PyError α} {a : α} :
    x.toOption = some a ↔ x = .ok a := by
  cases x <;> simp [Except.toOption]

/-- `n` rounded to `p` significant bits, a tie to the even neighbour. -/
def roundToBits (p n : ℕ) : ℕ :=
  let unit := 2 ^ (n.log2 + 1 - p)
  let down := n / unit
  let rest := n % unit
  if unit < 2 * rest ∨ (unit = 2 * rest ∧ down % 2 = 1) then (down + 1) * unit else down * unit

/-- The IEEE bits of the integer nearest to `z` that has `p` significant bits, in a
format of `bits` bits; infinity if that is out of range. -/
def ieeeOfInt (bits p : ℕ) (z : ℤ) : ℕ :=
  let n := roundToBits p z.natAbs
  let sign := if z < 0 then 2 ^ (bits - 1) else 0
  let bias := 2 ^ (bits - p - 1) - 1
  if n = 0 then 0
  else if n.log2 ≤ bias then
    sign + (n.log2 + bias - 1) * 2 ^ (p - 1) + n * 2 ^ (p - 1) / 2 ^ n.log2
  else sign + (2 ^ (bits - p) - 1) * 2 ^ (p - 1)

/-- A Python `int`. Its float is a double, which a narrower format rounds again. -/
def PyObject.ofInt (z : ℤ) : PyObject where
  index := .ok z
  truth := .ok (z ≠ 0)
  ieee :=
    let double := z.sign * roundToBits 53 z.natAbs
    if double.natAbs.log2 < 1024 then
      .ok fun width => if width = 4 then ieeeOfInt 32 24 double else ieeeOfInt 64 53 double
    else .error (.overflowError "int too large to convert to float")

/-- A value read from a `memoryview`; floats are kept as their bits. -/
inductive PyValue where
  | int (z : ℤ)
  | bool (b : Bool)
  | float (bits : ℕ)
deriving DecidableEq, Repr

/-- The `server_address` argument: `None`, an object that pybind11 casts to
`std::string`, or one that it does not. -/
inductive ServerAddress where
  | none
  | text (chars : List Char)
  | notText
deriving DecidableEq, Repr

/-- `server_address.is_none()` -/
def ServerAddress.isNone : ServerAddress → Bool
  | .none => true
  | _ => false

end PyCoyote
