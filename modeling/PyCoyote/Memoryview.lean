import PyCoyote.CBuffer
import PyCoyote.Library.NativeInt
import PyCoyote.Library.PackedArray

/-!
# `memoryview` on a one-dimensional buffer

CPython's `memoryview` reads and writes items of a native format: it resolves
the index, finds the item through the stride and unpacks or packs its bytes.
The memory is the process's own, in the byte order of the machine.
-/

namespace PyCoyote

open Library.NativeInt Library.PackedArray

/-- The native single-item formats the data types use, with their widths in bytes. -/
inductive NativeFormat where
  | bool
  | signed (width : ℕ)
  | unsigned (width : ℕ)
  | floating (width : ℕ)
deriving DecidableEq, Repr

/-- The native format of a format string. -/
def nativeFormat : String → Option NativeFormat
  | "?" => some .bool
  | "b" => some (.signed 1)
  | "B" => some (.unsigned 1)
  | "h" => some (.signed 2)
  | "H" => some (.unsigned 2)
  | "i" => some (.signed 4)
  | "I" => some (.unsigned 4)
  | "q" => some (.signed 8)
  | "Q" => some (.unsigned 8)
  | "f" => some (.floating 4)
  | "d" => some (.floating 8)
  | _ => none

namespace NativeFormat

/-- The number of bytes of an item. -/
def width : NativeFormat → ℕ
  | .bool => 1
  | .signed width => width
  | .unsigned width => width
  | .floating width => width

/-- `unpack_single` -/
def unpack (order : ByteOrder) : NativeFormat → List UInt8 → PyValue
  | .bool, bytes => .bool (bytes.any (· ≠ 0))
  | .signed _, bytes => .int (toSigned order bytes)
  | .unsigned _, bytes => .int (toUnsigned order bytes)
  | .floating _, bytes => .float (toUnsigned order bytes)

/-- `type_error_int` -/
def typeErrorInt (fmt : String) : PyError :=
  .typeError ("memoryview: invalid type for format '" ++ fmt ++ "'")

/-- `value_error_int` -/
def valueErrorInt (fmt : String) : PyError :=
  .valueError ("memoryview: invalid value for format '" ++ fmt ++ "'")

/-- `fix_error_int`: an exception of the conversion that is about the type or the
value is replaced; any other one propagates. -/
def fixErrorInt (fmt : String) : PyError → PyError
  | .typeError _ => typeErrorInt fmt
  | .overflowError _ => valueErrorInt fmt
  | .valueError _ => valueErrorInt fmt
  | e => e

/-- Pack an integer that must lie in `[lo, hi)`. -/
def packInt (order : ByteOrder) (fmt : String) (width : ℕ) (lo hi : ℤ) (value : PyObject) :
    Except PyError (List UInt8) :=
  match value.index with
  | .error e => .error (fixErrorInt fmt e)
  | .ok z =>
      if lo ≤ z ∧ z < hi then .ok (toBytes order width (z % 256 ^ width).toNat)
      else .error (valueErrorInt fmt)

/-- `pack_single`; the exception of a truth test is preserved. -/
def pack (order : ByteOrder) (fmt : String) : NativeFormat → PyObject →
    Except PyError (List UInt8)
  | .bool, value => value.truth.map fun b => [if b then 1 else 0]
  | .signed width, value =>
      packInt order fmt width (-(256 ^ width / 2)) (256 ^ width / 2) value
  | .unsigned width, value => packInt order fmt width 0 (256 ^ width) value
  | .floating width, value =>
      match value.ieee with
      | .error e => .error (fixErrorInt fmt e)
      | .ok bits => .ok (toBytes order width (bits width))

theorem length_of_pack {order : ByteOrder} {fmt : String} {format : NativeFormat}
    {value : PyObject} {bytes : List UInt8} (h : format.pack order fmt value = .ok bytes) :
    bytes.length = format.width := by
  have hint : ∀ width lo hi, packInt order fmt width lo hi value = .ok bytes →
      bytes.length = width := by
    intro width lo hi hpack
    unfold packInt at hpack
    split at hpack
    · cases hpack
    · split at hpack
      · cases hpack
        exact length_toBytes _ _ _
      · cases hpack
  cases format with
  | bool =>
      cases htruth : value.truth with
      | error e => simp [pack, htruth, Except.map] at h
      | ok b =>
          obtain rfl : [if b then 1 else 0] = bytes := by
            simpa [pack, htruth, Except.map] using h
          rfl
  | signed width => exact hint width _ _ h
  | unsigned width => exact hint width _ _ h
  | floating width =>
      simp only [pack] at h
      split at h
      · cases h
      · cases h
        exact length_toBytes _ _ _

/-- The exception of a conversion becomes one that names the format or propagates. -/
theorem fixErrorInt_cases {α : Type} {x : Except PyError α} {raised : PyError} (fmt : String)
    (hx : x = .error raised) : fixErrorInt fmt raised = typeErrorInt fmt ∨
      fixErrorInt fmt raised = valueErrorInt fmt ∨ x = .error (fixErrorInt fmt raised) := by
  rw [hx]
  cases raised <;> simp [fixErrorInt]

/-- What an assignment raises names the format or comes from the object itself. -/
theorem error_of_pack {order : ByteOrder} {fmt : String} {format : NativeFormat}
    {value : PyObject} {e : PyError} (h : format.pack order fmt value = .error e) :
    e = typeErrorInt fmt ∨ e = valueErrorInt fmt ∨
      value.index = .error e ∨ value.ieee = .error e ∨ value.truth = .error e := by
  have hint : ∀ width lo hi, packInt order fmt width lo hi value = .error e →
      e = typeErrorInt fmt ∨ e = valueErrorInt fmt ∨ value.index = .error e := by
    intro width lo hi hpack
    unfold packInt at hpack
    split at hpack
    · next raised hindex =>
        cases hpack
        exact fixErrorInt_cases fmt hindex
    · split at hpack <;> cases hpack
      exact .inr (.inl rfl)
  cases format with
  | bool =>
      cases htruth : value.truth with
      | error raised =>
          obtain rfl : raised = e := by simpa [pack, htruth, Except.map] using h
          exact .inr (.inr (.inr (.inr rfl)))
      | ok b => simp [pack, htruth, Except.map] at h
  | signed width | unsigned width => exact (hint width _ _ h).imp_right (Or.imp_right .inl)
  | floating width =>
      simp only [pack] at h
      split at h
      · next raised hieee =>
          cases h
          exact (fixErrorInt_cases fmt hieee).imp_right (Or.imp_right fun hx => .inr (.inl hx))
      · cases h

end NativeFormat

namespace Memoryview

/-- The first and only entry of the shape. -/
def length (mv : Memoryview) : ℕ := mv.info.shape.headD 0

/-- The item an index names: the index must be a machine integer, counts from
the end if negative and must then be in bounds. -/
def resolve (mv : Memoryview) (i : ℤ) : Except PyError ℕ :=
  if -2 ^ 63 ≤ i ∧ i < 2 ^ 63 then
    let index := if i < 0 then i + mv.length else i
    if 0 ≤ index ∧ index < mv.length then .ok index.toNat
    else .error (.indexError "index out of bounds on dimension 1")
  else .error (.indexError "cannot fit 'int' into an index-sized integer")

/-- The address of an item. -/
def itemAddress (mv : Memoryview) (index : ℕ) : ℕ :=
  mv.info.ptr.toNat + index * mv.info.strides.headD 0

/-- The format of the items; others than the native ones are not supported. -/
def format (mv : Memoryview) : Except PyError NativeFormat :=
  match nativeFormat mv.info.format with
  | some format => .ok format
  | none => .error (.notImplementedError
      ("memoryview: format " ++ mv.info.format ++ " not supported"))

/-- `mv[i]` -/
def getItem (order : ByteOrder) (mv : Memoryview) (mem : Memory) (i : ℤ) :
    Except PyError PyValue := do
  let format ← mv.format
  let index ← mv.resolve i
  pure (format.unpack order (load mem (mv.itemAddress index) format.width))

/-- `mv[i] = value`: the exception or none, and the memory afterwards. -/
def setItem (order : ByteOrder) (mv : Memoryview) (mem : Memory) (i : ℤ) (value : PyObject) :
    Except PyError Unit × Memory :=
  match mv.format with
  | .error e => (.error e, mem)
  | .ok format =>
      match mv.resolve i with
      | .error e => (.error e, mem)
      | .ok index =>
          match format.pack order mv.info.format value with
          | .error e => (.error e, mem)
          | .ok bytes => (.ok (), store mem (mv.itemAddress index) bytes)

end Memoryview

namespace CoyoteBuffer

/-- `CoyoteBuffer.__getitem__` -/
def getItem (order : ByteOrder) (b : CoyoteBuffer) (mem : Memory) (i : ℤ) :
    Except PyError PyValue := b.mv.getItem order mem i

/-- `CoyoteBuffer.__setitem__` -/
def setItem (order : ByteOrder) (b : CoyoteBuffer) (mem : Memory) (i : ℤ) (value : PyObject) :
    Except PyError Unit × Memory := b.mv.setItem order mem i value

/-- `CoyoteBuffer.__len__` -/
def len (b : CoyoteBuffer) : ℕ := b.size.toNat

/-- One `next` of the generator made by `CoyoteBuffer.__iter__`, whose `range`
stands at `pos`: the item yielded, or none at the end, and the new position.
An exception from the item ends the generator. -/
def iterNext (order : ByteOrder) (b : CoyoteBuffer) (mem : Memory) (pos : ℕ) :
    Except PyError (Option PyValue) × ℕ :=
  if pos < b.size.toNat then
    match b.mv.getItem order mem pos with
    | .ok v => (.ok (some v), pos + 1)
    | .error e => (.error e, b.size.toNat)
  else (.ok none, pos)

end CoyoteBuffer

end PyCoyote
