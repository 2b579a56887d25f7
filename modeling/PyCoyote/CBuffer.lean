import PyCoyote.DataType
import Mathlib.Order.Interval.Set.Defs
import Mathlib.Order.Nat

/-!
# Buffers: `cBuffer`, its exported view and `CoyoteBuffer`

A `cBuffer` wraps memory it does not own. Its members are private and set
once, by a constructor that looks the data type up, so every buffer that
exists has a registered data type.
-/

namespace PyCoyote

/-- `cBuffer`: an address, a number of elements and a registered data type. -/
structure CBuffer where
  data : UInt64
  size : UInt32
  dtype : DataType
  registered : dtype ∈ registeredTypes
deriving DecidableEq

namespace CBuffer

/-- The constructor `cBuffer::cBuffer`. -/
def new (addr : UInt64) (size : UInt32) (dtype : String) : Except PyError CBuffer :=
  match found : findDataType dtype with
  | some d => .ok ⟨addr, size, d, findDataType_registered found⟩
  | none => .error (.runtimeError
      ("Selected data type '" ++ dtype ++ "' is not supported."))

/-- `cBuffer::addr` -/
def addr (b : CBuffer) : UInt64 := b.data

theorem new_of_find {dtype : String} {d : DataType} (h : findDataType dtype = some d)
    (addr : UInt64) (size : UInt32) :
    new addr size dtype = .ok ⟨addr, size, d, findDataType_registered h⟩ := by
  unfold new
  split
  · next d' found =>
      obtain rfl : d' = d := Option.some.inj (found.symm.trans h)
      rfl
  · next found => rw [found] at h; cases h

end CBuffer

/-- `pybind11::buffer_info`, with shape and strides as the natural numbers
the `ssize_t` lists hold. -/
structure BufferInfo where
  ptr : UInt64
  itemsize : Nat
  format : String
  ndim : Nat
  shape : List Nat
  strides : List Nat
deriving DecidableEq, Repr

/-- The lambda given to `def_buffer`. -/
def CBuffer.bufferInfo (self : CBuffer) : BufferInfo where
  ptr := self.data
  itemsize := self.dtype.size.toNat
  format := self.dtype.format
  ndim := 1
  shape := [self.size.toNat]
  strides := [self.dtype.size.toNat]

/-- The bytes of element `i` of a one-dimensional view. -/
def BufferInfo.element (info : BufferInfo) (i : ℕ) : Set ℕ :=
  let start := info.ptr.toNat + i * info.strides.headD 0
  Set.Ico start (start + info.itemsize)

/-- The elements of a buffer's view are adjacent pieces of its element size. -/
theorem BufferInfo.element_of_buffer (b : CBuffer) (i : ℕ) :
    b.bufferInfo.element i = Set.Ico (b.data.toNat + i * b.dtype.size.toNat)
      (b.data.toNat + i * b.dtype.size.toNat + b.dtype.size.toNat) := rfl

/-- A Python `memoryview`: the buffer information it acquired when it was made. -/
structure Memoryview where
  info : BufferInfo
deriving DecidableEq, Repr

/-- `CoyoteBuffer`: the C++ base object and the view `_mv`, which `__init__`
takes once and nothing replaces. -/
structure CoyoteBuffer where
  base : CBuffer
  mv : Memoryview
  mv_eq : mv = ⟨base.bufferInfo⟩
deriving DecidableEq

namespace CoyoteBuffer

/-- `CoyoteBuffer.__init__` -/
def init (addr : UInt64) (size : UInt32) (dtype : String) : Except PyError CoyoteBuffer := do
  let base ← CBuffer.new addr size dtype
  pure ⟨base, ⟨base.bufferInfo⟩, rfl⟩

/-- The method `addr` of the base class. -/
def addr (b : CoyoteBuffer) : UInt64 := b.base.addr

/-- The method `size` of the base class. -/
def size (b : CoyoteBuffer) : UInt32 := b.base.size

/-- The method `dtype` of the base class: the canonical name. -/
def dtype (b : CoyoteBuffer) : String := b.base.dtype.name

theorem init_of_find {dtype : String} {d : DataType} (h : findDataType dtype = some d)
    (addr : UInt64) (size : UInt32) :
    init addr size dtype = .ok
      ⟨⟨addr, size, d, findDataType_registered h⟩, ⟨CBuffer.bufferInfo _⟩, rfl⟩ := by
  simp only [init, CBuffer.new_of_find h]
  rfl

/-- With an accepted data type the constructor succeeds and keeps its arguments. -/
theorem init_ok {dtype : String} {d : DataType} (h : findDataType dtype = some d)
    (addr : UInt64) (size : UInt32) : ∃ b : CoyoteBuffer,
      init addr size dtype = .ok b ∧ b.base.data = addr ∧ b.base.size = size ∧
        b.base.dtype = d :=
  ⟨_, init_of_find h addr size, rfl, rfl, rfl⟩

/-- A buffer is determined by its base object. -/
theorem ext_base {b c : CoyoteBuffer} (h : b.base = c.base) : b = c := by
  obtain ⟨base, mv, rfl⟩ := b
  obtain ⟨base', mv', rfl⟩ := c
  obtain rfl : base = base' := h
  rfl

/-- Rebuilding a buffer from its own address, size and data type gives it back. -/
theorem init_self (b : CoyoteBuffer) : init b.addr b.size b.dtype = .ok b := by
  have h := findDataType_name b.base.dtype b.base.registered
  rw [dtype, init_of_find h]
  exact congrArg Except.ok (ext_base rfl)

end CoyoteBuffer

end PyCoyote
