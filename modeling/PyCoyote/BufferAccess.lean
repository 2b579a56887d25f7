import PyCoyote.BufferArray
import PyCoyote.ByteCount

/-!
# Accesses of allocated buffers

Whether `b[i]` and `b[i] = value` return depends on the buffer and the value
alone, not on the memory. A buffer that was allocated with some count and data
type can be used for every index and value that this promises, and for
transfers of that many elements.
-/

namespace PyCoyote

open Library.NativeInt Library.PackedArray

/-- Packing succeeds in both byte orders or in neither. -/
theorem NativeFormat.pack_isOk (order order' : ByteOrder) (fmt : String) (format : NativeFormat)
    (value : PyObject) :
    (format.pack order fmt value).isOk = (format.pack order' fmt value).isOk := by
  have hint : ∀ width lo hi, (packInt order fmt width lo hi value).isOk =
      (packInt order' fmt width lo hi value).isOk := by
    intro width lo hi
    unfold packInt
    split
    · rfl
    · split <;> rfl
  cases format with
  | bool => rfl
  | signed width => exact hint width _ _
  | unsigned width => exact hint width _ _
  | floating width =>
      simp only [pack]
      split <;> rfl

namespace CoyoteBuffer

variable {b : CoyoteBuffer}

/-- `b[i]` returns. -/
def readable (b : CoyoteBuffer) (i : ℤ) : Bool := (b.getItem .little (fun _ => 0) i).isOk

/-- `b[i] = value` returns. -/
def writable (b : CoyoteBuffer) (i : ℤ) (value : PyObject) : Bool :=
  (b.setItem .little (fun _ => 0) i value).1.isOk

/-- What memory holds makes no difference to whether an access returns. -/
theorem getItem_isOk (b : CoyoteBuffer) (order : ByteOrder) (mem : Memory) (i : ℤ) :
    (b.getItem order mem i).isOk = b.readable i := by
  simp only [readable, getItem, Memoryview.getItem]
  cases b.mv.format with
  | error e => rfl
  | ok format => cases b.mv.resolve i <;> rfl

theorem setItem_isOk (b : CoyoteBuffer) (order : ByteOrder) (mem : Memory) (i : ℤ)
    (value : PyObject) : (b.setItem order mem i value).1.isOk = b.writable i value := by
  simp only [writable, setItem, Memoryview.setItem]
  cases b.mv.format with
  | error e => rfl
  | ok format =>
      cases b.mv.resolve i with
      | error e => rfl
      | ok index =>
          have hpack := format.pack_isOk order .little b.mv.info.format value
          cases hp : format.pack order b.mv.info.format value with
          | error e =>
              cases hp' : format.pack .little b.mv.info.format value with
              | error e' =>
                  simp only [hp, hp']
                  rfl
              | ok bytes =>
                  rw [hp, hp'] at hpack
                  cases hpack
          | ok bytes =>
              cases hp' : format.pack .little b.mv.info.format value with
              | error e =>
                  rw [hp, hp'] at hpack
                  cases hpack
              | ok bytes' => simp only [hp, hp']

/-- An index in range can be read. -/
theorem readable_of_lt {i : ℕ} (h : i < b.len) : b.readable i = true := by
  obtain ⟨F⟩ := nonempty_itemFormat b.base.registered
  rw [readable, getItem_of_index F _ _ (pyIndex_natCast h)]
  rfl

/-- An index in range can be given exactly the values of the element kind. -/
theorem writable_iff {k : ElementKind} (hk : ElementKind.ofName b.base.dtype.name = some k)
    {i : ℕ} (h : i < b.len) (value : PyObject) :
    b.writable i value = true ↔ (k.accept value).isSome = true := by
  obtain ⟨F⟩ := nonempty_elementFormat b.base.registered hk
  rw [writable]
  cases hv : k.accept value with
  | some w =>
      obtain ⟨stored, -, -, hset⟩ :=
        setItem_of_accept F .little (fun _ => 0) (pyIndex_natCast h) hv
      rw [hset]
      exact iff_of_true rfl rfl
  | none =>
      obtain ⟨e, he⟩ := setItem_of_reject F .little (fun _ => 0) (i := i) (.inr hv)
      rw [he]
      exact iff_of_false Bool.false_ne_true Bool.false_ne_true

/-- An assignment of a value that is packed goes through. -/
theorem writable_of_pack (F : ItemFormat b.base.dtype) {i : ℤ} {j : Fin b.len}
    (h : pyIndex b.len i = some j) {value : PyObject} {bytes : List UInt8}
    (hpack : F.format.pack .little b.mv.info.format value = .ok bytes) :
    b.writable i value = true := by
  have hresolve := Memoryview.resolve_of_index b.mv_length b.len_le h
  simp only [writable, setItem, Memoryview.setItem, mv_format F, hresolve, hpack]
  rfl

/-- An index in range of a buffer of floats can be given what converts to one. -/
theorem writable_float {width : ℕ} (hformat : nativeFormat b.base.dtype.format = some (.floating width))
    {i : ℕ} (h : i < b.len) {value : PyObject} (hvalue : value.ieee.isOk = true) :
    b.writable i value = true := by
  obtain ⟨F⟩ := nonempty_itemFormat b.base.registered
  have hfloat : F.format = .floating width := Option.some.inj (F.found.symm.trans hformat)
  cases hbits : value.ieee with
  | error e =>
      rw [hbits] at hvalue
      cases hvalue
  | ok bits =>
      have hpack : F.format.pack .little b.mv.info.format value =
          .ok (toBytes .little width (bits width)) := by
        simp only [hfloat, NativeFormat.pack, hbits]
      exact writable_of_pack F (pyIndex_natCast h) hpack

end CoyoteBuffer

/-- The buffer has the count and the data type that were asked for. -/
structure Allocated (b : CoyoteBuffer) (size : ℕ) (dtype : String) : Prop where
  len : b.len = size
  dtype : findDataType dtype = some b.base.dtype

/-- `allocate_buffer` returns such a buffer. -/
theorem allocated_of_allocateBuffer {size gpuDev : UInt32} {allocType dtype : String}
    {answer : Answer} {s : WrapperState} {b : CoyoteBuffer}
    (h : (CThread.allocateBuffer size allocType dtype gpuDev answer s).result = .ok b) :
    Allocated b size.toNat dtype := by
  by_cases hrej : findDataType dtype = none ∨ CThread.knownAllocType allocType = false
  · obtain ⟨e, he⟩ := CThread.allocateBuffer_of_rejected hrej size gpuDev
    rw [he] at h
    cases h
  · obtain ⟨hd, ha⟩ := not_or.mp hrej
    obtain ⟨d, hd⟩ := Option.ne_none_iff_exists'.mp hd
    obtain ⟨alloc, -, hok, herr⟩ :=
      CThread.allocateBuffer_of_known hd (Bool.of_not_eq_false ha) size gpuDev
    cases answer with
    | error msg =>
        rw [herr] at h
        cases h
    | ok ptr =>
        rw [hok, CoyoteBuffer.init_of_find hd] at h
        cases h
        exact ⟨rfl, hd⟩

namespace Allocated

variable {b : CoyoteBuffer} {size : ℕ} {dtype : String}

/-- A count that is not larger is one of elements of the buffer. -/
theorem ofNat_le (h : Allocated b size dtype) {n : ℕ} (hn : n ≤ size) :
    UInt32.ofNat n ≤ b.base.size := by
  have hlen : b.base.size.toNat = size := h.len
  have hlt := b.base.size.toNat_lt
  rw [UInt32.le_iff_toNat_le, UInt32.toNat_ofNat', Nat.mod_eq_of_lt (by omega), hlen]
  exact hn

theorem readable (h : Allocated b size dtype) {i : ℕ} (hi : i < size) : b.readable i = true :=
  CoyoteBuffer.readable_of_lt (h.len ▸ hi)

/-- A buffer of integers takes exactly those of its data type. -/
theorem writable_iff (h : Allocated b size dtype) {d : DataType} (hd : findDataType dtype = some d)
    {lo hi : ℤ} (hk : ElementKind.ofName d.name = some (.integer lo hi)) {i : ℕ} (hi' : i < size)
    (z : ℤ) : b.writable i (.ofInt z) = true ↔ lo ≤ z ∧ z < hi := by
  obtain rfl := Option.some.inj (h.dtype.symm.trans hd)
  rw [CoyoteBuffer.writable_iff hk (h.len ▸ hi')]
  by_cases hz : lo ≤ z ∧ z < hi
  · simp only [ElementKind.accept, PyObject.ofInt, Except.toOption, Option.bind_some, hz]
    exact iff_of_true rfl ⟨trivial, trivial⟩
  · simp only [ElementKind.accept, PyObject.ofInt, Except.toOption, Option.bind_some, dif_neg hz]
    exact iff_of_false Bool.false_ne_true hz

theorem writable_float (h : Allocated b size "float32") {i : ℕ} (hi : i < size)
    {value : PyObject} (hvalue : value.ieee.isOk = true) : b.writable i value = true := by
  have hd : findDataType "float32" = some ⟨"float32", "f", 4⟩ := by decide
  have hdtype := Option.some.inj (h.dtype.symm.trans hd)
  have hformat : nativeFormat b.base.dtype.format = some (.floating 4) := by
    rw [hdtype]
    rfl
  exact CoyoteBuffer.writable_float hformat (h.len ▸ hi) hvalue

end Allocated

end PyCoyote
