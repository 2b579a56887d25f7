import PyCoyote.Memoryview
import PyCoyote.TypedArray

/-!
# Buffers are typed arrays

The registry gives every data type that is not a float a format whose width is
the data type's size and whose values are those of its kind. Each access of a
buffer is then the access of a typed array, over any sequence of requests, and
a write stays inside its element.
-/

namespace PyCoyote

open Library.NativeInt Library.PackedArray Library.EventTrace

/-- The floating-point data types. -/
def DataType.isFloating (d : DataType) : Bool := d.name = "float32" ∨ d.name = "float64"

namespace NativeFormat

/-- The values of a format. -/
def kind : NativeFormat → Option ElementKind
  | .bool => some .truth
  | .signed width => some (.integer (-(256 ^ width / 2)) (256 ^ width / 2))
  | .unsigned width => some (.integer 0 (256 ^ width))
  | .floating _ => none

variable {format : NativeFormat} {k : ElementKind} (hk : format.kind = some k)
include hk

/-- An accepted value is packed and unpacked to itself. -/
theorem pack_of_accept (order : ByteOrder) (fmt : String) {v : PyObject} {w : k.Value}
    (h : k.accept v = some w) : ∃ bytes, format.pack order fmt v = .ok bytes ∧
      format.unpack order bytes = w.toPy := by
  cases format with
  | bool =>
      obtain rfl := Option.some.inj hk
      obtain ⟨b, hb, rfl⟩ : ∃ b, v.truth = .ok b ∧ b = w := ⟨w, toOption_eq_some.mp h, rfl⟩
      refine ⟨[if b then 1 else 0], by simp [pack, hb, Except.map], ?_⟩
      cases b <;> rfl
  | signed width =>
      obtain rfl := Option.some.inj hk
      obtain ⟨z, hz, hrange⟩ := Option.bind_eq_some_iff.mp h
      split at hrange
      · next hin =>
          obtain rfl := Option.some.inj hrange
          refine ⟨toBytes order width (z % 256 ^ width).toNat, ?_, ?_⟩
          · simp only [pack, packInt, toOption_eq_some.mp hz, if_pos hin]
          · exact congrArg PyValue.int (toSigned_toBytes order hin.1 hin.2)
      · cases hrange
  | unsigned width =>
      obtain rfl := Option.some.inj hk
      obtain ⟨z, hz, hrange⟩ := Option.bind_eq_some_iff.mp h
      split at hrange
      · next hin =>
          obtain rfl := Option.some.inj hrange
          refine ⟨toBytes order width (z % 256 ^ width).toNat, ?_, ?_⟩
          · simp only [pack, packInt, toOption_eq_some.mp hz, if_pos hin]
          · have hnat : z.toNat < 256 ^ width := by
              zify
              rw [Int.toNat_of_nonneg hin.1]
              exact hin.2
            rw [Int.emod_eq_of_lt hin.1 hin.2, unpack, toUnsigned_toBytes order hnat]
            exact congrArg PyValue.int (Int.toNat_of_nonneg hin.1)
      · cases hrange
  | floating width => cases hk

/-- A value that is not accepted is not packed. -/
theorem pack_of_reject (order : ByteOrder) (fmt : String) {v : PyObject}
    (h : k.accept v = none) : ∃ e, format.pack order fmt v = .error e := by
  have hint : ∀ width lo hi, (ElementKind.integer lo hi).accept v = none →
      ∃ e, packInt order fmt width lo hi v = .error e := by
    intro width lo hi hreject
    cases hz : v.index with
    | error e => exact ⟨fixErrorInt fmt e, by simp only [packInt, hz]⟩
    | ok z =>
        have hout : ¬(lo ≤ z ∧ z < hi) := by
          simpa [ElementKind.accept, hz, Except.toOption] using hreject
        exact ⟨valueErrorInt fmt, by simp only [packInt, hz, if_neg hout]⟩
  cases format with
  | bool =>
      obtain rfl := Option.some.inj hk
      cases htruth : v.truth with
      | error e => exact ⟨e, by simp [pack, htruth, Except.map]⟩
      | ok b => simp [ElementKind.accept, htruth, Except.toOption] at h
  | signed width =>
      obtain rfl := Option.some.inj hk
      exact hint width _ _ h
  | unsigned width =>
      obtain rfl := Option.some.inj hk
      exact hint width _ _ h
  | floating width => cases hk

/-- Whatever bytes an element holds, they read as a value of the kind. -/
theorem exists_unpack (order : ByteOrder) {bytes : List UInt8} (hne : bytes ≠ [])
    (hlen : bytes.length = format.width) :
    ∃ w : k.Value, format.unpack order bytes = w.toPy := by
  cases format with
  | bool =>
      obtain rfl := Option.some.inj hk
      exact ⟨bytes.any (· ≠ 0), rfl⟩
  | signed width =>
      obtain rfl := Option.some.inj hk
      obtain rfl : bytes.length = width := hlen
      exact ⟨⟨toSigned order bytes, toSigned_mem_range order hne⟩, rfl⟩
  | unsigned width =>
      obtain rfl := Option.some.inj hk
      obtain rfl : bytes.length = width := hlen
      refine ⟨⟨toUnsigned order bytes, by positivity, ?_⟩, rfl⟩
      exact_mod_cast toUnsigned_lt order bytes
  | floating width => cases hk

end NativeFormat

/-- The native format of a data type, as wide as the data type's size. -/
structure ItemFormat (d : DataType) where
  format : NativeFormat
  found : nativeFormat d.format = some format
  width_eq : format.width = d.size.toNat

/-- A native format whose values are those of a kind. -/
structure ElementFormat (d : DataType) (k : ElementKind) extends ItemFormat d where
  kind_eq : format.kind = some k

/-- The format and size of an entry agree. -/
theorem registry_widths : ∀ d ∈ registeredTypes,
    (nativeFormat d.format).map NativeFormat.width = some d.size.toNat := by decide

/-- The name and format of an entry agree. -/
theorem registry_kinds : ∀ d ∈ registeredTypes,
    (nativeFormat d.format).bind NativeFormat.kind = ElementKind.ofName d.name := by decide

theorem registry_isFloating : ∀ d ∈ registeredTypes,
    d.isFloating = (ElementKind.ofName d.name).isNone := by decide

theorem nonempty_itemFormat {d : DataType} (hd : d ∈ registeredTypes) :
    Nonempty (ItemFormat d) := by
  obtain ⟨format, hfound, hwidth⟩ := Option.map_eq_some_iff.mp (registry_widths d hd)
  exact ⟨⟨format, hfound, hwidth⟩⟩

theorem nonempty_elementFormat {d : DataType} (hd : d ∈ registeredTypes) {k : ElementKind}
    (h : ElementKind.ofName d.name = some k) : Nonempty (ElementFormat d k) := by
  obtain ⟨F⟩ := nonempty_itemFormat hd
  have hkind := registry_kinds d hd
  rw [F.found, h] at hkind
  exact ⟨⟨F, hkind⟩⟩

namespace Memoryview

/-- The index of a view resolves as that of a Python sequence of its length. -/
theorem resolve_of_index {mv : Memoryview} {n : ℕ} (hn : mv.length = n) (hlen : n ≤ 2 ^ 63)
    {i : ℤ} {j : Fin n} (h : pyIndex n i = some j) : mv.resolve i = .ok j := by
  subst hn
  have hrange : -mv.length ≤ i ∧ i < mv.length := by
    by_contra hout
    rw [pyIndex_eq_none_iff.mpr hout] at h
    cases h
  have hlen' : (mv.length : ℤ) ≤ 2 ^ 63 := by exact_mod_cast hlen
  unfold resolve
  rw [if_pos ⟨by omega, by omega⟩]
  unfold pyIndex at h
  split at h
  · next hpos =>
      obtain rfl := Option.some.inj h
      simp only [if_neg (not_lt.mpr hpos.1), if_pos hpos]
  · split at h
    · next hneg =>
        obtain rfl := Option.some.inj h
        rw [if_pos hneg.2, if_pos ⟨by omega, by omega⟩]
    · cases h

theorem resolve_of_none {mv : Memoryview} {n : ℕ} (hn : mv.length = n) {i : ℤ}
    (h : pyIndex n i = none) : ∃ e, mv.resolve i = .error e := by
  subst hn
  have hout := pyIndex_eq_none_iff.mp h
  unfold resolve
  split
  · rw [if_neg (by split <;> omega)]
    exact ⟨_, rfl⟩
  · exact ⟨_, rfl⟩

end Memoryview

namespace CoyoteBuffer

/-- The bytes of element `j`. -/
def elementBytes (b : CoyoteBuffer) (j : ℕ) : Set ℕ := b.mv.info.element j

theorem elementBytes_eq (b : CoyoteBuffer) (j : ℕ) :
    b.elementBytes j = Set.Ico (b.addr.toNat + j * b.base.dtype.size.toNat)
      (b.addr.toNat + j * b.base.dtype.size.toNat + b.base.dtype.size.toNat) := by
  rw [elementBytes, b.mv_eq]
  rfl

/-- The bytes of all elements. -/
def bytes (b : CoyoteBuffer) : Set ℕ :=
  Set.Ico b.addr.toNat (b.addr.toNat + b.len * b.base.dtype.size.toNat)

theorem elementBytes_subset {b : CoyoteBuffer} {j : ℕ} (h : j < b.len) :
    b.elementBytes j ⊆ b.bytes := by
  rw [elementBytes_eq]
  apply Set.Ico_subset_Ico
  · omega
  · have := Nat.mul_le_mul_right b.base.dtype.size.toNat h
    rw [Nat.succ_mul] at this
    omega

@[simp] theorem mv_length (b : CoyoteBuffer) : b.mv.length = b.len := by
  rw [b.mv_eq]
  rfl

@[simp] theorem mv_itemAddress (b : CoyoteBuffer) (j : ℕ) :
    b.mv.itemAddress j = b.addr.toNat + j * b.base.dtype.size.toNat := by
  rw [b.mv_eq]
  rfl

theorem len_le (b : CoyoteBuffer) : b.len ≤ 2 ^ 63 := by
  have := b.size.toNat_lt
  rw [len]
  omega

section Read
variable {b : CoyoteBuffer} (F : ItemFormat b.base.dtype) (order : ByteOrder) (mem : Memory)
include F

theorem mv_format : b.mv.format = .ok F.format := by
  have hformat : nativeFormat b.mv.info.format = some F.format := by
    rw [b.mv_eq]
    exact F.found
  rw [Memoryview.format, hformat]

omit order mem in
theorem width_pos : 0 < F.format.width := by
  rw [F.width_eq]
  exact size_pos b.base.registered

/-- An element in range reads as the value its bytes hold. -/
theorem getItem_of_index {i : ℤ} {j : Fin b.len} (h : pyIndex b.len i = some j) :
    b.getItem order mem i = .ok
      (element (F.format.unpack order) F.format.width mem b.addr.toNat j) := by
  have hresolve := Memoryview.resolve_of_index b.mv_length b.len_le h
  simp only [getItem, Memoryview.getItem, mv_format F, hresolve, mv_itemAddress, element]
  rw [← F.width_eq]
  rfl

theorem getItem_of_none {i : ℤ} (h : pyIndex b.len i = none) :
    ∃ e, b.getItem order mem i = .error e := by
  obtain ⟨e, he⟩ := Memoryview.resolve_of_none b.mv_length h
  refine ⟨e, ?_⟩
  simp only [getItem, Memoryview.getItem, mv_format F, he]
  rfl

omit F in
/-- What an element reads as depends on its own bytes only. -/
theorem getItem_congr {mem mem' : Memory} {i : ℤ} {j : Fin b.len} (h : pyIndex b.len i = some j)
    (hmem : ∀ a ∈ b.elementBytes j, mem a = mem' a) :
    b.getItem order mem i = b.getItem order mem' i := by
  obtain ⟨F⟩ := nonempty_itemFormat b.base.registered
  rw [getItem_of_index F order mem h, getItem_of_index F order mem' h]
  rw [elementBytes_eq, ← F.width_eq] at hmem
  simp only [element, load_congr hmem]

end Read

section Write
variable {b : CoyoteBuffer} {k : ElementKind} (F : ElementFormat b.base.dtype k)
  (order : ByteOrder) (mem : Memory)
include F

/-- An assignment of an accepted value in range stores its bytes in the element. -/
theorem setItem_of_accept {i : ℤ} {j : Fin b.len} (h : pyIndex b.len i = some j)
    {v : PyObject} {w : k.Value} (hw : k.accept v = some w) :
    ∃ stored, stored.length = F.format.width ∧ F.format.unpack order stored = w.toPy ∧
      b.setItem order mem i v =
        (.ok (), store mem (b.addr.toNat + j * F.format.width) stored) := by
  have hresolve := Memoryview.resolve_of_index b.mv_length b.len_le h
  obtain ⟨stored, hpack, hunpack⟩ :=
    NativeFormat.pack_of_accept F.kind_eq order b.mv.info.format hw
  refine ⟨stored, NativeFormat.length_of_pack hpack, hunpack, ?_⟩
  simp only [setItem, Memoryview.setItem, mv_format F.toItemFormat, hresolve, hpack, mv_itemAddress,
    F.width_eq]

/-- Any other assignment raises and writes nothing. -/
theorem setItem_of_reject {i : ℤ} {v : PyObject}
    (h : pyIndex b.len i = none ∨ k.accept v = none) :
    ∃ e, b.setItem order mem i v = (.error e, mem) := by
  simp only [setItem, Memoryview.setItem, mv_format F.toItemFormat]
  cases hindex : pyIndex b.len i with
  | none =>
      obtain ⟨e, he⟩ := Memoryview.resolve_of_none b.mv_length hindex
      exact ⟨e, by simp only [he]⟩
  | some j =>
      have hreject : k.accept v = none := by
        rcases h with h | h
        · rw [hindex] at h
          cases h
        · exact h
      obtain ⟨e, he⟩ := NativeFormat.pack_of_reject F.kind_eq order b.mv.info.format hreject
      have hresolve := Memoryview.resolve_of_index b.mv_length b.len_le hindex
      exact ⟨e, by simp only [hresolve, he]⟩

end Write

end CoyoteBuffer

/-- The memory and the positions of the generators made by `iter`. -/
structure BufferState where
  mem : Memory
  positions : ℕ → ℕ

namespace BufferState

/-- The answer of a buffer to a request. -/
def respond (order : ByteOrder) (b : CoyoteBuffer) (s : BufferState) :
    Request → Except PyError Response
  | .getItem i => (b.getItem order s.mem i).map .value
  | .setItem i v => (b.setItem order s.mem i v).1.map fun _ => .assigned
  | .len => .ok (.length b.len)
  | .next g => (b.iterNext order s.mem (s.positions g)).1.map fun
      | some v => .value v
      | none => .stop

/-- The state after a request. -/
def step (order : ByteOrder) (b : CoyoteBuffer) (s : BufferState) : Request → BufferState
  | .setItem i v => { s with mem := (b.setItem order s.mem i v).2 }
  | .next g => { s with
      positions := Function.update s.positions g (b.iterNext order s.mem (s.positions g)).2 }
  | .getItem _ => s
  | .len => s

end BufferState

/-- The buffer reads as the items of an array. -/
def Represents (order : ByteOrder) (b : CoyoteBuffer) {k : ElementKind} (mem : Memory)
    (items : Vector k.Value b.len) : Prop :=
  ∀ j (h : j < b.len), b.getItem order mem j = .ok items[j].toPy

section Refinement
variable {b : CoyoteBuffer} {k : ElementKind} (F : ElementFormat b.base.dtype k)
  (order : ByteOrder)
include F

/-- Every memory represents some array. -/
theorem exists_represents (mem : Memory) :
    ∃ items : Vector k.Value b.len, Represents order b mem items := by
  have hvalue : ∀ j : Fin b.len, ∃ w : k.Value,
      element (F.format.unpack order) F.format.width mem b.addr.toNat j = w.toPy := by
    intro j
    apply NativeFormat.exists_unpack F.kind_eq order _ (length_load ..)
    apply List.ne_nil_of_length_pos
    rw [length_load]
    exact CoyoteBuffer.width_pos F.toItemFormat
  choose value hv using hvalue
  refine ⟨Vector.ofFn value, fun j h => ?_⟩
  rw [CoyoteBuffer.getItem_of_index F.toItemFormat order mem (pyIndex_natCast h), hv ⟨j, h⟩,
    Vector.getElem_ofFn]

theorem getItem_of_represents {mem : Memory} {items : Vector k.Value b.len}
    (h : Represents order b mem items) {i : ℤ} {j : Fin b.len}
    (hi : pyIndex b.len i = some j) : b.getItem order mem i = .ok items[j].toPy := by
  rw [CoyoteBuffer.getItem_of_index F.toItemFormat order mem hi, ←
    CoyoteBuffer.getItem_of_index F.toItemFormat order mem (pyIndex_natCast j.isLt)]
  exact h j j.isLt

/-- An assignment to the buffer is the assignment to the array, and touches
only the bytes of the buffer. -/
theorem setItem_represents {mem : Memory} {items : Vector k.Value b.len}
    (positions : ℕ → ℕ) (h : Represents order b mem items) (i : ℤ) (v : PyObject) :
    Represents order b (b.setItem order mem i v).2
        (TypedArray.assign ⟨items, positions⟩ i v) ∧
      ∀ a ∉ b.bytes, (b.setItem order mem i v).2 a = mem a := by
  by_cases hreject : pyIndex b.len i = none ∨ k.accept v = none
  · obtain ⟨e, he⟩ := CoyoteBuffer.setItem_of_reject F order mem hreject
    have hassign : TypedArray.assign ⟨items, positions⟩ i v = items := by
      rcases hreject with hnone | hnone <;> simp [TypedArray.assign, hnone]
    rw [he, hassign]
    exact ⟨h, fun a _ => rfl⟩
  · obtain ⟨hindex, haccept⟩ := not_or.mp hreject
    obtain ⟨j, hj⟩ := Option.ne_none_iff_exists'.mp hindex
    obtain ⟨w, hw⟩ := Option.ne_none_iff_exists'.mp haccept
    obtain ⟨stored, hlen, hunpack, hset⟩ := CoyoteBuffer.setItem_of_accept F order mem hj hw
    rw [hset]
    constructor
    · intro m hm
      rw [CoyoteBuffer.getItem_of_index F.toItemFormat order _ (pyIndex_natCast hm)]
      simp only [TypedArray.assign, hj, hw]
      by_cases hjm : (j : ℕ) = m
      · subst hjm
        rw [element_store_self hlen, hunpack, Vector.getElem_set_self]
      · have hdisjoint := disjoint_of_ne b.addr.toNat F.format.width (Ne.symm hjm)
        rw [Vector.getElem_set_ne _ _ hjm, ← h m hm,
          CoyoteBuffer.getItem_of_index F.toItemFormat order mem (pyIndex_natCast hm),
          element_store_of_disjoint (by rwa [hlen])]
    · intro a ha
      apply store_outside
      rw [hlen, F.width_eq, ← CoyoteBuffer.elementBytes_eq]
      exact fun hin => ha (CoyoteBuffer.elementBytes_subset j.isLt hin)

omit F in
/-- The next item of a generator is the item at its position as it is then. -/
theorem iterNext_of_represents {mem : Memory} {items : Vector k.Value b.len}
    (h : Represents order b mem items) (pos : ℕ) :
    b.iterNext order mem pos =
      if hpos : pos < b.len then (.ok (some items[pos].toPy), pos + 1) else (.ok none, pos) := by
  unfold CoyoteBuffer.iterNext
  by_cases hpos : pos < b.len
  · have hitem : b.mv.getItem order mem pos = .ok items[pos].toPy := h pos hpos
    rw [dif_pos hpos, if_pos (show pos < b.size.toNat from hpos), hitem]
  · rw [dif_neg hpos, if_neg (show ¬pos < b.size.toNat from hpos)]

/-- A buffer whose memory started as `mem₀` and an array that agree. -/
def Agrees (order : ByteOrder) (b : CoyoteBuffer) (mem₀ : Memory) (s : BufferState)
    (a : TypedArray k b.len) : Prop :=
  Represents order b s.mem a.items ∧ s.positions = a.positions ∧
    ∀ x ∉ b.bytes, s.mem x = mem₀ x

omit F in
theorem toOption_map {ε α β : Type*} (x : Except ε α) (f : α → β) :
    (x.map f).toOption = x.toOption.map f := by
  cases x <;> rfl

theorem respond_of_agrees {mem₀ : Memory} {s : BufferState} {a : TypedArray k b.len}
    (h : Agrees order b mem₀ s a) (r : Request) :
    (s.respond order b r).toOption = a.respond r := by
  obtain ⟨hrep, hpos, -⟩ := h
  cases r with
  | getItem i =>
      simp only [BufferState.respond, toOption_map, TypedArray.respond]
      cases hi : pyIndex b.len i with
      | none =>
          obtain ⟨e, he⟩ := CoyoteBuffer.getItem_of_none F.toItemFormat order s.mem hi
          rw [he]
          rfl
      | some j =>
          rw [getItem_of_represents F order hrep hi]
          rfl
  | setItem i v =>
      simp only [BufferState.respond, toOption_map, TypedArray.respond]
      by_cases hreject : pyIndex b.len i = none ∨ k.accept v = none
      · obtain ⟨e, he⟩ := CoyoteBuffer.setItem_of_reject F order s.mem hreject
        rw [he]
        rcases hreject with hnone | hnone <;> simp [hnone, Except.toOption]
      · obtain ⟨hindex, haccept⟩ := not_or.mp hreject
        obtain ⟨j, hj⟩ := Option.ne_none_iff_exists'.mp hindex
        obtain ⟨w, hw⟩ := Option.ne_none_iff_exists'.mp haccept
        obtain ⟨stored, -, -, hset⟩ := CoyoteBuffer.setItem_of_accept F order s.mem hj hw
        rw [hset, hj, hw]
        rfl
  | len => rfl
  | next g =>
      simp only [BufferState.respond, toOption_map, TypedArray.respond,
        iterNext_of_represents order hrep, ← hpos]
      split <;> rfl

theorem agrees_step {mem₀ : Memory} {s : BufferState} {a : TypedArray k b.len}
    (h : Agrees order b mem₀ s a) (r : Request) :
    Agrees order b mem₀ (s.step order b r) (a.step r) := by
  obtain ⟨hrep, hpos, hframe⟩ := h
  cases r with
  | getItem i => exact ⟨hrep, hpos, hframe⟩
  | len => exact ⟨hrep, hpos, hframe⟩
  | setItem i v =>
      obtain ⟨hset, houtside⟩ := setItem_represents F order a.positions hrep i v
      exact ⟨hset, hpos, fun x hx => (houtside x hx).trans (hframe x hx)⟩
  | next g =>
      simp only [BufferState.step, TypedArray.step, iterNext_of_represents order hrep, ← hpos]
      split
      · exact ⟨hrep, rfl, hframe⟩
      · exact ⟨hrep, (Function.update_eq_self g s.positions).trans hpos, hframe⟩

end Refinement

/-- A buffer is an array of its kind. -/
structure BehavesAsArray (order : ByteOrder) (b : CoyoteBuffer) (k : ElementKind) : Prop where
  /-- Whatever the memory holds, it represents an array. -/
  represents : ∀ mem, ∃ items : Vector k.Value b.len, Represents order b mem items
  /-- Any requests are answered as by that array, of which the memory remains
  the representation; bytes outside the buffer keep their values. -/
  refines : ∀ (mem : Memory) (items : Vector k.Value b.len) (positions : ℕ → ℕ),
    Represents order b mem items → ∀ requests : List Request,
      outputs (BufferState.step order b) (fun s r => (s.respond order b r).toOption)
          ⟨mem, positions⟩ requests =
        outputs TypedArray.step TypedArray.respond ⟨items, positions⟩ requests ∧
      Represents order b (final (BufferState.step order b) ⟨mem, positions⟩ requests).mem
        (final TypedArray.step (⟨items, positions⟩ : TypedArray k b.len) requests).items ∧
      ∀ a ∉ b.bytes, (final (BufferState.step order b) ⟨mem, positions⟩ requests).mem a = mem a
  /-- An assignment out of range or of a value that the kind rejects raises and
  changes no byte. -/
  rejects : ∀ mem i v, pyIndex b.len i = none ∨ k.accept v = none →
    ∃ e, b.setItem order mem i v = (.error e, mem)
  /-- Another assignment changes only the bytes of its element, so elements of
  any buffer elsewhere read as before, and buffers of the same address and data
  type read the value assigned. -/
  writes : ∀ mem i v (j : Fin b.len) (w : k.Value),
    pyIndex b.len i = some j → k.accept v = some w →
      (b.setItem order mem i v).1 = .ok () ∧
      (∀ a ∉ b.elementBytes j, (b.setItem order mem i v).2 a = mem a) ∧
      (∀ (c : CoyoteBuffer) (m : ℤ) (l : Fin c.len), pyIndex c.len m = some l →
        Disjoint (c.elementBytes l) (b.elementBytes j) →
          c.getItem order (b.setItem order mem i v).2 m = c.getItem order mem m) ∧
      ∀ c : CoyoteBuffer, c.addr = b.addr → c.dtype = b.dtype →
        ∀ (m : ℤ) (l : Fin c.len), pyIndex c.len m = some l → (l : ℕ) = j →
          c.getItem order (b.setItem order mem i v).2 m = .ok w.toPy
  /-- The buffer made from the address, size and data type is the buffer. -/
  rebuilt : CoyoteBuffer.init b.addr b.size b.dtype = .ok b

/-- Buffers with the same data type name have the same data type. -/
theorem dtype_of_name {b c : CoyoteBuffer} (h : c.dtype = b.dtype) :
    c.base.dtype = b.base.dtype := by
  have hc := findDataType_name c.base.dtype c.base.registered
  have hb := findDataType_name b.base.dtype b.base.registered
  rw [show c.base.dtype.name = b.base.dtype.name from h, hb] at hc
  exact (Option.some.inj hc).symm

/-- Where an accepted assignment writes and who sees it. -/
theorem setItem_writes {b : CoyoteBuffer} {k : ElementKind} (F : ElementFormat b.base.dtype k)
    (order : ByteOrder) (mem : Memory) {i : ℤ} {v : PyObject} {j : Fin b.len} {w : k.Value}
    (hj : pyIndex b.len i = some j) (hw : k.accept v = some w) :
    (b.setItem order mem i v).1 = .ok () ∧
      (∀ a ∉ b.elementBytes j, (b.setItem order mem i v).2 a = mem a) ∧
      ∀ c : CoyoteBuffer, c.addr = b.addr → c.dtype = b.dtype →
        ∀ (m : ℤ) (l : Fin c.len), pyIndex c.len m = some l → (l : ℕ) = j →
          c.getItem order (b.setItem order mem i v).2 m = .ok w.toPy := by
  obtain ⟨stored, hlen, hunpack, hset⟩ := CoyoteBuffer.setItem_of_accept F order mem hj hw
  rw [hset]
  refine ⟨rfl, ?_, ?_⟩
  · intro a ha
    apply store_outside
    rwa [hlen, F.width_eq, ← CoyoteBuffer.elementBytes_eq]
  · intro c haddr hname m l hl hlj
    have hdtype := dtype_of_name hname
    let G : ItemFormat c.base.dtype :=
      ⟨F.format, by rw [hdtype, F.found], by rw [hdtype, F.width_eq]⟩
    rw [CoyoteBuffer.getItem_of_index G order _ hl, haddr, hlj, element_store_self hlen, hunpack]

/-- Every buffer whose data type is not a float behaves as an array of the
values of that data type. -/
theorem buffer_behaves_as_array (order : ByteOrder) (b : CoyoteBuffer)
    (h : b.base.dtype.isFloating = false) :
    ∃ k, ElementKind.ofName b.dtype = some k ∧ BehavesAsArray order b k := by
  rw [registry_isFloating _ b.base.registered, Option.isNone_eq_false_iff] at h
  obtain ⟨k, hk⟩ := Option.isSome_iff_exists.mp h
  obtain ⟨F⟩ := nonempty_elementFormat b.base.registered hk
  refine ⟨k, hk, exists_represents F order, ?_, ?_, ?_, b.init_self⟩
  · intro mem items positions hrep requests
    have hagrees : Agrees order b mem ⟨mem, positions⟩ ⟨items, positions⟩ :=
      ⟨hrep, rfl, fun _ _ => rfl⟩
    obtain ⟨hanswers, hend, -, hframe⟩ := outputs_of_simulation (BufferState.step order b)
      (Agrees order b mem) (fun _ _ r hs => respond_of_agrees F order hs r)
      (fun _ _ r hs => agrees_step F order hs r) hagrees requests
    exact ⟨hanswers, hend, hframe⟩
  · exact fun mem i v hreject => CoyoteBuffer.setItem_of_reject F order mem hreject
  · intro mem i v j w hj hw
    obtain ⟨hok, hframe, hsame⟩ := setItem_writes F order mem hj hw
    refine ⟨hok, hframe, ?_, hsame⟩
    intro c m l hl hdisjoint
    apply CoyoteBuffer.getItem_congr order hl
    exact fun a ha => hframe a (Set.disjoint_left.mp hdisjoint ha)

/-- Four 16-bit integers. -/
def exampleBuffer : CoyoteBuffer := ⟨⟨0x1000, 4, ⟨"int16", "h", 2⟩, by decide⟩, ⟨_⟩, rfl⟩

theorem exampleBuffer_behaves_as_array : ∃ k, ElementKind.ofName exampleBuffer.dtype = some k ∧
    BehavesAsArray .little exampleBuffer k :=
  buffer_behaves_as_array .little exampleBuffer (by decide)

/-- The integers a kind ranges over; `False` and `True` are 0 and 1. -/
def ElementKind.range : ElementKind → Set ℤ
  | .truth => {0, 1}
  | .integer lo hi => {z | lo ≤ z ∧ z < hi}

/-- A buffer of booleans takes 2 and holds its truth value. -/
theorem not_raises_out_of_range : ¬∀ (order : ByteOrder) (b : CoyoteBuffer) (k : ElementKind),
    ElementKind.ofName b.dtype = some k → ∀ (mem : Memory) (i z : ℤ), z ∉ k.range →
      ∃ e, b.setItem order mem i (PyObject.ofInt z) = (.error e, mem) := by
  intro h
  obtain ⟨e, he⟩ := h .little ⟨⟨0x1000, 4, ⟨"bool", "?", 1⟩, by decide⟩, ⟨_⟩, rfl⟩ .truth rfl
    (fun _ => 0) 0 2 (by simp [ElementKind.range])
  have hreturns : (.ok () : Except PyError Unit) = .error e := congrArg Prod.fst he
  cases hreturns

end PyCoyote
