import Mathlib.Data.Set.Lattice
import Mathlib.Order.CompletePartialOrder
import Mathlib.Order.Interval.Set.Disjoint
import Mathlib.Data.Nat.SuccPred
import Mathlib.Order.SuccPred.IntervalSucc

/-!
# Arrays packed in byte memory

A memory maps addresses to bytes. An array of `n` elements of `width` bytes
starts at `base`; an element is what a decoder makes of its bytes. Storing the
bytes of one element changes that element and leaves the others, and the rest
of the memory, as they were.
-/

namespace Library.PackedArray

/-- Byte-addressed memory. -/
abbrev Memory := ℕ → UInt8

/-- The `len` bytes at `addr`. -/
def load (mem : Memory) (addr len : ℕ) : List UInt8 :=
  (List.range len).map fun i => mem (addr + i)

/-- The memory after writing `bytes` at `addr`. -/
def store (mem : Memory) (addr : ℕ) (bytes : List UInt8) : Memory := fun a =>
  if addr ≤ a then bytes[a - addr]?.getD (mem a) else mem a

@[simp] theorem length_load (mem : Memory) (addr len : ℕ) : (load mem addr len).length = len := by
  simp [load]

/-- A write changes only the bytes it covers. -/
theorem store_outside {mem : Memory} {addr a : ℕ} {bytes : List UInt8}
    (h : a ∉ Set.Ico addr (addr + bytes.length)) : store mem addr bytes a = mem a := by
  simp only [Set.mem_Ico, not_and, not_lt] at h
  unfold store
  split
  · next hle =>
      have hlen : bytes.length ≤ a - addr := by
        have := h hle
        omega
      rw [List.getElem?_eq_none hlen, Option.getD_none]
  · rfl

/-- What was written is read back. -/
theorem load_store_self (mem : Memory) (addr : ℕ) (bytes : List UInt8) :
    load (store mem addr bytes) addr bytes.length = bytes := by
  apply List.ext_getElem
  · simp
  · intro i hi hi'
    simp [load, store, hi']

theorem load_congr {mem mem' : Memory} {addr len : ℕ}
    (h : ∀ a ∈ Set.Ico addr (addr + len), mem a = mem' a) :
    load mem addr len = load mem' addr len := by
  apply List.map_congr_left
  intro i hi
  apply h
  have := List.mem_range.mp hi
  exact ⟨by omega, by omega⟩

/-- A write does not change what is read elsewhere. -/
theorem load_store_of_disjoint {mem : Memory} {addr other len : ℕ} {bytes : List UInt8}
    (h : Disjoint (Set.Ico other (other + len)) (Set.Ico addr (addr + bytes.length))) :
    load (store mem addr bytes) other len = load mem other len := by
  apply load_congr
  intro a ha
  exact store_outside (Set.disjoint_left.mp h ha)

/-- Different elements occupy disjoint bytes. -/
theorem disjoint_of_ne (base width : ℕ) {i j : ℕ} (h : i ≠ j) :
    Disjoint (Set.Ico (base + i * width) (base + i * width + width))
      (Set.Ico (base + j * width) (base + j * width + width)) := by
  have hmono : Monotone fun n => base + n * width := fun m n hle =>
    Nat.add_le_add_left (Nat.mul_le_mul_right width hle) base
  have hpieces := hmono.pairwise_disjoint_on_Ico_succ h
  simpa only [Function.onFun, Nat.succ_eq_succ, Nat.succ_mul, ← Nat.add_assoc] using hpieces

section Elements
variable {α : Type*} (decode : List UInt8 → α) (width : ℕ)

/-- Element `i` of the array at `base`. -/
def element (mem : Memory) (base i : ℕ) : α := decode (load mem (base + i * width) width)

variable {decode width}

theorem element_store_self {mem : Memory} {base i : ℕ} {bytes : List UInt8}
    (h : bytes.length = width) :
    element decode width (store mem (base + i * width) bytes) base i = decode bytes := by
  subst h
  exact congrArg decode (load_store_self _ _ _)

theorem element_store_of_disjoint {mem : Memory} {base addr i : ℕ} {bytes : List UInt8}
    (h : Disjoint (Set.Ico (base + i * width) (base + i * width + width))
      (Set.Ico addr (addr + bytes.length))) :
    element decode width (store mem addr bytes) base i = element decode width mem base i :=
  congrArg decode (load_store_of_disjoint h)

end Elements

end Library.PackedArray
