import Mathlib.Data.Nat.Digits.Defs
import Mathlib.Tactic.Ring
import Mathlib.Tactic.Linarith

/-!
# Fixed-width integers as bytes

The bytes of a number of a given width in either byte order, and the reading
of bytes as an unsigned or a two's complement number. Reading inverts writing
on the range of the width.
-/

namespace Library.NativeInt

/-- The order in which a machine stores the bytes of a number. -/
inductive ByteOrder where
  | little
  | big
deriving DecidableEq, Repr

/-- Bytes from least significant first to the given order, and back. -/
def ByteOrder.arrange {α : Type*} : ByteOrder → List α → List α
  | .little, bytes => bytes
  | .big, bytes => bytes.reverse

@[simp] theorem ByteOrder.arrange_arrange {α : Type*} (order : ByteOrder) (bytes : List α) :
    order.arrange (order.arrange bytes) = bytes := by
  cases order <;> simp [arrange]

@[simp] theorem ByteOrder.length_arrange {α : Type*} (order : ByteOrder) (bytes : List α) :
    (order.arrange bytes).length = bytes.length := by
  cases order <;> simp [arrange]

/-- The lowest `width` bytes of a number, least significant first. -/
def lowBytes : ℕ → ℕ → List UInt8
  | 0, _ => []
  | width + 1, n => UInt8.ofNat n :: lowBytes width (n / 256)

@[simp] theorem length_lowBytes (width n : ℕ) : (lowBytes width n).length = width := by
  induction width generalizing n with
  | zero => rfl
  | succ width ih => simp only [lowBytes, List.length_cons, ih]

/-- The number whose base-256 digits are the bytes, least significant first. -/
def ofLowBytes (bytes : List UInt8) : ℕ := Nat.ofDigits 256 (bytes.map UInt8.toNat)

theorem ofLowBytes_lowBytes (width n : ℕ) : ofLowBytes (lowBytes width n) = n % 256 ^ width := by
  induction width generalizing n with
  | zero => simp [lowBytes, ofLowBytes, Nat.mod_one]
  | succ width ih =>
      have hdigit : (UInt8.ofNat n).toNat = n % 256 := UInt8.toNat_ofNat'
      have htail : ofLowBytes (lowBytes (width + 1) n) =
          n % 256 + 256 * ofLowBytes (lowBytes width (n / 256)) := by
        simp only [ofLowBytes, lowBytes, List.map_cons, Nat.ofDigits_cons, hdigit]
      rw [htail, ih, pow_succ', Nat.mod_mul]

/-- A number written with `width` bytes. -/
def toBytes (order : ByteOrder) (width n : ℕ) : List UInt8 :=
  order.arrange (lowBytes width n)

/-- The unsigned number read from bytes. -/
def toUnsigned (order : ByteOrder) (bytes : List UInt8) : ℕ :=
  ofLowBytes (order.arrange bytes)

/-- The two's complement number read from bytes. -/
def toSigned (order : ByteOrder) (bytes : List UInt8) : ℤ :=
  Int.bmod (toUnsigned order bytes) (256 ^ bytes.length)

@[simp] theorem length_toBytes (order : ByteOrder) (width n : ℕ) :
    (toBytes order width n).length = width := by
  simp [toBytes]

theorem toUnsigned_toBytes (order : ByteOrder) {width n : ℕ} (h : n < 256 ^ width) :
    toUnsigned order (toBytes order width n) = n := by
  rw [toUnsigned, toBytes, ByteOrder.arrange_arrange, ofLowBytes_lowBytes, Nat.mod_eq_of_lt h]

/-- Writing the residue of an integer in the range of the width and reading it
as two's complement gives the integer back. -/
theorem toSigned_toBytes (order : ByteOrder) {width : ℕ} {z : ℤ}
    (hlo : -(256 ^ width / 2 : ℤ) ≤ z) (hhi : z < 256 ^ width / 2) :
    toSigned order (toBytes order width (z % 256 ^ width).toNat) = z := by
  have hpos : (0 : ℤ) < 256 ^ width := by positivity
  have hnonneg : 0 ≤ z % 256 ^ width := Int.emod_nonneg z hpos.ne'
  have hlt : (z % 256 ^ width).toNat < 256 ^ width := by
    have := Int.emod_lt_of_pos z hpos
    zify
    rwa [Int.toNat_of_nonneg hnonneg]
  rw [toSigned, toUnsigned_toBytes order hlt, length_toBytes, Int.toNat_of_nonneg hnonneg]
  have hcast : ((256 ^ width : ℕ) : ℤ) = 256 ^ width := by push_cast; rfl
  rw [← hcast, Int.emod_bmod]
  apply Int.bmod_eq_of_le <;> omega

theorem toUnsigned_lt (order : ByteOrder) (bytes : List UInt8) :
    toUnsigned order bytes < 256 ^ bytes.length := by
  have hdigits : ∀ d ∈ (order.arrange bytes).map UInt8.toNat, d < 256 := by
    intro d hd
    obtain ⟨byte, -, rfl⟩ := List.mem_map.mp hd
    exact byte.toNat_lt
  have h := Nat.ofDigits_lt_base_pow_length (by norm_num) hdigits
  rwa [List.length_map, ByteOrder.length_arrange] at h

/-- Two's complement numbers lie in the range of the width. -/
theorem toSigned_mem_range (order : ByteOrder) {bytes : List UInt8} (h : bytes ≠ []) :
    -(256 ^ bytes.length / 2 : ℤ) ≤ toSigned order bytes ∧
      toSigned order bytes < 256 ^ bytes.length / 2 := by
  obtain ⟨len, hlen⟩ : ∃ len, bytes.length = len + 1 :=
    Nat.exists_eq_succ_of_ne_zero (by simpa using h)
  have hpos : 0 < 256 ^ bytes.length := by positivity
  have heven : (256 ^ bytes.length : ℤ) = 2 * (128 * 256 ^ len) := by
    rw [hlen, pow_succ]
    ring
  have hlo := Int.le_bmod (x := (toUnsigned order bytes : ℤ)) hpos
  have hhi := Int.bmod_lt (x := (toUnsigned order bytes : ℤ)) hpos
  push_cast at hlo hhi
  rw [toSigned]
  constructor <;> omega

end Library.NativeInt
