import Mathlib.Algebra.GroupWithZero.Nat
import Mathlib.Order.CompletePartialOrder
import Mathlib.Order.Interval.Set.Disjoint
import Mathlib.Order.SuccPred.IntervalSucc
import Mathlib.Order.Lattice.Nat

/-!
# Tiling an interval by consecutive pieces

The values of a monotone sequence cut an interval into adjacent half-open
pieces. Mathlib has the disjointness of the pieces; this is their union.
Segments given one by one tile a segment if they lie end to end.
-/

namespace Library.Tiling

variable {α : Type*} [LinearOrder α]

/-- The first `n` pieces of a monotone sequence fill the interval between its ends. -/
theorem biUnion_Ico_succ {f : ℕ → α} (hf : Monotone f) (n : ℕ) :
    ⋃ i < n, Set.Ico (f i) (f (i + 1)) = Set.Ico (f 0) (f n) := by
  induction n with
  | zero => simp
  | succ n ih =>
      rw [Set.biUnion_lt_succ, ih]
      exact Set.Ico_union_Ico_eq_Ico (hf (Nat.zero_le n)) (hf (Nat.le_succ n))

/-- Equal pieces of size `k` from `base` fill `n * k` numbers. -/
theorem biUnion_Ico_mul (base k n : ℕ) :
    ⋃ i < n, Set.Ico (base + i * k) (base + i * k + k) = Set.Ico base (base + n * k) := by
  have hmono : Monotone fun i => base + i * k := fun i j h =>
    Nat.add_le_add_left (Nat.mul_le_mul_right k h) base
  have h := biUnion_Ico_succ hmono n
  simpa only [Nat.zero_mul, Nat.add_zero, Nat.succ_mul, ← Nat.add_assoc] using h

/-- All pieces of size `k > 0` lie in an interval from their base exactly
when the interval is long enough for the last of them. -/
theorem forall_Ico_subset_iff {base k n len : ℕ} (hk : 0 < k) :
    (∀ i < n, Set.Ico (base + i * k) (base + i * k + k) ⊆ Set.Ico base (base + len)) ↔
      n * k ≤ len := by
  constructor
  · intro h
    have hsub : Set.Ico base (base + n * k) ⊆ Set.Ico base (base + len) := by
      rw [← biUnion_Ico_mul]
      exact Set.iUnion₂_subset h
    rcases Nat.eq_zero_or_pos n with rfl | hn
    · simp
    · have hlt : base < base + n * k := Nat.lt_add_of_pos_right (Nat.mul_pos hn hk)
      have := (Set.Ico_subset_Ico_iff hlt).mp hsub
      omega
  · intro h i hi
    have hpiece : i * k + k ≤ n * k := by
      rw [← Nat.succ_mul]
      exact Nat.mul_le_mul_right k hi
    apply Set.Ico_subset_Ico <;> omega

/-- `len` consecutive numbers from `start` on. -/
structure Segment where
  start : ℕ
  len : ℕ
deriving DecidableEq, Repr

namespace Segment

/-- The first number after the segment. -/
def stop (s : Segment) : ℕ := s.start + s.len

/-- The numbers of the segment. -/
def points (s : Segment) : Set ℕ := Set.Ico s.start s.stop

end Segment

/-- The pieces lead from one number to another, each starting where the one before it stops. -/
def EndToEnd : ℕ → List Segment → ℕ → Prop
  | start, [], stop => start = stop
  | start, p :: rest, stop => p.start = start ∧ EndToEnd p.stop rest stop

/-- The pieces are adjacent, do not overlap and make up the whole. -/
structure Tiles (whole : Segment) (pieces : List Segment) : Prop where
  adjacent : EndToEnd whole.start pieces whole.stop
  disjoint : pieces.Pairwise fun p q => Disjoint p.points q.points
  union : ⋃ p ∈ pieces, p.points = whole.points

namespace EndToEnd

variable {start stop : ℕ} {pieces : List Segment}

theorem start_le {p : Segment} (h : EndToEnd start pieces stop) (hp : p ∈ pieces) :
    start ≤ p.start := by
  induction pieces generalizing start with
  | nil => cases hp
  | cons q rest ih =>
      obtain ⟨rfl, hrest⟩ := h
      rcases List.mem_cons.mp hp with rfl | hp
      · exact le_rfl
      · exact (Nat.le_add_right _ _).trans (ih hrest hp)

theorem le (h : EndToEnd start pieces stop) : start ≤ stop := by
  induction pieces generalizing start with
  | nil => exact h.le
  | cons p rest ih =>
      obtain ⟨rfl, hrest⟩ := h
      exact (Nat.le_add_right _ _).trans (ih hrest)

theorem disjoint (h : EndToEnd start pieces stop) :
    pieces.Pairwise fun p q => Disjoint p.points q.points := by
  induction pieces generalizing start with
  | nil => exact .nil
  | cons p rest ih =>
      refine .cons (fun q hq => ?_) (ih h.2)
      apply Set.Ico_disjoint_Ico.mpr
      exact (min_le_left _ _).trans ((h.2.start_le hq).trans (le_max_right _ _))

theorem union (h : EndToEnd start pieces stop) :
    ⋃ p ∈ pieces, p.points = Set.Ico start stop := by
  induction pieces generalizing start with
  | nil =>
      obtain rfl : start = stop := h
      simp
  | cons p rest ih =>
      obtain ⟨rfl, hrest⟩ := h
      calc ⋃ q ∈ p :: rest, q.points = p.points ∪ ⋃ q ∈ rest, q.points := by
            simp [Set.iUnion_or, Set.iUnion_union_distrib]
        _ = Set.Ico p.start p.stop ∪ Set.Ico p.stop stop := by rw [ih hrest, Segment.points]
        _ = Set.Ico p.start stop :=
            Set.Ico_union_Ico_eq_Ico (Nat.le_add_right _ _) hrest.le

/-- Segments end to end tile what lies between. -/
theorem tiles {whole : Segment} (h : EndToEnd whole.start pieces whole.stop) :
    Tiles whole pieces :=
  ⟨h, h.disjoint, h.union⟩

end EndToEnd

/-- Every number of the whole lies in exactly one piece. -/
theorem Tiles.existsUnique {whole : Segment} {pieces : List Segment} (h : Tiles whole pieces)
    {x : ℕ} (hx : x ∈ whole.points) : ∃! i : Fin pieces.length, x ∈ (pieces.get i).points := by
  rw [← h.union] at hx
  obtain ⟨p, hp, hxp⟩ := Set.mem_iUnion₂.mp hx
  obtain ⟨i, rfl⟩ := List.mem_iff_get.mp hp
  refine ⟨i, hxp, fun j hxj => ?_⟩
  have hpairs := List.pairwise_iff_get.mp h.disjoint
  rcases lt_trichotomy j i with hlt | heq | hlt
  · exact absurd hxp (Set.disjoint_left.mp (hpairs j i hlt) hxj)
  · exact heq
  · exact absurd hxj (Set.disjoint_left.mp (hpairs i j hlt) hxp)

/-- Segments of `n * size` numbers for each `n`, whose starts advance by `n * unit`. -/
def strided (unit size : ℕ) : ℕ → List ℕ → List Segment
  | _, [] => []
  | start, n :: rest => ⟨start, n * size⟩ :: strided unit size (start + n * unit) rest

theorem endToEnd_strided (size start : ℕ) (counts : List ℕ) :
    EndToEnd start (strided size size start counts) (start + counts.sum * size) := by
  induction counts generalizing start with
  | nil => simp [strided, EndToEnd]
  | cons n rest ih =>
      have hrest := ih (start + n * size)
      rw [Nat.add_assoc, ← Nat.add_mul, ← List.sum_cons] at hrest
      exact ⟨rfl, hrest⟩

/-- Two or more segments with positive counts tile the whole exactly when the
starts advance as far as the segments reach. -/
theorem tiles_strided_iff {unit size start : ℕ} {counts : List ℕ} (hpos : ∀ n ∈ counts, 0 < n) :
    Tiles ⟨start, counts.sum * size⟩ (strided unit size start counts) ↔
      size = unit ∨ counts.length ≤ 1 := by
  constructor
  · intro h
    match counts with
    | [] => exact .inr (Nat.zero_le 1)
    | [n] => exact .inr le_rfl
    | n :: m :: rest =>
        -- the second segment starts where the first stops
        have hstart : start + n * unit = start + n * size := h.adjacent.2.1
        have hn := hpos n List.mem_cons_self
        exact .inl (Nat.eq_of_mul_eq_mul_left hn (by omega))
  · rintro (rfl | hlen)
    · exact (endToEnd_strided size start counts).tiles
    · match counts with
      | [] => exact EndToEnd.tiles (by simp [strided, EndToEnd, Segment.stop])
      | [n] => exact EndToEnd.tiles (by simp [strided, EndToEnd, Segment.stop])

end Library.Tiling
