import Mathlib.Logic.Function.Basic
import Mathlib.Data.Nat.Notation

/-!
# Copies into a node's memory

A copy carries elements of a source memory to the same places of a node's
memory. Each element is read at some moment and stored at some later one, in any
order and mixed with other copies; when all of it is stored, the copy is counted.
While the source holds some values, a node that has counted every copy sent to
it holds them as well.
-/

namespace Library.RemoteCopy

variable {α : Type*}

/-- A copy under way: the elements not read yet, and those read but not stored. -/
structure Copy (α : Type*) where
  unread : List ℕ
  packets : List (ℕ × α)

/-- The copy has still to store an element. -/
def Copy.Pending (i : ℕ) (c : Copy α) : Prop := i ∈ c.unread ∨ ∃ v, (i, v) ∈ c.packets

/-- A memory, the number of copies stored into it since the counter was cleared,
and the copies under way to it. -/
structure Node (α : Type*) where
  mem : ℕ → α
  count : ℕ
  flight : List (Copy α)

namespace Node

/-- A copy of the first `size` elements starts. -/
def launch (node : Node α) (size : ℕ) : Node α :=
  { node with flight := node.flight ++ [⟨List.range size, []⟩] }

/-- The node's owner writes an element. -/
def set (node : Node α) (i : ℕ) (v : α) : Node α := { node with mem := Function.update node.mem i v }

/-- The counter is cleared. -/
def clear (node : Node α) : Node α := { node with count := 0 }

@[simp] theorem launch_mem (node : Node α) (size : ℕ) : (node.launch size).mem = node.mem := rfl
@[simp] theorem launch_count (node : Node α) (size : ℕ) : (node.launch size).count = node.count := rfl
@[simp] theorem set_count (node : Node α) (i : ℕ) (v : α) : (node.set i v).count = node.count := rfl
@[simp] theorem set_flight (node : Node α) (i : ℕ) (v : α) :
    (node.set i v).flight = node.flight := rfl
@[simp] theorem clear_mem (node : Node α) : node.clear.mem = node.mem := rfl
@[simp] theorem clear_count (node : Node α) : node.clear.count = 0 := rfl
@[simp] theorem clear_flight (node : Node α) : node.clear.flight = node.flight := rfl

@[simp] theorem launch_flight_length (node : Node α) (size : ℕ) :
    (node.launch size).flight.length = node.flight.length + 1 := by
  simp [launch]

end Node

/-- One step of the copies under way: an element is read or stored, or a copy
that has stored all its elements is counted. -/
inductive Moves (source : ℕ → α) (node : Node α) : Node α → Prop
  | read {before after : List (Copy α)} {left right : List ℕ} {i : ℕ} {packets : List (ℕ × α)}
      (h : node.flight = before ++ ⟨left ++ i :: right, packets⟩ :: after) :
      Moves source node { node with
        flight := before ++ ⟨left ++ right, (i, source i) :: packets⟩ :: after }
  | store {before after : List (Copy α)} {unread : List ℕ} {left right : List (ℕ × α)} {i : ℕ}
      {v : α} (h : node.flight = before ++ ⟨unread, left ++ (i, v) :: right⟩ :: after) :
      Moves source node { node with
        mem := Function.update node.mem i v
        flight := before ++ ⟨unread, left ++ right⟩ :: after }
  | finish {before after : List (Copy α)} (h : node.flight = before ++ ⟨[], []⟩ :: after) :
      Moves source node { node with count := node.count + 1, flight := before ++ after }

/-- The steps that copies have still to take. -/
def work : List (Copy α) → ℕ
  | [] => 0
  | c :: rest => 2 * c.unread.length + c.packets.length + 1 + work rest

theorem work_append (first second : List (Copy α)) :
    work (first ++ second) = work first + work second := by
  induction first with
  | nil => exact (Nat.zero_add _).symm
  | cons c rest ih => rw [List.cons_append, work, work, ih, ← Nat.add_assoc]

theorem work_launch (node : Node α) (size : ℕ) :
    work (node.launch size).flight = work node.flight + (2 * size + 1) := by
  simp [Node.launch, work_append, work]

variable {source : ℕ → α} {node node' : Node α}

theorem Moves.work_lt (h : Moves source node node') : work node'.flight < work node.flight := by
  cases h with
  | read h | store h | finish h =>
      simp only [h, work_append, work, List.length_append, List.length_cons, List.length_nil]
      omega

/-- While a copy is under way, it can go on. -/
theorem exists_moves (source : ℕ → α) (h : node.flight ≠ []) : ∃ node', Moves source node node' := by
  obtain ⟨c, after, hflight⟩ := List.exists_cons_of_ne_nil h
  obtain ⟨unread, packets⟩ := c
  cases unread with
  | cons i right =>
      have hfirst : node.flight = [] ++ ⟨[] ++ i :: right, packets⟩ :: after := hflight
      exact ⟨_, .read hfirst⟩
  | nil =>
      cases packets with
      | cons p right =>
          have hfirst : node.flight = [] ++ ⟨[], [] ++ (p.1, p.2) :: right⟩ :: after := hflight
          exact ⟨_, .store hfirst⟩
      | nil =>
          have hfirst : node.flight = [] ++ ⟨[], []⟩ :: after := hflight
          exact ⟨_, .finish hfirst⟩

theorem Moves.flight_ne_nil (h : Moves source node node') : node.flight ≠ [] := by
  cases h with
  | read h | store h | finish h => simp [h]

/-- Copies are counted as they end. -/
theorem Moves.total (h : Moves source node node') :
    node'.count + node'.flight.length = node.count + node.flight.length := by
  cases h with
  | read h | store h => simp only [h, List.length_append, List.length_cons]
  | finish h =>
      simp only [h, List.length_append, List.length_cons]
      omega

/-- The copies under way carry the values `f` of the first `size` elements, and
where an element has another value, no copy has ended and none has stored it. -/
structure Carries (f : ℕ → α) (size : ℕ) (node : Node α) : Prop where
  unread : ∀ c ∈ node.flight, ∀ i ∈ c.unread, i < size
  packets : ∀ c ∈ node.flight, ∀ p ∈ c.packets, p.2 = f p.1
  arrived : ∀ i < size, node.mem i = f i ∨ node.count = 0 ∧ ∀ c ∈ node.flight, c.Pending i

variable {f : ℕ → α} {size : ℕ}

namespace Carries

/-- Before the first copy there is nothing to carry. -/
theorem of_quiet (f : ℕ → α) (size : ℕ) (hflight : node.flight = []) (hcount : node.count = 0) :
    Carries f size node := by
  refine ⟨?_, ?_, fun i _ => .inr ⟨hcount, ?_⟩⟩ <;> simp [hflight]

theorem launch (h : Carries f size node) : Carries f size (node.launch size) := by
  refine ⟨?_, ?_, fun i hi => (h.arrived i hi).imp_right fun ⟨hcount, hpending⟩ => ⟨hcount, ?_⟩⟩
  · simpa [Node.launch, or_imp, forall_and] using h.unread
  · simpa [Node.launch, or_imp, forall_and] using h.packets
  · simpa [Node.launch, Copy.Pending, or_imp, forall_and, hi] using hpending

/-- A step keeps what the copies carry, if the source holds the values. -/
theorem moves (h : Carries f size node) (hsource : ∀ i < size, source i = f i)
    (hmoves : Moves source node node') : Carries f size node' := by
  obtain ⟨hunread, hpackets, harrived⟩ := h
  cases hmoves with
  | @read before after left right j packets hflight =>
      rw [hflight] at hunread hpackets harrived
      simp only [List.forall_mem_append, List.forall_mem_cons] at hunread hpackets harrived
      refine ⟨?_, ?_, ?_⟩
      · simp only [List.forall_mem_append, List.forall_mem_cons]
        exact ⟨hunread.1, ⟨hunread.2.1.1, hunread.2.1.2.2⟩, hunread.2.2⟩
      · simp only [List.forall_mem_append, List.forall_mem_cons]
        exact ⟨hpackets.1, ⟨hsource j hunread.2.1.2.1, hpackets.2.1⟩, hpackets.2.2⟩
      · intro i hi
        refine (harrived i hi).imp_right fun ⟨hcount, hbefore, hthis, hafter⟩ => ⟨hcount, ?_⟩
        simp only [List.forall_mem_append, List.forall_mem_cons]
        refine ⟨hbefore, ?_, hafter⟩
        obtain hmem | ⟨v, hv⟩ := hthis
        · by_cases hij : i = j
          · exact .inr ⟨source j, by simp [hij]⟩
          · exact .inl (by simpa [hij] using hmem)
        · exact .inr ⟨v, List.mem_cons_of_mem _ hv⟩
  | @store before after unread left right j v hflight =>
      rw [hflight] at hunread hpackets harrived
      simp only [List.forall_mem_append, List.forall_mem_cons] at hunread hpackets harrived
      refine ⟨?_, ?_, ?_⟩
      · simpa only [List.forall_mem_append, List.forall_mem_cons] using hunread
      · simp only [List.forall_mem_append, List.forall_mem_cons]
        exact ⟨hpackets.1, ⟨hpackets.2.1.1, hpackets.2.1.2.2⟩, hpackets.2.2⟩
      · intro i hi
        have hv : v = f j := hpackets.2.1.2.1
        dsimp only
        by_cases hij : i = j
        · left
          rw [hij, Function.update_self]
          exact hv
        · rw [Function.update_of_ne hij]
          refine (harrived i hi).imp_right fun ⟨hcount, hbefore, hthis, hafter⟩ => ⟨hcount, ?_⟩
          simp only [List.forall_mem_append, List.forall_mem_cons]
          refine ⟨hbefore, hthis.imp_right ?_, hafter⟩
          rintro ⟨w, hw⟩
          refine ⟨w, ?_⟩
          simpa [hij] using hw
  | @finish before after hflight =>
      rw [hflight] at hunread hpackets harrived
      simp only [List.forall_mem_append, List.forall_mem_cons] at hunread hpackets harrived
      refine ⟨?_, ?_, ?_⟩
      · simpa only [List.forall_mem_append] using ⟨hunread.1, hunread.2.2⟩
      · simpa only [List.forall_mem_append] using ⟨hpackets.1, hpackets.2.2⟩
      · intro i hi
        -- the copy that ends has nothing left to store, so every element has arrived
        refine .inl ((harrived i hi).resolve_right fun ⟨_, _, hthis, _⟩ => ?_)
        simp [Copy.Pending] at hthis

/-- When a copy has been counted, the elements have arrived. -/
theorem arrived_of_count (h : Carries f size node) (hcount : 0 < node.count) :
    ∀ i < size, node.mem i = f i :=
  fun i hi => (h.arrived i hi).resolve_right fun ⟨hzero, _⟩ => Nat.ne_of_gt hcount hzero

end Carries

end Library.RemoteCopy
