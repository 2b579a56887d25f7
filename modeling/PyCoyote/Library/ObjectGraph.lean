import Mathlib.Data.List.Basic

/-!
# Objects that live while they are referenced

Objects refer to each other and a program holds references to some of them,
the roots. Dead objects, alone or in cycles, are those that neither the program
nor another live object refers to. Collecting them never breaks a reference.
-/

namespace Library.ObjectGraph

variable {ω : Type*} [DecidableEq ω] (refers : ω → ω → Bool)

/-- No object among `dead` is a root or referred to by a live object outside. -/
def Collectable (live roots dead : List ω) : Prop :=
  ∀ x ∈ dead, x ∉ roots ∧ ∀ y ∈ live, refers y x = true → y ∈ dead

instance (live roots dead : List ω) : Decidable (Collectable refers live roots dead) := by
  unfold Collectable
  infer_instance

/-- The live objects after collecting some. -/
def collect (live dead : List ω) : List ω := live.filter fun x => x ∉ dead

/-- Roots live, and so does what a live object refers to. -/
structure Sound (live roots : List ω) : Prop where
  roots_live : ∀ x ∈ roots, x ∈ live
  refers_live : ∀ x ∈ live, ∀ y, refers x y = true → y ∈ live

@[simp] theorem mem_collect {live dead : List ω} {x : ω} :
    x ∈ collect live dead ↔ x ∈ live ∧ x ∉ dead := by
  simp [collect]

variable {refers} {live roots dead : List ω}

/-- Collecting dead objects keeps every reference good. -/
theorem Sound.collect (h : Sound refers live roots)
    (hdead : Collectable refers live roots dead) : Sound refers (collect live dead) roots where
  roots_live x hx := by
    rw [mem_collect]
    exact ⟨h.roots_live x hx, fun hin => (hdead x hin).1 hx⟩
  refers_live x hx y hxy := by
    rw [mem_collect] at hx ⊢
    exact ⟨h.refers_live x hx.1 y hxy, fun hin => hx.2 ((hdead y hin).2 x hx.1 hxy)⟩

omit [DecidableEq ω] in
/-- New objects may be added with all they refer to. -/
theorem Sound.add {new : List ω} (h : Sound refers live roots)
    (hnew : ∀ x ∈ new, ∀ y, refers x y = true → y ∈ new ++ live) :
    Sound refers (new ++ live) roots where
  roots_live x hx := List.mem_append_right new (h.roots_live x hx)
  refers_live x hx y hxy := by
    obtain hx | hx := List.mem_append.mp hx
    · exact hnew x hx y hxy
    · exact List.mem_append_right new (h.refers_live x hx y hxy)

omit [DecidableEq ω] in
/-- The program may take references to live objects and drop any. -/
theorem Sound.of_roots (h : Sound refers live roots) {roots' : List ω}
    (hroots : ∀ x ∈ roots', x ∈ live) : Sound refers live roots' :=
  ⟨hroots, h.refers_live⟩

end Library.ObjectGraph
