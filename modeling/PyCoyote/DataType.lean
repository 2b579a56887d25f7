import PyCoyote.Python

/-!
# The registry of data types

Each accepted name maps to a canonical name, a buffer-protocol format and an
element size in bytes. Several names share one entry.
-/

namespace PyCoyote

/-- Metadata about a data type; `size` is in bytes. -/
structure DataType where
  name : String
  format : String
  size : UInt64
deriving DecidableEq, Repr

/-- The supported data types. The source keeps them in an `unordered_map`;
its keys are distinct, so the order of the entries is immaterial. -/
def datatypeRegistry : List (String × DataType) := [
  ("bool", ⟨"bool", "?", 1⟩),
  ("char", ⟨"char", "b", 1⟩),
  ("uint8", ⟨"uint8", "B", 1⟩),
  ("int8", ⟨"int8", "b", 1⟩),
  ("int16", ⟨"int16", "h", 2⟩),
  ("uint16", ⟨"uint16", "H", 2⟩),
  ("int", ⟨"int32", "i", 4⟩),
  ("uint", ⟨"uint32", "I", 4⟩),
  ("int32", ⟨"int32", "i", 4⟩),
  ("uint32", ⟨"uint32", "I", 4⟩),
  ("int64", ⟨"int64", "q", 8⟩),
  ("uint64", ⟨"uint64", "Q", 8⟩),
  ("long", ⟨"int64", "q", 8⟩),
  ("float32", ⟨"float32", "f", 4⟩),
  ("float64", ⟨"float64", "d", 8⟩)]

/-- `datatype_registry.find` -/
def findDataType (dtype : String) : Option DataType := datatypeRegistry.lookup dtype

/-- The entries of the registry without their keys. -/
def registeredTypes : List DataType := datatypeRegistry.map Prod.snd

theorem findDataType_registered {dtype : String} {d : DataType}
    (h : findDataType dtype = some d) : d ∈ registeredTypes := by
  obtain ⟨l₁, l₂, heq, _⟩ := List.lookup_eq_some_iff.mp h
  exact List.mem_map.mpr ⟨(dtype, d), by simp [heq], rfl⟩

/-- No key occurs twice, so a lookup does not depend on the order of the entries. -/
theorem findDataType_key : ∀ entry ∈ datatypeRegistry,
    findDataType entry.1 = some entry.2 := by decide

/-- The canonical name of an entry is itself an accepted name of that entry. -/
theorem findDataType_name : ∀ d ∈ registeredTypes, findDataType d.name = some d := by decide

theorem int32_registered : ⟨"int32", "i", 4⟩ ∈ registeredTypes := by decide

theorem size_of_registered : ∀ d ∈ registeredTypes,
    d.size = 1 ∨ d.size = 2 ∨ d.size = 4 ∨ d.size = 8 := by decide

theorem size_pos {d : DataType} (h : d ∈ registeredTypes) : 0 < d.size.toNat := by
  rcases size_of_registered d h with h | h | h | h <;> rw [h] <;> decide

theorem size_le_eight {d : DataType} (h : d ∈ registeredTypes) : d.size.toNat ≤ 8 := by
  rcases size_of_registered d h with h | h | h | h <;> rw [h] <;> decide

end PyCoyote
