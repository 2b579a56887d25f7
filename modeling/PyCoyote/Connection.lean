import PyCoyote.CThread
import Mathlib.Data.List.TakeWhile

/-!
# The address `init_rdma` connects to

Coyote reads the server's address through a `const char*`. The wrapper takes
that pointer from a temporary string, which ends with the full expression that
makes it, one statement before the call. So Coyote is handed the right
argument exactly when there is no address to pass.
-/

namespace PyCoyote

open Op

/-- The characters of a C string, up to its terminating NUL. -/
def cString (chars : List Char) : List Char := chars.takeWhile (· ≠ '\x00')

theorem cString_of_no_nul {chars : List Char} (h : '\x00' ∉ chars) : cString chars = chars := by
  apply List.takeWhile_eq_self_iff.mpr
  intro c hc
  exact decide_eq_true fun heq => h (heq ▸ hc)

/-- What can be read through a pointer. Null points to nothing, and storage
that has ended has no contents. -/
def CharPtr.read (storage : List StorageObject) : CharPtr → Option (List Char)
  | .null => none
  | .into object =>
      (storage[object]?).bind fun o => if o.alive then some (cString o.chars) else none

/-- Storage that has ended cannot be read. -/
theorem CharPtr.read_ended (storage : List StorageObject) (object : ℕ) :
    (CharPtr.into object).read (storage.modify object fun o => { o with alive := false }) =
      none := by
  rw [read, List.getElem?_modify_eq]
  cases storage[object]? <;> rfl

namespace CThread

/-- Inside the full expression the pointer still reads the characters of the address. -/
theorem castString_readable {chars : List Char} (h : '\x00' ∉ chars) (answer : Answer)
    (s : WrapperState) : ∃ object, (castString (.text chars) answer s).result = .ok object ∧
      (CharPtr.into object).read (castString (.text chars) answer s).state.storage =
        some chars := by
  refine ⟨s.storage.length, rfl, ?_⟩
  change (CharPtr.into s.storage.length).read (s.storage ++ [⟨chars, true⟩]) = some chars
  rw [CharPtr.read, List.getElem?_concat_length, Option.bind_some, if_pos rfl,
    cString_of_no_nul h]

section SetUp
variable {dtype : String} {d : DataType} (hd : findDataType dtype = some d) (bufferSize : UInt32)
  (port : UInt16) (answer : Answer) (s : WrapperState)
include hd

/-- Without an address the call gets a null pointer. -/
theorem initRDMAWrapper_exchanges_none :
    (initRDMAWrapper bufferSize dtype port .none answer s).exchanges =
      [⟨.initRDMA (byteCount bufferSize d) port .null, s.storage, answer.isOk⟩] := by
  simp only [initRDMAWrapper, hd, setQpDtype_bind_run]
  cases answer <;> rfl

/-- With an address the call gets a pointer to a string that has ended before it. -/
theorem initRDMAWrapper_exchanges_text (chars : List Char) :
    (initRDMAWrapper bufferSize dtype port (.text chars) answer s).exchanges =
      [⟨.initRDMA (byteCount bufferSize d) port (.into s.storage.length),
        (s.storage ++ [StorageObject.mk chars true]).modify s.storage.length
          fun o => { o with alive := false }, answer.isOk⟩] := by
  simp only [initRDMAWrapper, hd, setQpDtype_bind_run]
  cases answer <;> rfl

end SetUp

end CThread

namespace Connection

/-- Coyote is called once. The address it reads is null exactly when none was
given, and otherwise points to storage that can be read as the given characters. -/
def ConnectsTo (o : Outcome CoyoteBuffer) (serverAddress : ServerAddress) : Prop :=
  ∃ size port addr storage accepted,
    o.exchanges = [⟨.initRDMA size port addr, storage, accepted⟩] ∧
    (addr = .null ↔ serverAddress = .none) ∧
    ∀ chars, serverAddress = .text chars → addr.read storage = some chars

section SetUp
variable {dtype : String} {d : DataType} (hd : findDataType dtype = some d) (bufferSize : UInt32)
  (port : UInt16) (answer : Answer) (s : WrapperState)
include hd

/-- Without an address the argument is null. -/
theorem connectsTo_none :
    ConnectsTo (CThread.initRDMAWrapper bufferSize dtype port .none answer s) .none := by
  have hexchanges := CThread.initRDMAWrapper_exchanges_none hd bufferSize port answer s
  exact ⟨_, _, .null, _, _, hexchanges, by simp, fun chars h => by cases h⟩

/-- With an address the argument is not null, but what it points to has ended. -/
theorem not_connectsTo_text (chars : List Char) :
    ¬ConnectsTo (CThread.initRDMAWrapper bufferSize dtype port (.text chars) answer s)
      (.text chars) := by
  rintro ⟨size, port', addr, storage, accepted, hexchanges, -, hread⟩
  have hended := CThread.initRDMAWrapper_exchanges_text hd bufferSize port answer s chars
  have hsame := hexchanges.symm.trans hended
  simp only [List.cons.injEq, Exchange.mk.injEq, CoyoteCall.initRDMA.injEq, and_true] at hsame
  obtain ⟨⟨-, -, rfl⟩, rfl, -⟩ := hsame
  have hchars := hread chars rfl
  rw [CharPtr.read_ended] at hchars
  cases hchars

/-- A set-up connects to the address it was given if and only if it was given none. -/
theorem connects_iff {serverAddress : ServerAddress}
    (hc : CThread.castable serverAddress = true) :
    ConnectsTo (CThread.initRDMAWrapper bufferSize dtype port serverAddress answer s)
      serverAddress ↔ serverAddress = .none := by
  cases serverAddress with
  | none => exact iff_of_true (connectsTo_none hd bufferSize port answer s) rfl
  | text chars =>
      exact iff_of_false (not_connectsTo_text hd bufferSize port answer s chars) (by simp)
  | notText => simp [CThread.castable] at hc

end SetUp

/-- A server of integers, which connects to nobody. -/
theorem server_connects :
    ConnectsTo (CThread.initRDMAWrapper 16 "int" 18488 .none (.ok 0x7f0000000000)
      (WrapperState.constructed 0)) .none :=
  (connects_iff rfl 16 18488 (.ok 0x7f0000000000) (WrapperState.constructed 0) rfl).mpr rfl

/-- A client of the server at 10.1.2.3 hands Coyote the address of a string that has ended. -/
theorem not_connects_client :
    ¬ConnectsTo (CThread.initRDMAWrapper 16 "int" 18488 (.text "10.1.2.3".toList)
      (.ok 0x7f0000000000) (WrapperState.constructed 0)) (.text "10.1.2.3".toList) :=
  not_connectsTo_text rfl 16 18488 (.ok 0x7f0000000000) (WrapperState.constructed 0) _

end Connection

end PyCoyote
