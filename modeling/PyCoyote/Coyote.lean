import PyCoyote.CBuffer

/-!
# The interface of the Coyote library

The library is not part of the repository. The wrapper sees it through the
descriptors it builds, the calls it makes and whether a call returns or
throws. Pointers are 64-bit numbers.
-/

namespace PyCoyote

/-- The stream numbers of Coyote's headers, which are different numbers. -/
class CoyoteHeader where
  strmHost : UInt32
  strmCard : UInt32
  host_ne_card : strmHost ≠ strmCard

/-- Two stream numbers, for runs on fixed inputs. -/
@[reducible] def exampleHeader : CoyoteHeader := ⟨1, 0, by decide⟩

/-- The operations of `coyote::CoyoteOper` the wrapper uses. -/
inductive CoyoteOper where
  | localSync
  | localOffload
  | localRead
  | localWrite
  | localTransfer
  | remoteRdmaRead
  | remoteRdmaWrite
deriving DecidableEq, Repr

/-- `coyote::CoyoteAllocType` -/
inductive CoyoteAllocType where
  | reg
  | hpf
  | thp
  | gpu
deriving DecidableEq, Repr

/-- The argument of `getMem`. The wrapper leaves the last two members to
Coyote's defaults except for GPU memory. -/
structure CoyoteAlloc where
  alloc : CoyoteAllocType
  size : UInt32
  remote : Option Bool
  gpuDevId : Option UInt32
deriving DecidableEq, Repr

/-- `coyote::syncSg` -/
structure SyncSg where
  addr : UInt64
  len : UInt32
deriving DecidableEq, Repr

/-- `coyote::localSg` -/
structure LocalSg where
  addr : UInt64
  len : UInt32
  stream : UInt32
  dest : UInt32
deriving DecidableEq, Repr

/-- `coyote::rdmaSg` -/
structure RdmaSg where
  localOffs : UInt64
  localStream : UInt32
  localDest : UInt32
  remoteOffs : UInt64
  remoteDest : UInt32
  len : UInt32
deriving DecidableEq, Repr

/-- Methods of `cThread` that the bindings expose without a wrapper. -/
inductive CThreadMethod where
  | setCSR
  | getCSR
  | clearCompleted
  | connSync
  | closeConn
  | lock
  | unlock
  | getVfid
  | getCtid
  | getHpid
  | printDebug
deriving DecidableEq, Repr

/-- A C++ storage object holding the characters of a `std::string`, and
whether its lifetime still runs. -/
structure StorageObject where
  chars : List Char
  alive : Bool
deriving DecidableEq, Repr

/-- A `const char*`: null, or the start of a storage object. -/
inductive CharPtr where
  | null
  | into (object : Nat)
deriving DecidableEq, Repr

/-- A call of the Coyote library with the arguments it receives. `userMap`
has the value of the length expression before any conversion to Coyote's
parameter type. -/
inductive CoyoteCall where
  | userMap (vaddr len : UInt64)
  | userUnmap (vaddr : UInt64)
  | getMem (alloc : CoyoteAlloc)
  | invokeSync (oper : CoyoteOper) (sg : SyncSg)
  | invokeLocal (oper : CoyoteOper) (sg : LocalSg) (last : Bool)
  | invokeTransfer (oper : CoyoteOper) (srcSg dstSg : LocalSg) (last : Bool)
  | invokeRdma (oper : CoyoteOper) (sg : RdmaSg) (last : Bool)
  | checkCompleted (oper : CoyoteOper)
  | initRDMA (size : UInt32) (port : UInt16) (addr : CharPtr)
  | method (m : CThreadMethod)
deriving DecidableEq, Repr

/-- What Coyote does with a call: it returns a pointer or number, or throws. -/
abbrev Answer := Except String UInt64

/-- A call as Coyote met it, with the storage objects its arguments may point
to and whether Coyote accepted it. -/
structure Exchange where
  call : CoyoteCall
  storage : List StorageObject
  accepted : Bool
deriving DecidableEq, Repr

end PyCoyote
