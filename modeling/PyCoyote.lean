import PyCoyote.Library.EventTrace
import PyCoyote.Library.Tiling
import PyCoyote.Library.NativeInt
import PyCoyote.Library.PackedArray
import PyCoyote.Library.Transition
import PyCoyote.Library.GlobalLock
import PyCoyote.Library.ObjectGraph
import PyCoyote.Library.Completion
import PyCoyote.Library.RemoteCopy
import PyCoyote.Python
import PyCoyote.DataType
import PyCoyote.CBuffer
import PyCoyote.Coyote
import PyCoyote.Operation
import PyCoyote.CThread
import PyCoyote.LocalTransfer
import PyCoyote.Session
import PyCoyote.ByteCount
import PyCoyote.Allocation
import PyCoyote.QueuePair
import PyCoyote.Atomicity
import PyCoyote.RdmaSplit
import PyCoyote.Connection
import PyCoyote.Memoryview
import PyCoyote.TypedArray
import PyCoyote.BufferArray
import PyCoyote.Trampoline
import PyCoyote.LockInvariant
import PyCoyote.CallInvariant
import PyCoyote.GilSafety
import PyCoyote.Delivery
import PyCoyote.Shutdown
import PyCoyote.Lifetime
import PyCoyote.HandlerStage
import PyCoyote.RefCount
import PyCoyote.Progress
import PyCoyote.Script
import PyCoyote.ScriptRules
import PyCoyote.ExampleScripts
import PyCoyote.RdmaMachine
import PyCoyote.RdmaEpochs
import PyCoyote.RdmaLink
import PyCoyote.RdmaBenchmark
import PyCoyote.ThreadScripts
