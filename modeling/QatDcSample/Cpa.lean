import QatDcSample.Lib.Program
import Mathlib.Data.Nat.Notation

/-!
# The calls of the sample program

The types of `cpa.h` and `cpa_dc.h` the sample uses and the calls through which
its threads act on the driver, on memory, on semaphores, on the two globals of
`cpa_sample_utils.c` and on files. What a call does is said in `System`; here
stands only what it passes and which answers it can get. An out parameter is
part of the answer (its value after the call).
-/

namespace QatDcSample
open EventProgram

/-- `typedef Cpa32S CpaStatus` (`cpa.h:312-345`). -/
abbrev CpaStatus := Int

namespace CpaStatus
def success : CpaStatus := 0
def fail : CpaStatus := -1
def retry : CpaStatus := -2
def resource : CpaStatus := -3
def invalidParam : CpaStatus := -4
end CpaStatus

/-- The bare `1` that `dcStatelessSample` returns when a file or `malloc` fails. -/
def statusOne : CpaStatus := 1

open CpaStatus

@[simp] theorem fail_ne_success : fail ≠ success := by decide
@[simp] theorem resource_ne_success : resource ≠ success := by decide
@[simp] theorem statusOne_ne_success : statusOne ≠ success := by decide

/-- Per-request result (`cpa_dc.h:436-495`). -/
inductive CpaDcReqStatus where
  | ok | invalidBlockType | badStoredBlockLen | tooManyCodes | incompleteCodeLens
  | repeatedLens | moreRepeat | badLitlenCodes | badDistCodes | invalidCode | invalidDist
  | overflow | softerr | fatalerr | maxResubiterr | incompleteFileErr | wdogTimerErr
  | epHardwareErr | verifyError | emptyDymBlk | crcIntegErr | lz4MaxBlockSizeExceeded
  | lz4BlockOverflowErr | lz4TokenIsZeroErr | lz4DistanceOutOfRangeErr
  deriving DecidableEq

/-- The two fields of the capabilities that `enqueueQATWork` looks at. -/
structure CpaDcInstanceCapabilities where
  dynamicHuffmanBufferReq : Bool
  autoSelectBestHuffmanTree : Bool
  deriving DecidableEq

/-- Name of an allocated block. A block is never named twice; the addresses it
occupies can be used again after its release. -/
abbrev BlockId := ℕ

/-- `none` is `NULL`. -/
abbrev Ptr := Option BlockId

/-- A buffer list with its one flat buffer behind it in the same block
(`pFlatBuffer = (CpaFlatBuffer *)(pBufferList + 1)`). -/
structure CpaBufferList where
  addr : Ptr
  pPrivateMetaData : Ptr
  pData : Ptr
  dataLenInBytes : ℕ
  deriving DecidableEq

/-- The three completions of one run of `compPerformOp`. -/
inductive Completion where
  | complete1 | complete2 | complete3
  deriving DecidableEq

/-- Pointer fields of the intermediate buffer structures: entry `i` of the array
of `CpaBufferList *`, the two pointers of a `CpaBufferList`, and the data pointer
of a `CpaFlatBuffer`. -/
inductive Field where
  | entry (i : ℕ)
  | pPrivateMetaData
  | pBuffers
  | pData
  deriving DecidableEq

inductive Allocator where
  | os      -- malloc / free
  | contig  -- qaeMemAllocNUMA / qaeMemFreeNUMA
  deriving DecidableEq

/-- API functions that report a status and nothing else the sample reads. -/
inductive StatusFn where
  | cpaDcSetAddressTranslation
  | cpaDcInitSession
  | cpaDcRemoveSession
  | cpaDcGetStats
  deriving DecidableEq

/-- API functions that report a status and one number. -/
inductive SizeFn where
  | cpaDcBufferListGetMetaSize
  | cpaDcGetNumIntermediateBuffers
  | cpaDcDeflateCompressBound
  | cpaDcGetSessionSize
  deriving DecidableEq

/-- The files the main thread opens. -/
inductive FileName where
  | silesia            -- "../benchmark/Silesia_all"
  | traceVm (i : ℕ)    -- "../traces/trace_vm%d"
  deriving DecidableEq

/-- Parts of the automatic arrays of `dcStatelessSample` that worker `i` reaches
through its `qat_arg`. -/
inductive SampleVar where
  | interval (entry : ℕ)
  | bufPtr
  deriving DecidableEq

/-- Initialisation calls of `main` and `dcStatelessSample`. -/
inductive SetupFn where
  | qaeMemInit
  | icpSalUserStartMultiProcess
  | cpaDcGetInstances
  deriving DecidableEq

inductive TeardownFn where
  | icpSalUserStop
  | qaeMemDestroy
  deriving DecidableEq

inductive Call where
  -- the driver
  | api (f : StatusFn) (inst : ℕ)
  | apiSize (f : SizeFn) (inst : ℕ)
  | cpaDcQueryCapabilities (inst : ℕ)
  | cpaDcInstanceGetInfo2 (inst : ℕ)
  | cpaDcStartInstance (inst : ℕ) (numBuffers : ℕ) (pIntermediateBuffers : Ptr)
  | cpaDcStopInstance (inst : ℕ)
  | cpaDcCompressData2 (inst : ℕ) (session : Ptr) (src dst : CpaBufferList)
      (frame : BlockId) (tag : Completion)
  | icpSalDcPollInstance (inst : ℕ)
  | pollReturn (inst : ℕ)
  -- memory
  | memAlloc (a : Allocator) (sizeBytes : ℕ)
  | memFree (a : Allocator) (b : BlockId)
  | load (p : Ptr) (f : Field)
  | store (p : Ptr) (f : Field) (v : Ptr)
  | enterFrame
  | leaveFrame (b : BlockId)
  -- completions and the results structure of the running compPerformOp
  | completionInit (k : Completion)
  | completionWait (k : Completion)
  | completionDestroy (k : Completion)
  | readResultsStatus
  -- the frame of dcStatelessSample, read by worker i
  | readDcInstHandle (i : ℕ)
  | readSample (i : ℕ) (v : SampleVar)
  | memcpyInput
  -- pollers
  | pthreadCreatePoller (inst : ℕ)
  | pthreadDetach
  | setPollingDc (v : Bool)
  | readPollingDc
  | osSleep (ms : ℕ)
  -- the main thread
  | setup (f : SetupFn)
  | teardown (f : TeardownFn)
  | pthreadCreateWorker (i : ℕ)
  | pthreadJoin (i : ℕ)
  | fopen (f : FileName)
  | fread (f : FileName)
  | fclose (f : Option FileName)
  | storeTraceTime (row line : ℕ) (interval : Int)
  | print (msg : String)
  | returnSample (status : CpaStatus)

namespace Call

/-- Answers. An allocation answers the new block and its address, the creation of a
poller also what the variable of the identifier holds after a failure. -/
@[reducible] def Resp : Call → Type
  | api _ _ => CpaStatus
  | apiSize _ _ => CpaStatus × ℕ
  | cpaDcQueryCapabilities _ => CpaStatus × CpaDcInstanceCapabilities
  | cpaDcInstanceGetInfo2 _ => CpaStatus × Bool
  | cpaDcStartInstance _ _ _ => CpaStatus
  | cpaDcStopInstance _ => CpaStatus
  | cpaDcCompressData2 _ _ _ _ _ _ => CpaStatus
  | memAlloc _ _ => Option (BlockId × ℕ)
  | load _ _ => Ptr
  | enterFrame => BlockId × ℕ
  | completionWait _ => Bool
  | readResultsStatus => CpaDcReqStatus
  | readDcInstHandle _ => ℕ
  | pthreadCreatePoller _ => Bool × Option ℕ
  | pthreadDetach => Option ℕ
  | readPollingDc => Bool
  | setup _ => CpaStatus
  | pthreadCreateWorker _ => Bool
  | fopen _ => Bool
  | fread _ => Bool
  | _ => Unit

end Call

/-- Code of a thread of the sample. -/
abbrev Code (α : Type) := Prog Call Call.Resp α

/-- One call of a thread. -/
abbrev invoke (c : Call) : Code c.Resp := Prog.perform c

/-- `if (CPA_STATUS_SUCCESS == status) status = p;` -/
def whenOk (status : CpaStatus) (p : Code CpaStatus) : Code CpaStatus :=
  if status = success then p else pure status

/-- The same for a call that also sets a variable, which keeps `old` otherwise. -/
def whenOkSet {α : Type} (status : CpaStatus) (old : α) (p : Code (CpaStatus × α)) :
    Code (CpaStatus × α) :=
  if status = success then p else pure (status, old)

end QatDcSample
