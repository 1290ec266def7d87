import QatDcSample.Cpa

/-!
# The worker thread (`dc_qat_funcs.c:78-562`)

`compPerformOp` and `enqueueQATWork`, call by call, and the two helpers of
`cpa_sample_utils.c` they use. A program's result is the value of the local
`status` where the C function returns; `enqueueQATWork` itself returns `NULL`
there, and `pthread_join` hands nothing on (`System`).
-/

namespace QatDcSample
open EventProgram CpaStatus

def sampleMaxBuff : ℕ := 1 * 1024 * 1024

/-- `sizeof(CpaBufferList) + numBuffers * sizeof(CpaFlatBuffer)` for one buffer. -/
def bufferListMemSize : ℕ := 32 + 1 * 16

/-! ### Memory macros (`cpa_sample_utils.h:298-463`) -/

/-- `Mem_OsMemAlloc` / `Mem_Alloc_Contig`: the pointer is `NULL` on failure. -/
def memAlloc (a : Allocator) (sizeBytes : ℕ) : Code (CpaStatus × Ptr) := do
  match ← invoke (.memAlloc a sizeBytes) with
  | none => pure (resource, none)
  | some (b, _) => pure (success, some b)

def physContigAlloc (sizeBytes : ℕ) : Code (CpaStatus × Ptr) := memAlloc .contig sizeBytes
def osMalloc (sizeBytes : ℕ) : Code (CpaStatus × Ptr) := memAlloc .os sizeBytes

/-- `Mem_OsMemFree` / `Mem_Free_Contig`: silent on `NULL`. -/
def memFree (a : Allocator) (p : Ptr) : Code Unit :=
  match p with
  | none => pure ()
  | some b => invoke (.memFree a b)

def physContigFree (p : Ptr) : Code Unit := memFree .contig p
def osFree (p : Ptr) : Code Unit := memFree .os p

/-- `PHYS_CONTIG_ALLOC(&p->f, size)`: the result is stored, `NULL` included. -/
def physContigAllocField (p : Ptr) (f : Field) (sizeBytes : ℕ) : Code CpaStatus := do
  let (status, v) ← physContigAlloc sizeBytes
  invoke (.store p f v)
  pure status

/-- `PHYS_CONTIG_FREE(p->f)`: the field is read, its block freed, `NULL` stored. -/
def physContigFreeField (p : Ptr) (f : Field) : Code Unit := do
  match ← invoke (.load p f) with
  | none => pure ()
  | some b =>
      invoke (.memFree .contig b)
      invoke (.store p f none)

/-! ### compPerformOp (`dc_qat_funcs.c:78-332`) -/

/-- The six pointers `compPerformOp` allocates and frees. -/
structure OpBuffers where
  pBufferMetaSrc : Ptr
  pBufferListSrc : Ptr
  pSrcBuffer : Ptr
  pBufferMetaDst : Ptr
  pBufferListDst : Ptr
  pDstBuffer : Ptr

/-- The guarded allocations of lines 143-169. -/
def allocOpBuffers (bufferMetaSize dstBufferSize : ℕ) : Code (CpaStatus × OpBuffers) := do
  let (status, pBufferMetaSrc) ← physContigAlloc bufferMetaSize
  let (status, pBufferListSrc) ← whenOkSet status none (osMalloc bufferListMemSize)
  let (status, pSrcBuffer) ← whenOkSet status none (physContigAlloc sampleMaxBuff)
  let (status, pBufferMetaDst) ← whenOkSet status none (physContigAlloc bufferMetaSize)
  let (status, pBufferListDst) ← whenOkSet status none (osMalloc bufferListMemSize)
  let (status, pDstBuffer) ← whenOkSet status none (physContigAlloc dstBufferSize)
  pure (status,
    ⟨pBufferMetaSrc, pBufferListSrc, pSrcBuffer, pBufferMetaDst, pBufferListDst, pDstBuffer⟩)

namespace OpBuffers

/-- The lists built at lines 178-198. -/
def src (b : OpBuffers) : CpaBufferList :=
  ⟨b.pBufferListSrc, b.pBufferMetaSrc, b.pSrcBuffer, sampleMaxBuff⟩

def dst (b : OpBuffers) (dstBufferSize : ℕ) : CpaBufferList :=
  ⟨b.pBufferListDst, b.pBufferMetaDst, b.pDstBuffer, dstBufferSize⟩

end OpBuffers

/-- The release of lines 319-324. -/
def freeOpBuffers (b : OpBuffers) : Code Unit := do
  physContigFree b.pSrcBuffer
  osFree b.pBufferListSrc
  physContigFree b.pBufferMetaSrc
  physContigFree b.pDstBuffer
  osFree b.pBufferListDst
  physContigFree b.pBufferMetaDst

/-- The three back-to-back submissions of lines 216-259; each status replaces the
one before it, and the last one is the result. -/
def submitAll (inst : ℕ) (session : Ptr) (src dst : CpaBufferList) (frame : BlockId) :
    Code CpaStatus := do
  invoke (.completionInit .complete1)
  invoke (.completionInit .complete2)
  invoke (.completionInit .complete3)
  let _ ← invoke (.cpaDcCompressData2 inst session src dst frame .complete1)
  let _ ← invoke (.cpaDcCompressData2 inst session src dst frame .complete2)
  invoke (.cpaDcCompressData2 inst session src dst frame .complete3)

/-- `if (!COMPLETION_WAIT(&complete, TIMEOUT_MS)) status = CPA_STATUS_FAIL;` -/
def waitFor (k : Completion) : Code CpaStatus := do
  if ← invoke (.completionWait k) then pure success else pure fail

/-- The guarded waits of lines 265-285. -/
def waitAll (status : CpaStatus) : Code CpaStatus := do
  let status ← whenOk status (waitFor .complete1)
  let status ← whenOk status (waitFor .complete2)
  whenOk status (waitFor .complete3)

/-- `if (dcResults.status != CPA_DC_OK) status = CPA_STATUS_FAIL;` -/
def checkResults : Code CpaStatus := do
  if (← invoke .readResultsStatus) = .ok then pure success else pure fail

/-- Lines 171-313: the part of `compPerformOp` that runs when everything was
allocated. -/
def performOp (inst : ℕ) (session : Ptr) (src dst : CpaBufferList) (frame : BlockId) :
    Code CpaStatus := do
  invoke .memcpyInput  -- memcpy(pSrcBuffer, buf_ptr, SAMPLE_MAX_BUFF)
  let status ← submitAll inst session src dst frame
  let status ← waitAll status
  whenOk status checkResults

/-- `compPerformOp`. Its locals `opData`, `dcResults` and `complete1..3` are the
block `frame`. -/
def compPerformOp (inst : ℕ) (session : Ptr) : Code CpaStatus := do
  let (frame, _) ← invoke .enterFrame
  -- the status of the first query is overwritten by the second one
  let (_, bufferMetaSize) ← invoke (.apiSize .cpaDcBufferListGetMetaSize inst)
  let (status, dstBufferSize) ← invoke (.apiSize .cpaDcDeflateCompressBound inst)
  if status ≠ success then
    invoke (.leaveFrame frame)
    pure fail
  else
    let (status, b) ← allocOpBuffers bufferMetaSize dstBufferSize
    let status ← whenOk status (performOp inst session b.src (b.dst dstBufferSize) frame)
    freeOpBuffers b
    invoke (.completionDestroy .complete1)
    invoke (.completionDestroy .complete2)
    invoke (.completionDestroy .complete3)
    invoke (.leaveFrame frame)
    pure status

/-! ### enqueueQATWork (`dc_qat_funcs.c:337-562`) -/

/-- `*(qat_arg->dcInstHandle)`, read again before every call of worker `i`. -/
def dcInstHandle (i : ℕ) : Code ℕ := invoke (.readDcInstHandle i)

/-- One turn of the construction loop (lines 382-410). -/
def allocInterBuffer (bufferInterArray : Ptr) (buffMetaSize bufferNum : ℕ)
    (status : CpaStatus) : Code CpaStatus := do
  let status ← whenOk status
    (physContigAllocField bufferInterArray (.entry bufferNum) 32)
  let status ← whenOk status (do
    let list ← invoke (.load bufferInterArray (.entry bufferNum))
    physContigAllocField list .pPrivateMetaData buffMetaSize)
  let status ← whenOk status (do
    let list ← invoke (.load bufferInterArray (.entry bufferNum))
    physContigAllocField list .pBuffers 16)
  whenOk status (do
    let list ← invoke (.load bufferInterArray (.entry bufferNum))
    let flat ← invoke (.load list .pBuffers)
    physContigAllocField flat .pData (2 * sampleMaxBuff))

/-- `for (bufferNum = 0; bufferNum < numInterBuffLists; bufferNum++)`: `n` turns
are left, the next one is for `bufferNum`. -/
def allocInterLoop (bufferInterArray : Ptr) (buffMetaSize : ℕ) :
    ℕ → ℕ → CpaStatus → Code CpaStatus
  | 0, _, status => pure status
  | n + 1, bufferNum, status => do
      let status ← allocInterBuffer bufferInterArray buffMetaSize bufferNum status
      allocInterLoop bufferInterArray buffMetaSize n (bufferNum + 1) status

/-- Lines 376-380: the array of `CpaBufferList *`. -/
def allocInterArray (status : CpaStatus) (numInterBuffLists : ℕ) : Code (CpaStatus × Ptr) :=
  if status = success ∧ numInterBuffLists ≠ 0 then physContigAlloc (numInterBuffLists * 8)
  else pure (status, none)

/-- Lines 368-412: the status, `numInterBuffLists` and `bufferInterArray`. -/
def allocInterBuffers (i : ℕ) : Code (CpaStatus × ℕ × Ptr) := do
  let inst ← dcInstHandle i
  let (status, buffMetaSize) ← invoke (.apiSize .cpaDcBufferListGetMetaSize inst)
  let (status, numInterBuffLists) ← whenOkSet status 0 (do
    let inst ← dcInstHandle i
    invoke (.apiSize .cpaDcGetNumIntermediateBuffers inst))
  let (status, bufferInterArray) ← allocInterArray status numInterBuffLists
  let status ← allocInterLoop bufferInterArray buffMetaSize numInterBuffLists 0 status
  pure (status, numInterBuffLists, bufferInterArray)

/-- `if (cap.dynamicHuffmanBufferReq)`. -/
def interBuffers (i : ℕ) (cap : CpaDcInstanceCapabilities) (status : CpaStatus) :
    Code (CpaStatus × ℕ × Ptr) :=
  if cap.dynamicHuffmanBufferReq then allocInterBuffers i else pure (status, 0, none)

/-- `sampleThreadCreate` (`cpa_sample_utils.h:511-531`): the new thread is
detached through the variable its identifier was stored in. -/
def sampleThreadCreate (inst : ℕ) : Code CpaStatus := do
  let (ok, _) ← invoke (.pthreadCreatePoller inst)
  if ok = true then
    let _ ← invoke .pthreadDetach
    pure success
  else pure fail

/-- `sampleDcStartPolling` (`cpa_sample_utils.c:298-309`). Both ways to fail are
silent: it returns nothing. -/
def sampleDcStartPolling (inst : ℕ) : Code Unit := do
  let (status, isPolled) ← invoke (.cpaDcInstanceGetInfo2 inst)
  if status = success ∧ isPolled = true then
    let _ ← sampleThreadCreate inst
    pure ()
  else pure ()

/-- Lines 414-428: address translation and start. -/
def startInstance (i : ℕ) (status : CpaStatus) (numInterBuffLists : ℕ)
    (bufferInterArray : Ptr) : Code CpaStatus := do
  let status ← whenOk status (do
    let inst ← dcInstHandle i
    invoke (.api .cpaDcSetAddressTranslation inst))
  whenOk status (do
    let inst ← dcInstHandle i
    invoke (.cpaDcStartInstance inst numInterBuffLists bufferInterArray))

/-- Lines 431-485: polling thread and session; the status and `sessionHdl`. -/
def initSession (i : ℕ) (status : CpaStatus) : Code (CpaStatus × Ptr) := do
  let (status, sessSize) ← whenOkSet status 0 (do
    let inst ← dcInstHandle i
    sampleDcStartPolling inst
    let inst ← dcInstHandle i
    invoke (.apiSize .cpaDcGetSessionSize inst))
  let (status, sessionHdl) ← whenOkSet status none (physContigAlloc sessSize)
  let status ← whenOk status (do
    let inst ← dcInstHandle i
    invoke (.api .cpaDcInitSession inst))
  pure (status, sessionHdl)

/-- Lines 488-511: the session is removed whatever `compPerformOp` returned, and
the status of the removal counts only when the operation was successful. -/
def runSession (i : ℕ) (sessionHdl : Ptr) : Code CpaStatus := do
  invoke (.readSample i .bufPtr)
  let inst ← dcInstHandle i
  let status ← compPerformOp inst sessionHdl
  let inst ← dcInstHandle i
  let sessionStatus ← invoke (.api .cpaDcRemoveSession inst)
  if status = success then pure sessionStatus else pure status

/-- One turn of the clean-up loop (lines 554-557). -/
def freeInterBuffer (bufferInterArray : Ptr) (bufferNum : ℕ) : Code Unit := do
  let list ← invoke (.load bufferInterArray (.entry bufferNum))
  let flat ← invoke (.load list .pBuffers)
  physContigFreeField flat .pData
  let list ← invoke (.load bufferInterArray (.entry bufferNum))
  physContigFreeField list .pBuffers
  let list ← invoke (.load bufferInterArray (.entry bufferNum))
  physContigFreeField list .pPrivateMetaData
  physContigFreeField bufferInterArray (.entry bufferNum)

/-- The clean-up loop: all `numInterBuffLists` entries, however far the
construction got. -/
def freeInterLoop (bufferInterArray : Ptr) : ℕ → ℕ → Code Unit
  | 0, _ => pure ()
  | n + 1, bufferNum => do
      freeInterBuffer bufferInterArray bufferNum
      freeInterLoop bufferInterArray n (bufferNum + 1)

/-- Lines 545-559. -/
def cleanUp (sessionHdl bufferInterArray : Ptr) (numInterBuffLists : ℕ) : Code Unit := do
  physContigFree sessionHdl
  if bufferInterArray = none then pure ()
  else
    freeInterLoop bufferInterArray numInterBuffLists 0
    physContigFree bufferInterArray

/-- `enqueueQATWork` of worker `i`; the result is `status` at its `return NULL`. -/
def enqueueQATWork (i : ℕ) : Code CpaStatus := do
  invoke (.readSample i (.interval 1))
  let inst ← dcInstHandle i
  let (status, cap) ← invoke (.cpaDcQueryCapabilities inst)
  if status ≠ success then pure status
  else
    let (status, numInterBuffLists, bufferInterArray) ← interBuffers i cap status
    let status ← startInstance i status numInterBuffLists bufferInterArray
    let (status, sessionHdl) ← initSession i status
    let status ← whenOk status (runSession i sessionHdl)
    let status ← whenOk status (do
      let inst ← dcInstHandle i
      invoke (.api .cpaDcGetStats inst))
    cleanUp sessionHdl bufferInterArray numInterBuffLists
    pure status

end QatDcSample
