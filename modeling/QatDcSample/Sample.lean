import QatDcSample.Worker

/-!
# The main thread and the pollers

`dcStatelessSample` (`dc_qat_funcs.c:571-724`) from the check of
`cpaDcGetInstances` on, `main` (`dc_qat_main.c:18-60`), and the loop of
`sal_dc_polling` (`cpa_sample_utils.c:281-292`). Instance discovery itself is in
`Discovery`; here the instances are `0..numInstances-1`, the positions in
`dcInstHandles`.
-/

namespace QatDcSample
open EventProgram CpaStatus

def maxInstances : ℕ := 16

/-- What a run of the sample is given: the instances discovered, and for each of
them whether it is polled, the device it belongs to and its trace file (the
`work interval` records that parse). -/
structure Cfg where
  numInstances : ℕ
  pos : 0 < numInstances
  le_max : numInstances ≤ maxInstances
  isPolled : ℕ → Bool
  device : ℕ → ℕ
  usageCounter : ℕ → Int
  trace : ℕ → List (Int × Int)

/-- The indices `0..numInstances-1` the loops of `dcStatelessSample` run over. -/
def Cfg.instances (cfg : Cfg) : List ℕ := List.range cfg.numInstances

/-! ### dcStatelessSample

A section that contains a `return` answers `.error status` where it returns, and
otherwise what the following code uses. -/

def infoLoop : List ℕ → CpaStatus → Code (Except CpaStatus CpaStatus)
  | [], status => pure (.ok status)
  | i :: is, _ => do
      let (status, _) ← invoke (.cpaDcInstanceGetInfo2 i)
      if status ≠ success then pure (.error status) else infoLoop is status

/-- Lines 629-647: the input buffer. -/
def readDataFile : Code (Except CpaStatus BlockId) := do
  match ← invoke (.memAlloc .os sampleMaxBuff) with
  | none => pure (.error statusOne)
  | some (buffer, _) =>
      if ← invoke (.fopen .silesia) then
        if ← invoke (.fread .silesia) then
          invoke (.fclose (some .silesia))
          pure (.ok buffer)
        else
          invoke (.memFree .os buffer)
          invoke (.fclose (some .silesia))
          pure (.error statusOne)
      else
        invoke (.memFree .os buffer)
        pure (.error statusOne)

/-- `while (fscanf(fp_trace, "%d %d", &work_size, &interval) == 2)`: the stores
for the records left in the file. -/
def storeTrace (row : ℕ) : List (Int × Int) → ℕ → Code Unit
  | [], _ => pure ()
  | (_, interval) :: records, line => do
      invoke (.storeTraceTime row line interval)
      storeTrace row records (line + 1)

/-- Lines 650-669, for `i = index + 1`. -/
def traceLoop (cfg : Cfg) (buffer : BlockId) : List ℕ → Code (Except CpaStatus Unit)
  | [] => pure (.ok ())
  | i :: is => do
      if ← invoke (.fopen (.traceVm (i + 1))) then
        storeTrace i (cfg.trace i) 0
        invoke (.fclose (some (.traceVm (i + 1))))
        traceLoop cfg buffer is
      else
        invoke (.memFree .os buffer)
        invoke (.fclose none)
        pure (.error statusOne)

/-- Lines 671-683. -/
def createLoop : List ℕ → Code (Except CpaStatus Unit)
  | [] => pure (.ok ())
  | i :: is => do
      if ← invoke (.pthreadCreateWorker i) then createLoop is
      else pure (.error fail)

def joinLoop : List ℕ → Code Unit
  | [] => pure ()
  | i :: is => do
      invoke (.pthreadJoin i)
      joinLoop is

/-- `sampleDcStopPolling` (`cpa_sample_utils.c:314-318`). -/
def sampleDcStopPolling : Code Unit := do
  invoke (.setPollingDc false)
  invoke (.osSleep 10)

/-- Lines 702-710. -/
def stopLoop : List ℕ → CpaStatus → Code (Except CpaStatus CpaStatus)
  | [], status => pure (.ok status)
  | i :: is, _ => do
      let status ← invoke (.cpaDcStopInstance i)
      if status ≠ success then pure (.error status) else stopLoop is status

/-- Lines 711-723. -/
def finishSample (buffer : BlockId) (status : CpaStatus) : Code CpaStatus := do
  invoke (.memFree .os buffer)
  if status = success then invoke (.print "Sample code ran successfully\n")
  else invoke (.print "Sample code failed with status of %d\n")
  pure status

/-- From the creation of the workers to the end (lines 671-723). -/
def runWorkers (cfg : Cfg) (buffer : BlockId) (status : CpaStatus) : Code CpaStatus := do
  match ← createLoop cfg.instances with
  | .error e => pure e
  | .ok () =>
      joinLoop cfg.instances
      sampleDcStopPolling
      match ← stopLoop cfg.instances status with
      | .error e => pure e
      | .ok status => finishSample buffer status

def sampleBody (cfg : Cfg) : Code CpaStatus := do
  let status ← invoke (.setup .cpaDcGetInstances)
  if status ≠ success then pure status
  else
    match ← infoLoop cfg.instances status with
    | .error e => pure e
    | .ok status =>
        match ← readDataFile with
        | .error e => pure e
        | .ok buffer =>
            match ← traceLoop cfg buffer cfg.instances with
            | .error e => pure e
            | .ok () => runWorkers cfg buffer status

/-- `dcStatelessSample`; its frame ends with `returnSample`. -/
def dcStatelessSample (cfg : Cfg) : Code CpaStatus := do
  let status ← sampleBody cfg
  invoke (.returnSample status)
  pure status

/-- `main`; the result is the exit code, and the process ends there. -/
def mainThread (cfg : Cfg) : Code CpaStatus := do
  let stat ← invoke (.setup .qaeMemInit)
  if stat ≠ success then pure stat
  else
    let stat ← invoke (.setup .icpSalUserStartMultiProcess)
    if stat ≠ success then
      invoke (.teardown .qaeMemDestroy)
      pure stat
    else
      let stat ← dcStatelessSample cfg
      invoke (.teardown .icpSalUserStop)
      invoke (.teardown .qaeMemDestroy)
      pure stat

/-! ### The pollers -/

inductive PollerPc where
  | start      -- before `gPollingDc = 1`
  | test       -- at `while (gPollingDc)`
  | poll       -- before the call of `icp_sal_DcPollInstance`
  | polling    -- inside that call
  | sleep      -- before `OS_SLEEP(10)`
  | exited     -- `sampleThreadExit`
  deriving DecidableEq

/-- A thread running `sal_dc_polling(inst)`. -/
structure Poller where
  inst : ℕ
  pc : PollerPc
  deriving DecidableEq

/-- The next call of a poller and where it is after each answer. -/
def Poller.next (p : Poller) : Option (Σ c : Call, (c.Resp → Poller)) :=
  match p.pc with
  | .start => some ⟨.setPollingDc true, fun _ => ⟨p.inst, .test⟩⟩
  | .test => some ⟨.readPollingDc, fun v => ⟨p.inst, if v then .poll else .exited⟩⟩
  | .poll => some ⟨.icpSalDcPollInstance p.inst, fun _ => ⟨p.inst, .polling⟩⟩
  | .polling => some ⟨.pollReturn p.inst, fun _ => ⟨p.inst, .sleep⟩⟩
  | .sleep => some ⟨.osSleep 10, fun _ => ⟨p.inst, .test⟩⟩
  | .exited => none

end QatDcSample
