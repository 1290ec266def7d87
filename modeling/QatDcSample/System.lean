import QatDcSample.Sample
import QatDcSample.Lib.Memory
import QatDcSample.Lib.Transition

/-!
# The system

The shared state of a run (memory, requests in flight, semaphores, the globals of
`cpa_sample_utils.c`, the instances) and the interleaving of the main thread, the
workers, the pollers and the device. `Allowed` says which answers a call can get
in a state, `World.after` what an answered call changes, one shared object at a
time. Every step is recorded in `log`, newest first.

`cpaDcCompressData2` that answers `CPA_STATUS_SUCCESS` is accepted; each accepted
request is followed at any later time by one `callback`, which writes the results
structure and posts the tagged completion. For a polled instance the callback
runs only inside `icp_sal_DcPollInstance` on it.
-/

namespace QatDcSample
open EventProgram BlockMemory CpaStatus

inductive Tid where
  | main
  | worker (i : ℕ)
  | poller (i : ℕ)
  deriving DecidableEq

/-- An accepted request: the worker whose `compPerformOp` made it, what was handed
over, and the block of locals with `opData`, `dcResults` and the completions. -/
structure Request where
  worker : ℕ
  inst : ℕ
  session : Ptr
  src : CpaBufferList
  dst : CpaBufferList
  frame : BlockId
  tag : Completion
  deriving DecidableEq

def Request.blocks (q : Request) : List BlockId :=
  q.frame :: [q.session, q.src.addr, q.src.pPrivateMetaData, q.src.pData,
    q.dst.addr, q.dst.pPrivateMetaData, q.dst.pData].filterMap id

structure World where
  mem : Memory Tid Field Ptr
  inflight : List Request
  sem : ℕ → Completion → ℕ
  dcResults : ℕ → Option CpaDcReqStatus
  gPollingDc : Bool
  gPollingThreadDc : Option ℕ
  usageCounter : ℕ → Int
  interMem : ℕ → List BlockId
  sampleFrame : Bool

inductive Entry where
  | call (t : Tid) (c : Call) (r : c.Resp)
  | callback (q : Request) (st : CpaDcReqStatus)

structure State where
  world : World
  main : Option (Code CpaStatus)
  worker : ℕ → Option (Code CpaStatus)
  poller : ℕ → Option Poller
  log : List Entry

/-! ### Effects of an answered call -/

abbrev Mem := Memory Tid Field Ptr

def fieldOf (m : Mem) (p : Ptr) (f : Field) : Option Ptr :=
  match p with
  | none => none
  | some b => m.read b f

def memAfter (t : Tid) (m : Mem) : (c : Call) → c.Resp → Mem
  | .memAlloc _ size, some (_, base) => m.alloc t ⟨base, size⟩
  | .enterFrame, (_, base) => m.alloc t ⟨base, frameSize⟩
  | .memFree _ b, _ => m.free b
  | .leaveFrame b, _ => m.free b
  | .store (some b) f v, _ => m.write b f v
  | _, _ => m
where
  /-- The locals the driver reaches; any positive size serves. -/
  frameSize : ℕ := 256

def inflightAfter (t : Tid) (l : List Request) : (c : Call) → c.Resp → List Request
  | .cpaDcCompressData2 inst session src dst frame tag, (st : CpaStatus) =>
      match t with
      | .worker i => if st = success then ⟨i, inst, session, src, dst, frame, tag⟩ :: l else l
      | _ => l
  | _, _ => l

def setSem (sem : ℕ → Completion → ℕ) (i : ℕ) (k : Completion) (n : ℕ) : ℕ → Completion → ℕ :=
  Function.update sem i (Function.update (sem i) k n)

def semAfter (t : Tid) (sem : ℕ → Completion → ℕ) : (c : Call) → c.Resp → ℕ → Completion → ℕ
  | .completionInit k, _ =>
      match t with
      | .worker i => setSem sem i k 0
      | _ => sem
  | .completionWait k, ok =>
      match t with
      | .worker i => if ok = true then setSem sem i k (sem i k - 1) else sem
      | _ => sem
  | _, _ => sem

def pollingAfter (v : Bool) : Call → Bool
  | .setPollingDc v' => v'
  | _ => v

/-- `pthread_create` stores the identifier of the new poller in the variable that
all workers share. When it fails it may leave anything there. -/
def pollingThreadAfter (t : Tid) (id : Option ℕ) : (c : Call) → c.Resp → Option ℕ
  | .pthreadCreatePoller _, (ok, left) =>
      match t with
      | .worker i => if ok = true then some i else left
      | _ => id
  | _, _ => id

/-- `icp_qa_dev_get` at the end of a successful start, `icp_qa_dev_put` at the end
of a successful stop (`sal_compression.c:1629-1770`). -/
def usageAfter (cfg : Cfg) (u : ℕ → Int) : (c : Call) → c.Resp → ℕ → Int
  | .cpaDcStartInstance inst _ _, (st : CpaStatus) =>
      if st = success then Function.update u (cfg.device inst) (u (cfg.device inst) + 1) else u
  | .cpaDcStopInstance inst, (st : CpaStatus) =>
      if st = success then Function.update u (cfg.device inst) (u (cfg.device inst) - 1) else u
  | _, _ => u

/-- The blocks of the intermediate buffer structure below entry `e`. -/
def entryBlocks (m : Mem) (bufferInterArray : Ptr) (e : ℕ) : List BlockId :=
  let list := (fieldOf m bufferInterArray (.entry e)).join
  let flat := (fieldOf m list .pBuffers).join
  [list, (fieldOf m list .pPrivateMetaData).join, flat, (fieldOf m flat .pData).join].filterMap id

/-- The blocks reachable from `bufferInterArray`. -/
def interBlocks (m : Mem) (numBuffers : ℕ) (bufferInterArray : Ptr) : List BlockId :=
  bufferInterArray.toList ++ (List.range numBuffers).flatMap (entryBlocks m bufferInterArray)

/-- The memory the driver holds on to in a started instance; without buffers, or
with a `NULL` array, there is none. -/
def interMemAfter (m : Mem) (im : ℕ → List BlockId) : (c : Call) → c.Resp → ℕ → List BlockId
  | .cpaDcStartInstance inst num arr, (st : CpaStatus) =>
      if st = success ∧ num ≠ 0 ∧ arr ≠ none then
        Function.update im inst (interBlocks m num arr)
      else im
  | .cpaDcStopInstance inst, _ => Function.update im inst []
  | _, _ => im

def sampleFrameAfter (v : Bool) : Call → Bool
  | .returnSample _ => false
  | _ => v

def World.after (cfg : Cfg) (w : World) (t : Tid) (c : Call) (r : c.Resp) : World where
  mem := memAfter t w.mem c r
  inflight := inflightAfter t w.inflight c r
  sem := semAfter t w.sem c r
  dcResults := w.dcResults
  gPollingDc := pollingAfter w.gPollingDc c
  gPollingThreadDc := pollingThreadAfter t w.gPollingThreadDc c r
  usageCounter := usageAfter cfg w.usageCounter c r
  interMem := interMemAfter w.mem w.interMem c r
  sampleFrame := sampleFrameAfter w.sampleFrame c

/-- The device finishes `q`, and `dcCallback` posts its tag
(`dc_qat_funcs.c:64-73`); `rest` are the other requests. -/
def World.completed (w : World) (q : Request) (st : CpaDcReqStatus) (rest : List Request) :
    World :=
  { w with
    inflight := rest
    sem := setSem w.sem q.worker q.tag (w.sem q.worker q.tag + 1)
    dcResults := Function.update w.dcResults q.worker (some st) }

/-! ### Answers a call can get -/

def finished (p : Option (Code CpaStatus)) : Bool :=
  match p with
  | some (.ret _) => true
  | _ => false

/-- What holds of every answer. Reading memory that was never stored to or is no
longer alive answers anything; so does a read of the frame of `dcStatelessSample`
after its end. -/
def Allowed (cfg : Cfg) (s : State) (t : Tid) : (c : Call) → c.Resp → Prop
  | .apiSize .cpaDcGetNumIntermediateBuffers _, r => r.2 < UInt16.size
  | .cpaDcInstanceGetInfo2 inst, r => r.1 = success → r.2 = cfg.isPolled inst
  | .memAlloc _ size, some (b, base) => s.world.mem.Fresh b ⟨base, size⟩
  | .enterFrame, (b, base) => s.world.mem.Fresh b ⟨base, memAfter.frameSize⟩
  | .load p f, v => ∀ v' ∈ fieldOf s.world.mem p f, v = v'
  | .completionWait k, ok =>
      match t with
      | .worker i => ok = true → 0 < s.world.sem i k
      | _ => False
  | .readResultsStatus, st =>
      match t with
      | .worker i => ∀ st' ∈ s.world.dcResults i, st = st'
      | _ => False
  | .readDcInstHandle i, inst => s.world.sampleFrame = true → inst = i
  | .pthreadCreatePoller _, (ok, _) =>
      match t with
      | .worker i => ok = true → s.poller i = none
      | _ => False
  | .pthreadDetach, id => id = s.world.gPollingThreadDc
  | .readPollingDc, v => v = s.world.gPollingDc
  | .pthreadCreateWorker i, ok => ok = true → s.worker i = none
  | .pthreadJoin i, _ => finished (s.worker i) = true
  | _, _ => True

/-! ### Steps -/

def State.Running (s : State) : Prop := finished s.main = false

def spawnWorker (w : ℕ → Option (Code CpaStatus)) :
    (c : Call) → c.Resp → ℕ → Option (Code CpaStatus)
  | .pthreadCreateWorker i, ok =>
      if ok = true then Function.update w i (some (enqueueQATWork i)) else w
  | _, _ => w

def spawnPoller (i : ℕ) (p : ℕ → Option Poller) : (c : Call) → c.Resp → ℕ → Option Poller
  | .pthreadCreatePoller inst, (ok, _) =>
      if ok = true then Function.update p i (some ⟨inst, .start⟩) else p
  | _, _ => p

def State.mainStep (cfg : Cfg) (s : State) (c : Call) (r : c.Resp) (p : Code CpaStatus) : State :=
  { s with
    world := s.world.after cfg .main c r
    main := some p
    worker := spawnWorker s.worker c r
    log := .call .main c r :: s.log }

def State.workerStep (cfg : Cfg) (s : State) (i : ℕ) (c : Call) (r : c.Resp)
    (p : Code CpaStatus) : State :=
  { s with
    world := s.world.after cfg (.worker i) c r
    worker := Function.update s.worker i (some p)
    poller := spawnPoller i s.poller c r
    log := .call (.worker i) c r :: s.log }

def State.pollerStep (cfg : Cfg) (s : State) (i : ℕ) (c : Call) (r : c.Resp)
    (p : Poller) : State :=
  { s with
    world := s.world.after cfg (.poller i) c r
    poller := Function.update s.poller i (some p)
    log := .call (.poller i) c r :: s.log }

def State.callbackStep (s : State) (q : Request) (st : CpaDcReqStatus) (rest : List Request) :
    State :=
  { s with
    world := s.world.completed q st rest
    log := .callback q st :: s.log }

/-- A callback on instance `inst` can run now. -/
def Responds (cfg : Cfg) (s : State) (inst : ℕ) : Prop :=
  cfg.isPolled inst = false ∨ ∃ i, s.poller i = some ⟨inst, .polling⟩

inductive Step (cfg : Cfg) : State → Entry → State → Prop where
  | main {s : State} {c : Call} {k : c.Resp → Code CpaStatus} {r : c.Resp} :
      s.main = some (.call c k) → Allowed cfg s .main c r →
      Step cfg s (.call .main c r) (s.mainStep cfg c r (k r))
  | worker {s : State} {i : ℕ} {c : Call} {k : c.Resp → Code CpaStatus} {r : c.Resp} :
      s.Running → s.worker i = some (.call c k) → Allowed cfg s (.worker i) c r →
      Step cfg s (.call (.worker i) c r) (s.workerStep cfg i c r (k r))
  | poller {s : State} {i : ℕ} {p : Poller} {c : Call} {k : c.Resp → Poller} {r : c.Resp} :
      s.Running → s.poller i = some p → p.next = some ⟨c, k⟩ →
      Allowed cfg s (.poller i) c r →
      Step cfg s (.call (.poller i) c r) (s.pollerStep cfg i c r (k r))
  | callback {s : State} {q : Request} {l₁ l₂ : List Request} {st : CpaDcReqStatus} :
      s.Running → s.world.inflight = l₁ ++ q :: l₂ → Responds cfg s q.inst →
      Step cfg s (.callback q st) (s.callbackStep q st (l₁ ++ l₂))

def World.initial (cfg : Cfg) : World where
  mem := ⟨0, fun _ => ⟨⟨0, 0⟩, .main, false, fun _ => none⟩⟩
  inflight := []
  sem := fun _ _ => 0
  dcResults := fun _ => none
  gPollingDc := false
  gPollingThreadDc := none
  usageCounter := cfg.usageCounter
  interMem := fun _ => []
  sampleFrame := true

/-- The whole process: `main` has just been entered. -/
def initial (cfg : Cfg) : State :=
  ⟨World.initial cfg, some (mainThread cfg), fun _ => none, fun _ => none, []⟩

/-- A thread with code `p` alone with the device and the pollers it creates. -/
def solo (cfg : Cfg) (p : Code CpaStatus) : State :=
  ⟨World.initial cfg, none, Function.update (fun _ => none) 0 (some p), fun _ => none, []⟩

end QatDcSample
