import QatDcSample.System

/-!
# Executing a run

The steps of the system as a function: a move names who acts, and a policy
answers the calls. Concrete runs are evaluated with it.
-/

namespace QatDcSample
open EventProgram BlockMemory CpaStatus Transition

instance decAllowed (cfg : Cfg) (s : State) (t : Tid) :
    (c : Call) → (r : c.Resp) → Decidable (Allowed cfg s t c r)
  | .api _ _, _ => inferInstanceAs (Decidable True)
  | .apiSize .cpaDcBufferListGetMetaSize _, _ => inferInstanceAs (Decidable True)
  | .apiSize .cpaDcGetNumIntermediateBuffers _, r => inferInstanceAs (Decidable (r.2 < UInt16.size))
  | .apiSize .cpaDcDeflateCompressBound _, _ => inferInstanceAs (Decidable True)
  | .apiSize .cpaDcGetSessionSize _, _ => inferInstanceAs (Decidable True)
  | .cpaDcQueryCapabilities _, _ => inferInstanceAs (Decidable True)
  | .cpaDcInstanceGetInfo2 inst, r =>
      inferInstanceAs (Decidable (r.1 = success → r.2 = cfg.isPolled inst))
  | .cpaDcStartInstance _ _ _, _ => inferInstanceAs (Decidable True)
  | .cpaDcStopInstance _, _ => inferInstanceAs (Decidable True)
  | .cpaDcCompressData2 _ _ _ _ _ _, _ => inferInstanceAs (Decidable True)
  | .icpSalDcPollInstance _, _ => inferInstanceAs (Decidable True)
  | .pollReturn _, _ => inferInstanceAs (Decidable True)
  | .memAlloc _ _, none => inferInstanceAs (Decidable True)
  | .memAlloc _ size, some (b, base) =>
      inferInstanceAs (Decidable (s.world.mem.Fresh b ⟨base, size⟩))
  | .memFree _ _, _ => inferInstanceAs (Decidable True)
  | .load p f, v =>
      inferInstanceAs (Decidable (∀ v' ∈ fieldOf s.world.mem p f, v = v'))
  | .store _ _ _, _ => inferInstanceAs (Decidable True)
  | .enterFrame, (b, base) =>
      inferInstanceAs (Decidable (s.world.mem.Fresh b ⟨base, memAfter.frameSize⟩))
  | .leaveFrame _, _ => inferInstanceAs (Decidable True)
  | .completionInit _, _ => inferInstanceAs (Decidable True)
  | .completionWait k, ok =>
      match t with
      | .worker i => inferInstanceAs (Decidable (ok = true → 0 < s.world.sem i k))
      | .main => inferInstanceAs (Decidable False)
      | .poller _ => inferInstanceAs (Decidable False)
  | .completionDestroy _, _ => inferInstanceAs (Decidable True)
  | .readResultsStatus, st =>
      match t with
      | .worker i => inferInstanceAs (Decidable (∀ st' ∈ s.world.dcResults i, st = st'))
      | .main => inferInstanceAs (Decidable False)
      | .poller _ => inferInstanceAs (Decidable False)
  | .readDcInstHandle i, inst =>
      inferInstanceAs (Decidable (s.world.sampleFrame = true → inst = i))
  | .readSample _ _, _ => inferInstanceAs (Decidable True)
  | .memcpyInput, _ => inferInstanceAs (Decidable True)
  | .pthreadCreatePoller _, (ok, _) =>
      match t with
      | .worker i => inferInstanceAs (Decidable (ok = true → s.poller i = none))
      | .main => inferInstanceAs (Decidable False)
      | .poller _ => inferInstanceAs (Decidable False)
  | .pthreadDetach, id => inferInstanceAs (Decidable (id = s.world.gPollingThreadDc))
  | .setPollingDc _, _ => inferInstanceAs (Decidable True)
  | .readPollingDc, v => inferInstanceAs (Decidable (v = s.world.gPollingDc))
  | .osSleep _, _ => inferInstanceAs (Decidable True)
  | .setup _, _ => inferInstanceAs (Decidable True)
  | .teardown _, _ => inferInstanceAs (Decidable True)
  | .pthreadCreateWorker i, ok =>
      match h : s.worker i with
      | none => .isTrue fun _ => h
      | some p =>
          if ho : ok = true then .isFalse fun ha => by
            have hn : s.worker i = none := ha ho
            simp [h] at hn
          else .isTrue fun ho' => absurd ho' ho
  | .pthreadJoin i, _ => inferInstanceAs (Decidable (finished (s.worker i) = true))
  | .fopen _, _ => inferInstanceAs (Decidable True)
  | .fread _, _ => inferInstanceAs (Decidable True)
  | .fclose _, _ => inferInstanceAs (Decidable True)
  | .storeTraceTime _ _ _, _ => inferInstanceAs (Decidable True)
  | .print _, _ => inferInstanceAs (Decidable True)
  | .returnSample _, _ => inferInstanceAs (Decidable True)

instance (s : State) : Decidable s.Running := inferInstanceAs (Decidable (_ = _))

/-- Who acts. A callback names the position of its request and, for a polled
instance, the poller inside whose call it runs. -/
inductive Move where
  | main
  | worker (i : ℕ)
  | poller (i : ℕ)
  | callback (n : ℕ) (st : CpaDcReqStatus) (via : Option ℕ)

abbrev Policy := State → (c : Call) → c.Resp

def respondsVia (cfg : Cfg) (s : State) (inst : ℕ) (via : Option ℕ) : Bool :=
  match via with
  | none => !cfg.isPolled inst
  | some i => s.poller i = some ⟨inst, .polling⟩

def exec (cfg : Cfg) (answer : Policy) (s : State) : Move → Option (Entry × State)
  | .main =>
      match s.main with
      | some (.call c k) =>
          if Allowed cfg s .main c (answer s c) then
            some (.call .main c (answer s c), s.mainStep cfg c (answer s c) (k (answer s c)))
          else none
      | _ => none
  | .worker i =>
      match s.worker i with
      | some (.call c k) =>
          if s.Running ∧ Allowed cfg s (.worker i) c (answer s c) then
            some (.call (.worker i) c (answer s c),
              s.workerStep cfg i c (answer s c) (k (answer s c)))
          else none
      | _ => none
  | .poller i =>
      match s.poller i with
      | none => none
      | some p =>
          match p.next with
          | none => none
          | some ⟨c, k⟩ =>
              if s.Running ∧ Allowed cfg s (.poller i) c (answer s c) then
                some (.call (.poller i) c (answer s c),
                  s.pollerStep cfg i c (answer s c) (k (answer s c)))
              else none
  | .callback n st via =>
      match s.world.inflight.drop n with
      | [] => none
      | q :: rest =>
          if s.Running ∧ respondsVia cfg s q.inst via = true then
            some (.callback q st, s.callbackStep q st (s.world.inflight.take n ++ rest))
          else none

theorem responds_of_via {cfg : Cfg} {s : State} {inst : ℕ} {via : Option ℕ}
    (h : respondsVia cfg s inst via = true) : Responds cfg s inst := by
  cases via with
  | none => exact .inl (by simpa [respondsVia] using h)
  | some i => exact .inr ⟨i, by simpa [respondsVia] using h⟩

theorem exec_step {cfg : Cfg} {answer : Policy} (s : State) (m : Move) (e : Entry) (s' : State)
    (h : exec cfg answer s m = some (e, s')) : Step cfg s e s' := by
  cases m with
  | main =>
    simp only [exec] at h
    split at h
    · next c k hm =>
      split at h
      · next ha => cases h; exact .main hm ha
      · contradiction
    · contradiction
  | worker i =>
    simp only [exec] at h
    split at h
    · next c k hw =>
      split at h
      · next ha => cases h; exact .worker ha.1 hw ha.2
      · contradiction
    · contradiction
  | poller i =>
    simp only [exec] at h
    split at h
    · contradiction
    · next p hp =>
      split at h
      · contradiction
      · next c k hn =>
        split at h
        · next ha => cases h; exact .poller ha.1 hp hn ha.2
        · contradiction
  | callback n st via =>
    simp only [exec] at h
    split at h
    · contradiction
    · next q rest hd =>
      split at h
      · next ha =>
        cases h
        have hsplit : s.world.inflight = s.world.inflight.take n ++ q :: rest := by
          rw [← hd, List.take_append_drop]
        exact .callback ha.1 hsplit (responds_of_via ha.2)
      · contradiction

/-- Every call succeeds, and memory and shared variables answer what they hold. -/
def allGood (cfg : Cfg) : Policy
  | _, .api _ _ => success
  | _, .apiSize _ _ => (success, 64)
  | _, .cpaDcQueryCapabilities _ => (success, ⟨false, true⟩)
  | _, .cpaDcInstanceGetInfo2 inst => (success, cfg.isPolled inst)
  | _, .cpaDcStartInstance _ _ _ => success
  | _, .cpaDcStopInstance _ => success
  | _, .cpaDcCompressData2 _ _ _ _ _ _ => success
  | _, .icpSalDcPollInstance _ => ()
  | _, .pollReturn _ => ()
  | s, .memAlloc _ _ => some (s.world.mem.next, s.world.mem.next * UInt32.size)
  | _, .memFree _ _ => ()
  | s, .load p f => (fieldOf s.world.mem p f).join
  | _, .store _ _ _ => ()
  | s, .enterFrame => (s.world.mem.next, s.world.mem.next * UInt32.size)
  | _, .leaveFrame _ => ()
  | _, .completionInit _ => ()
  | _, .completionWait _ => true
  | _, .completionDestroy _ => ()
  | _, .readResultsStatus => .ok
  | _, .readDcInstHandle i => i
  | _, .readSample _ _ => ()
  | _, .memcpyInput => ()
  | _, .pthreadCreatePoller _ => (true, none)
  | s, .pthreadDetach => s.world.gPollingThreadDc
  | _, .setPollingDc _ => ()
  | s, .readPollingDc => s.world.gPollingDc
  | _, .osSleep _ => ()
  | _, .setup _ => success
  | _, .teardown _ => ()
  | _, .pthreadCreateWorker _ => true
  | _, .pthreadJoin _ => ()
  | _, .fopen _ => true
  | _, .fread _ => true
  | _, .fclose _ => ()
  | _, .storeTraceTime _ _ _ => ()
  | _, .print _ => ()
  | _, .returnSample _ => ()

abbrev replay (cfg : Cfg) (answer : Policy) (ok : State → Entry → Bool) (s : State)
    (ms : List Move) : Option State :=
  play (exec cfg answer) ok s ms

theorem replay_reaches {cfg : Cfg} {answer : Policy} {okb : State → Entry → Bool}
    {ok : State → Entry → Prop} (hok : ∀ s e, okb s e = true → ok s e) {s s' : State}
    {ms : List Move} (h : replay cfg answer okb s ms = some s') :
    ReachVia (Step cfg) ok s s' :=
  play_reaches exec_step hok ms s s' h

def returnedWith (p : Option (Code CpaStatus)) : Option CpaStatus :=
  match p with
  | some (.ret st) => some st
  | _ => none

theorem eq_of_returnedWith {p : Option (Code CpaStatus)} {st : CpaStatus}
    (h : returnedWith p = some st) : p = some (.ret st) := by
  unfold returnedWith at h
  split at h
  · cases h
    rfl
  · cases h

def returning (s : State) : Bool :=
  match s.main with
  | some (.call (.returnSample _) _) => true
  | _ => false

theorem exists_of_returning {s : State} (h : returning s = true) :
    ∃ st k, s.main = some (.call (.returnSample st) k) := by
  unfold returning at h
  split at h
  · next st k hm => exact ⟨st, k, hm⟩
  · cases h

theorem exists_reached {cfg : Cfg} {answer : Policy} {okb : State → Entry → Bool} {s₀ : State}
    {ms : List Move} {T : State → Bool} (h : (replay cfg answer okb s₀ ms).any T = true) :
    ∃ s, ReachVia (Step cfg) (fun s e => okb s e = true) s₀ s ∧ T s = true := by
  rw [Option.any_eq_true] at h
  obtain ⟨s, hs, hT⟩ := h
  exact ⟨s, replay_reaches (fun _ _ h => h) hs, hT⟩

/-- `n` instances on one device with `isPolled` as given and a trace file of one record each. -/
def sampleCfg (n : ℕ) (h : 0 < n ∧ n ≤ maxInstances) (isPolled : Bool) : Cfg where
  numInstances := n
  pos := h.1
  le_max := h.2
  isPolled _ := isPolled
  device _ := 0
  usageCounter _ := 0
  trace _ := [(1, 1)]

theorem one_in_range : 0 < 1 ∧ 1 ≤ maxInstances := by decide

def oneUnpolled : Cfg := sampleCfg 1 one_in_range false

/-- The main thread of `oneUnpolled` creates its worker and comes to the join. -/
def createMoves : List Move := List.replicate 12 .main

/-- Worker `i` submits, the three callbacks come, and it runs to its end. -/
def workerMoves (i : ℕ) : List Move :=
  List.replicate 32 (.worker i) ++
    [.callback 2 .ok none, .callback 1 .ok none, .callback 0 .ok none] ++
    List.replicate 19 (.worker i)

def finishMoves : List Move := List.replicate 6 .main

def exitMoves : List Move := List.replicate 3 .main

def twoUnpolled : Cfg := sampleCfg 2 (by decide) false

/-- Every call succeeds, and the instances require one intermediate buffer list. -/
def requiresBuffers (cfg : Cfg) (s : State) : (c : Call) → c.Resp
  | .cpaDcQueryCapabilities _ => (success, ⟨true, true⟩)
  | .apiSize .cpaDcGetNumIntermediateBuffers _ => (success, 1)
  | c => allGood cfg s c

/-- Every call succeeds except that the third submission is answered
`CPA_STATUS_RETRY`. -/
def thirdRejected (cfg : Cfg) (s : State) : (c : Call) → c.Resp
  | .cpaDcCompressData2 _ _ _ _ _ .complete3 => retry
  | c => allGood cfg s c

end QatDcSample
