import QatDcSample.WorkerLifetime
import Mathlib.Data.List.Perm.Subperm

/-!
# Start and stop balance

Each worker starts its own instance at most once; the main thread stops all
instances, started or not, when every worker was created, and leaves the loop at
the first stop that fails; it stops none when a worker could not be created. The
usage counter of a device is what it was, plus the starts, minus the stops.
-/

namespace QatDcSample
open EventProgram Prog CpaStatus Transition

/-! ### A worker starts its own instance once -/

@[reducible] def startProtocol (i : ℕ) : Protocol Call Call.Resp where
  σ := Bool
  next
    | _, .cpaDcStartInstance _ _ _, _ => true
    | g, _, _ => g
  rely
    | _, .readDcInstHandle j, r => r = j
    | _, _, _ => True
  guar
    | g, .cpaDcStartInstance inst _ _ => g = false ∧ inst = i
    | _, _ => True

def Call.NoStart (c : Call) : Prop := ∀ inst n arr, c ≠ .cpaDcStartInstance inst n arr

theorem Call.Prepare.noStart {c : Call} (h : c.Prepare) : c.NoStart := by
  rintro inst n arr rfl
  exact h

theorem Call.InOp.noStart {c : Call} (h : c.InOp) : c.NoStart := by
  rintro inst n arr rfl
  exact h

theorem Call.After.noStart {c : Call} (h : c.After) : c.NoStart := by
  rintro inst n arr rfl
  exact h

theorem neutral_of_noStart {i : ℕ} {c : Call} (h : c.NoStart) : Neutral (startProtocol i) c := by
  intro g
  cases c <;> first | exact ⟨trivial, fun _ => rfl⟩ | exact absurd rfl (h _ _ _)

theorem noStart_meets {i : ℕ} {α : Type} {C : Call → Prop} {p : Code α}
    (hC : ∀ c, C c → c.NoStart) (hp : Only C p) (g : Bool) :
    Meets (startProtocol i) p (fun _ g' => g' = g) g :=
  meets_neutral (P := startProtocol i) (only_mono (fun c hc => neutral_of_noStart (hC c hc)) hp) g

theorem noStart_initSession (i : ℕ) (status : CpaStatus) :
    Only Call.NoStart (initSession i status) := by
  have hprep : ∀ {α : Type} {p : Code α}, Only Call.Prepare p → Only Call.NoStart p :=
    fun hp => only_mono (fun _ hc => hc.noStart) hp
  refine only_bind (only_whenOkSet (hprep (prepare_startPolling i))) fun r => ?_
  refine only_bind (only_whenOkSet (hprep (only_memAlloc rfl))) fun r' => ?_
  refine only_bind (only_whenOk (hprep ?_)) fun _ => trivial
  exact only_bind (only_mono (fun _ hc => hc.prepare) (build_dcInstHandle i)) fun inst =>
    (only_perform _ _).mpr (by simp [Call.Prepare])

theorem noStart_runSession (i : ℕ) (session : Ptr) : Only Call.NoStart (runSession i session) := by
  have hcall : ∀ c : Call, c.NoStart → Only Call.NoStart (invoke c) :=
    fun c hc => (only_perform _ c).mpr hc
  refine only_bind (hcall _ (by simp [Call.NoStart])) fun _ => ?_
  refine only_bind (hcall _ (by simp [Call.NoStart])) fun inst => ?_
  refine only_bind (only_mono (fun _ hc => hc.noStart) (inOp_compPerformOp inst session)) fun st => ?_
  refine only_bind (hcall _ (by simp [Call.NoStart])) fun inst => ?_
  refine only_bind (hcall _ (by simp [Call.NoStart])) fun st' => ?_
  split <;> trivial

theorem meets_enqueueQATWork_start (i : ℕ) :
    Meets (startProtocol i) (enqueueQATWork i) (fun _ _ => True) false := by
  refine meets_call trivial fun _ _ => ?_
  refine meets_call trivial fun inst _ => ?_
  refine meets_call trivial fun r _ => ?_
  obtain ⟨st, cap⟩ := r
  show Meets (startProtocol i) (if st ≠ success then _ else _) _ false
  split
  · trivial
  refine meets_seq (noStart_meets (fun _ hc => hc.prepare.noStart)
      (build_interBuffers i cap st) false) ?_
  rintro ⟨st, num, arr⟩ g rfl
  refine meets_seq (M := fun _ _ => True) ?_ fun st g _ => ?_
  · refine meets_seq (noStart_meets (fun _ hc => hc.prepare.noStart)
      (build_setAddressTranslation i st) false) ?_
    rintro st g rfl
    unfold whenOk
    split
    · exact meets_call trivial fun inst hinst => ⟨⟨rfl, hinst⟩, fun _ _ => trivial⟩
    · trivial
  · -- nothing after the start starts an instance
    refine meets_mono (noStart_meets (fun _ hc => hc) ?_ g) fun _ _ _ => trivial
    refine only_bind (noStart_initSession i st) fun r => ?_
    refine only_bind (only_whenOk (noStart_runSession i r.2)) fun st => ?_
    refine only_bind (only_mono (fun _ hc => hc.noStart) (after_getStats i st)) fun st => ?_
    exact only_bind (only_mono (fun _ hc => hc.noStart) (after_cleanUp r.2 arr num))
      fun _ => trivial

/-! ### The frame of dcStatelessSample -/

theorem frame_alive_before {cfg : Cfg} {s : State} (hr : Reach (Step cfg) (initial cfg) s)
    (h : s.world.sampleFrame = true) :
    ReachVia (Step cfg) (fun s _ => s.world.sampleFrame = true) (initial cfg) s := by
  induction hr with
  | refl => exact .refl
  | @tail s e s' hreach hst _ ih =>
    have hbefore : s.world.sampleFrame = true := by
      by_contra hf
      have hframe : ∀ c, sampleFrameAfter s.world.sampleFrame c = false := by
        intro c
        rw [show s.world.sampleFrame = false by simpa using hf]
        cases c <;> rfl
      cases hst with
      | @main c k r hm ha => exact absurd (h.symm.trans (hframe c)) (by decide)
      | @worker i c k r hrun hw ha => exact absurd (h.symm.trans (hframe c)) (by decide)
      | @poller j p c k r hrun hp hn ha => exact absurd (h.symm.trans (hframe c)) (by decide)
      | callback hrun hq hresp => exact hf h
    exact .tail (ih hbefore) hst hbefore

theorem workerMeets_start {cfg : Cfg} {s : State}
    (hr : ReachVia (Step cfg) (fun s _ => s.world.sampleFrame = true) (initial cfg) s) (i : ℕ) :
    WorkerMeets i (startProtocol i) false (fun _ _ => True) s := by
  refine worker_meets (workerMeets_initial cfg (meets_enqueueQATWork_start i)) ?_ hr
  rintro s e s' - hst hframe c r rfl
  cases hst with
  | worker hrun hw ha =>
    cases c <;> first | trivial | exact ha hframe

/-! ### Starts and stops of a log -/

/-- Instances on which `cpaDcStartInstance` succeeded, newest first. -/
def startedOn : List Entry → List ℕ
  | [] => []
  | .call _ (.cpaDcStartInstance inst _ _) (st : CpaStatus) :: l =>
      if st = success then inst :: startedOn l else startedOn l
  | _ :: l => startedOn l

/-- The calls of `cpaDcStopInstance` with their statuses, newest first. -/
def stopCalls : List Entry → List (ℕ × CpaStatus)
  | [] => []
  | .call _ (.cpaDcStopInstance inst) (st : CpaStatus) :: l => (inst, st) :: stopCalls l
  | _ :: l => stopCalls l

def stoppedOn (l : List Entry) : List ℕ := (stopCalls l).map Prod.fst

def stopsDone (l : List Entry) : List ℕ :=
  ((stopCalls l).filter fun p => p.2 = success).map Prod.fst

/-- As often stopped as started, at most once, and at no time more often. -/
def Balanced (l : List Entry) (inst : ℕ) : Prop :=
  (stoppedOn l).count inst = (startedOn l).count inst ∧ (stoppedOn l).count inst ≤ 1 ∧
    ∀ l', l' <:+ l → (stoppedOn l').count inst ≤ (startedOn l').count inst

def usageOf (cfg : Cfg) (l : List Entry) (d : ℕ) : Int :=
  cfg.usageCounter d + (startedOn l).countP (cfg.device · = d) -
    (stopsDone l).countP (cfg.device · = d)

theorem usageOf_call (cfg : Cfg) (l : List Entry) (t : Tid) (c : Call) (r : c.Resp) :
    usageAfter cfg (usageOf cfg l) c r = usageOf cfg (.call t c r :: l) := by
  cases c <;> try rfl
  case cpaDcStartInstance inst n arr =>
    funext d
    simp only [usageAfter, usageOf, startedOn]
    by_cases hr : r = success
    · rw [if_pos hr, if_pos hr, List.countP_cons]
      by_cases hd : d = cfg.device inst
      · subst hd
        simp [stopsDone, stopCalls]
        omega
      · have hd' : ¬ cfg.device inst = d := fun h => hd h.symm
        simp [hd, hd', stopsDone, stopCalls, usageOf]
    · rw [if_neg hr, if_neg hr]
      rfl
  case cpaDcStopInstance inst =>
    funext d
    simp only [usageAfter, usageOf, stopsDone, stopCalls, List.filter_cons]
    by_cases hr : r = success
    · by_cases hd : d = cfg.device inst
      · subst hd
        simp [hr, startedOn]
        omega
      · have hd' : ¬ cfg.device inst = d := fun h => hd h.symm
        simp [hr, hd, hd', startedOn, usageOf, stopsDone]
    · simp [hr, startedOn, usageOf, stopsDone]

theorem usageCounter_reached {cfg : Cfg} {ok : State → Entry → Prop} {s : State}
    (hr : ReachVia (Step cfg) ok (initial cfg) s) :
    s.world.usageCounter = usageOf cfg s.log := by
  refine ReachVia.invariant (I := fun s => s.world.usageCounter = usageOf cfg s.log) ?_ ?_ hr
  · funext d
    simp [usageOf, startedOn, stopsDone, stopCalls, initial, World.initial]
  · intro s e s' _ h hst _
    cases hst with
    | @main c k r hm ha =>
      show usageAfter cfg s.world.usageCounter c r = usageOf cfg (.call .main c r :: s.log)
      rw [h, usageOf_call]
    | @worker i c k r hrun hw ha =>
      show usageAfter cfg s.world.usageCounter c r = usageOf cfg (.call (.worker i) c r :: s.log)
      rw [h, usageOf_call]
    | @poller j p c k r hrun hp hn ha =>
      show usageAfter cfg s.world.usageCounter c r = usageOf cfg (.call (.poller j) c r :: s.log)
      rw [h, usageOf_call]
    | callback hrun hq hresp => exact h

theorem startedOn_noStart {t : Tid} {c : Call} (h : c.NoStart) (r : c.Resp) (l : List Entry) :
    startedOn (.call t c r :: l) = startedOn l := by
  cases c <;> first | rfl | exact absurd rfl (h _ _ _)

theorem stopCalls_other {t : Tid} {c : Call} (h : ∀ i, c ≠ .cpaDcStopInstance i) (r : c.Resp)
    (l : List Entry) : stopCalls (.call t c r :: l) = stopCalls l := by
  cases c <;> first | rfl | exact absurd rfl (h _)

theorem next_stops_other {g : MainGhost} {c : Call} (h : ∀ i, c ≠ .cpaDcStopInstance i)
    (r : c.Resp) : (g.next c r).stops = g.stops := by
  cases c <;> first | rfl | exact absurd rfl (h _) | skip
  case pthreadCreateWorker i => cases r <;> rfl

theorem suffix_of_cons {α : Type} {f : List Entry → List α}
    (h : ∀ e l, f l <:+ f (e :: l)) {l' l : List Entry} (hl : l' <:+ l) : f l' <:+ f l := by
  induction l with
  | nil =>
    obtain rfl := List.suffix_nil.mp hl
    exact List.suffix_refl _
  | cons e l ih =>
    rcases List.suffix_cons_iff.mp hl with rfl | hl
    · exact List.suffix_refl _
    · exact (ih hl).trans (h e l)

theorem stopCalls_suffix {l' l : List Entry} (h : l' <:+ l) : stopCalls l' <:+ stopCalls l := by
  refine suffix_of_cons (fun e l => ?_) h
  cases e with
  | callback q st => exact List.suffix_refl _
  | call t c r =>
    by_cases hc : ∃ i, c = .cpaDcStopInstance i
    · obtain ⟨i, rfl⟩ := hc
      exact List.suffix_cons _ _
    · have hsame : stopCalls (.call t c r :: l) = stopCalls l :=
        stopCalls_other (fun i he => hc ⟨i, he⟩) r l
      exact ⟨[], hsame.symm⟩

def startCalled (i : ℕ) (l : List Entry) : Bool :=
  ghost (startProtocol i) false (.worker i) l

/-- Starts and stops along a run up to the end of the frame. -/
structure StartStop (cfg : Cfg) (s : State) : Prop where
  stops : stopCalls s.log = (mainGhost s.log).stops
  phase : stopCalls s.log ≠ [] → (mainGhost s.log).phase = .stopped ∨
    (mainGhost s.log).phase = .returned
  once : (startedOn s.log).Nodup
  onceStopped : (stoppedOn s.log).Nodup
  called : ∀ i ∈ startedOn s.log, startCalled i s.log = true ∧ s.worker i ≠ none
  order : ∀ l', l' <:+ s.log → stopCalls l' ≠ [] → startedOn l' = startedOn s.log
  instances : ∀ i ∈ stoppedOn s.log, i ∈ cfg.instances
  created : ∀ i ∈ (mainGhost s.log).created, i ∈ cfg.instances

theorem startStop_initial (cfg : Cfg) : StartStop cfg (initial cfg) where
  stops := rfl
  phase h := absurd rfl h
  once := List.nodup_nil
  onceStopped := List.nodup_nil
  called _ h := absurd h List.not_mem_nil
  order l' h _ := by rw [List.suffix_nil.mp h]; rfl
  instances _ h := absurd h List.not_mem_nil
  created _ h := absurd h List.not_mem_nil

theorem StartStop.order_cons {cfg : Cfg} {s : State} (h : StartStop cfg s) {e : Entry}
    (he : startedOn (e :: s.log) = startedOn s.log) :
    ∀ l', l' <:+ e :: s.log → stopCalls l' ≠ [] → startedOn l' = startedOn (e :: s.log) := by
  intro l' hl' hne
  rcases List.suffix_cons_iff.mp hl' with rfl | hl'
  · rfl
  · rw [he]
    exact h.order l' hl' hne

theorem noStart_of_ne {c : Call} (h : ¬ ∃ inst n arr, c = .cpaDcStartInstance inst n arr) :
    c.NoStart := fun inst n arr hc => h ⟨inst, n, arr, hc⟩

theorem stoppedOn_other {t : Tid} {c : Call} (h : ∀ i, c ≠ .cpaDcStopInstance i) (r : c.Resp)
    (l : List Entry) : stoppedOn (.call t c r :: l) = stoppedOn l :=
  congrArg (List.map Prod.fst) (stopCalls_other h r l)

/-! ### A step of the main thread -/

/-- Once the pollers are stopped, `dcStatelessSample` can only go on to return. -/
theorem MainGhost.Guar.stopped_next {g : MainGhost} {cfg : Cfg} {c : Call} (hg : g.Guar cfg c)
    (hp : g.phase = .stopped ∨ g.phase = .returned) (r : c.Resp) :
    (g.next c r).phase = .stopped ∨ (g.next c r).phase = .returned := by
  cases c <;> try exact hp
  case pthreadCreateWorker i =>
    have hphase : g.phase = .starting := hg.1
    rcases hp with hp | hp <;> exact absurd (hp.symm.trans hphase) (by decide)
  case setPollingDc v =>
    have hphase : g.phase = .starting := hg.2.1
    rcases hp with hp | hp <;> exact absurd (hp.symm.trans hphase) (by decide)
  case osSleep ms => exact .inl rfl
  case returnSample st => exact .inr rfl

theorem MainGhost.Guar.created_next {g : MainGhost} {cfg : Cfg} {c : Call} (hg : g.Guar cfg c)
    (h : ∀ i ∈ g.created, i ∈ cfg.instances) (r : c.Resp) :
    ∀ i ∈ (g.next c r).created, i ∈ cfg.instances := by
  cases c <;> try exact h
  case pthreadCreateWorker i =>
    cases r with
    | false => exact h
    | true =>
      intro j hj
      rcases List.mem_cons.mp hj with rfl | hj
      · exact hg.2.2
      · exact h j hj

theorem spawnWorker_ne_none {w : ℕ → Option (Code CpaStatus)} {c : Call} {r : c.Resp} {i : ℕ}
    (h : w i ≠ none) : spawnWorker w c r i ≠ none := by
  rcases spawnWorker_eq w c r with hsp | ⟨j, -, -, hsp⟩
  · rwa [hsp]
  · rw [hsp]
    by_cases hij : i = j
    · subst hij
      simp
    · rwa [Function.update_of_ne hij]

theorem StartStop.called_main {cfg : Cfg} {s : State} (h : StartStop cfg s) (c : Call)
    (hc : c.NoStart) (r : c.Resp) (p : Code CpaStatus) :
    ∀ i ∈ startedOn (.call .main c r :: s.log), startCalled i (.call .main c r :: s.log) = true ∧
      (s.mainStep cfg c r p).worker i ≠ none := by
  intro i hi
  rw [startedOn_noStart hc] at hi
  obtain ⟨hcalled, hw⟩ := h.called i hi
  exact ⟨(ghost_other _ _ (by simp) c r s.log).trans hcalled, spawnWorker_ne_none hw⟩

theorem startStop_main_stop {cfg : Cfg} {s : State} {i : ℕ} {r : CpaStatus} (p : Code CpaStatus)
    (h : StartStop cfg s) (hg : (mainGhost s.log).Guar cfg (.cpaDcStopInstance i)) :
    StartStop cfg (s.mainStep cfg (.cpaDcStopInstance i) r p) := by
  obtain ⟨hphase, hnew, hi⟩ := hg
  have hlog : mainGhost (s.mainStep cfg (.cpaDcStopInstance i) r p).log =
      (mainGhost s.log).next (.cpaDcStopInstance i) r :=
    mainGhost_own (.cpaDcStopInstance i) r s.log
  have hnostart : (Call.cpaDcStopInstance i).NoStart := fun _ _ _ hc => by cases hc
  refine ⟨?_, fun _ => .inl ?_, h.once, ?_,
    h.called_main (.cpaDcStopInstance i) hnostart r p, h.order_cons rfl, ?_, ?_⟩
  · rw [hlog]
    exact congrArg _ h.stops
  · rw [hlog]
    exact hphase
  · refine List.nodup_cons.mpr ⟨?_, h.onceStopped⟩
    have hstops : stoppedOn s.log = (mainGhost s.log).stops.map Prod.fst :=
      congrArg _ h.stops
    exact fun hmem => hnew (hstops ▸ hmem)
  · intro j hj
    rcases List.mem_cons.mp hj with rfl | hj
    · exact hi
    · exact h.instances j hj
  · rw [hlog]
    exact h.created

theorem startStop_main {cfg : Cfg} {s : State} {c : Call} {r : c.Resp} {p : Code CpaStatus}
    (h : StartStop cfg s) (hg : (mainGhost s.log).Guar cfg c) :
    StartStop cfg (s.mainStep cfg c r p) := by
  by_cases hstop : ∃ i, c = .cpaDcStopInstance i
  · obtain ⟨i, rfl⟩ := hstop
    exact startStop_main_stop p h hg
  · have hne : ∀ i, c ≠ .cpaDcStopInstance i := fun i hc => hstop ⟨i, hc⟩
    have hnostart : c.NoStart := by
      rintro inst n arr rfl
      exact hg
    have hstart : startedOn (.call .main c r :: s.log) = startedOn s.log :=
      startedOn_noStart hnostart r s.log
    have hstops : stopCalls (.call .main c r :: s.log) = stopCalls s.log :=
      stopCalls_other hne r s.log
    have hlog : mainGhost (s.mainStep cfg c r p).log = (mainGhost s.log).next c r :=
      mainGhost_own c r s.log
    refine ⟨?_, fun hs => ?_, hstart ▸ h.once, stoppedOn_other hne r s.log ▸ h.onceStopped,
      h.called_main c hnostart r p, h.order_cons hstart,
      stoppedOn_other hne r s.log ▸ h.instances, ?_⟩
    · rw [hlog, next_stops_other hne]
      exact hstops.trans h.stops
    · rw [hlog]
      exact hg.stopped_next (h.phase fun hnil => hs (hstops.trans hnil)) r
    · rw [hlog]
      exact hg.created_next h.created r

/-! ### A step of a worker -/

theorem StartStop.no_stop_yet {cfg : Cfg} {s : State} {i : ℕ} {c : Call}
    {k : c.Resp → Code CpaStatus} (h : StartStop cfg s) (hlink : MainLinked s)
    (hframe : s.world.sampleFrame = true) (hw : s.worker i = some (.call c k)) :
    stopCalls s.log = [] := by
  by_contra hs
  rcases h.phase hs with hp | hp
  · exact (hlink.gone (.inr hp)).not_running hw
  · exact absurd (hframe.symm.trans (hlink.frame.mpr hp)) (by decide)

theorem startCalled_worker {i j : ℕ} {l : List Entry} (h : startCalled j l = true) (c : Call)
    (r : c.Resp) : startCalled j (.call (.worker i) c r :: l) = true := by
  by_cases hji : j = i
  · subst hji
    rw [startCalled, ghost_own]
    cases c <;> first | exact h | rfl
  · rw [startCalled, ghost_other _ _ (fun he => hji (Tid.worker.inj he).symm)]
    exact h

theorem startedOn_worker {i : ℕ} {l : List Entry} {c : Call}
    (hg : (startProtocol i).guar (startCalled i l) c) (r : c.Resp) :
    startedOn (.call (.worker i) c r :: l) = startedOn l ∨
      startedOn (.call (.worker i) c r :: l) = i :: startedOn l ∧
        startCalled i l = false ∧ startCalled i (.call (.worker i) c r :: l) = true := by
  by_cases hst : ∃ inst n arr, c = .cpaDcStartInstance inst n arr
  · obtain ⟨inst, n, arr, rfl⟩ := hst
    obtain ⟨hfirst, rfl⟩ := hg
    by_cases hr : r = success
    · refine .inr ⟨if_pos hr, hfirst, ?_⟩
      rw [startCalled, ghost_own]
    · exact .inl (if_neg hr)
  · exact .inl (startedOn_noStart (noStart_of_ne hst) r l)

theorem startStop_worker {cfg : Cfg} {s : State} {i : ℕ} {c : Call} {r : c.Resp}
    {k : c.Resp → Code CpaStatus} (h : StartStop cfg s) (hlink : MainLinked s)
    (hframe : s.world.sampleFrame = true) (hg : (startProtocol i).guar (startCalled i s.log) c)
    (hw : s.worker i = some (.call c k)) (hc : c.OfWorker) :
    StartStop cfg (s.workerStep cfg i c r (k r)) := by
  have hlog : mainGhost (s.workerStep cfg i c r (k r)).log = mainGhost s.log :=
    mainGhost_other (by simp) c r s.log
  have hne : ∀ i, c ≠ .cpaDcStopInstance i := by
    rintro i rfl
    exact hc
  have hstops : stopCalls (.call (.worker i) c r :: s.log) = stopCalls s.log :=
    stopCalls_other hne r s.log
  have hstopped : stoppedOn (.call (.worker i) c r :: s.log) = stoppedOn s.log :=
    stoppedOn_other hne r s.log
  have hnone : stopCalls s.log = [] := h.no_stop_yet hlink hframe hw
  have hworker : ∀ j, s.worker j ≠ none → (s.workerStep cfg i c r (k r)).worker j ≠ none := by
    intro j hj
    by_cases hji : j = i
    · subst hji
      simp [State.workerStep]
    · simpa [State.workerStep, hji] using hj
  have hold : ∀ j ∈ startedOn s.log, startCalled j (.call (.worker i) c r :: s.log) = true ∧
      (s.workerStep cfg i c r (k r)).worker j ≠ none := fun j hj =>
    ⟨startCalled_worker (h.called j hj).1 c r, hworker j (h.called j hj).2⟩
  refine ⟨?_, fun hs => absurd (hstops.trans hnone) hs, ?_, hstopped ▸ h.onceStopped,
    fun j hj => ?_, fun l' hl' hs => ?_, hstopped ▸ h.instances, hlog ▸ h.created⟩
  · rw [hlog]
    exact hstops.trans h.stops
  · show (startedOn (.call (.worker i) c r :: s.log)).Nodup
    rcases startedOn_worker hg r with he | ⟨he, hfirst, -⟩
    · rw [he]
      exact h.once
    · rw [he]
      refine List.nodup_cons.mpr ⟨fun hmem => ?_, h.once⟩
      exact absurd (hfirst.symm.trans (h.called i hmem).1) (by decide)
  · have hj' : j ∈ startedOn (.call (.worker i) c r :: s.log) := hj
    rcases startedOn_worker hg r with he | ⟨he, -, hlater⟩
    · exact hold j (he ▸ hj')
    · rw [he] at hj'
      rcases List.mem_cons.mp hj' with rfl | hj'
      · exact ⟨hlater, hworker j (by simp [hw])⟩
      · exact hold j hj'
  · rcases List.suffix_cons_iff.mp hl' with rfl | hl'
    · rfl
    · have hsuf := stopCalls_suffix hl'
      rw [hnone] at hsuf
      exact absurd (List.suffix_nil.mp hsuf) hs

theorem startStop_reached {cfg : Cfg} {s : State}
    (hr : ReachVia (Step cfg) (fun s _ => s.world.sampleFrame = true) (initial cfg) s) :
    StartStop cfg s := by
  refine ReachVia.invariant (I := StartStop cfg) (startStop_initial cfg) ?_ hr
  intro s e s' hreach h hst hframe
  cases hst with
  | main hm ha => exact startStop_main h (main_guar hreach hm)
  | @worker i c k r hrun hw ha =>
    exact startStop_worker h (mainLinked_reached hreach) hframe
      ((workerMeets_start hreach i).left _ hw).1 hw (ofWorker_reached hreach hw)
  | @poller j p c k r hrun hp hn ha =>
    have hpoll := ofPoller_next hn
    have hlog : mainGhost (.call (.poller j) c r :: s.log) = mainGhost s.log :=
      mainGhost_other (by simp) c r s.log
    have hstart : startedOn (.call (.poller j) c r :: s.log) = startedOn s.log := by
      refine startedOn_noStart ?_ r s.log
      rintro inst n arr rfl
      exact hpoll
    have hne : ∀ i, c ≠ .cpaDcStopInstance i := by
      rintro i rfl
      exact hpoll
    have hstops : stopCalls (.call (.poller j) c r :: s.log) = stopCalls s.log :=
      stopCalls_other hne r s.log
    have hstopped : stoppedOn (.call (.poller j) c r :: s.log) = stoppedOn s.log :=
      stoppedOn_other hne r s.log
    refine ⟨?_, ?_, hstart ▸ h.once, hstopped ▸ h.onceStopped, ?_, h.order_cons hstart,
      hstopped ▸ h.instances, hlog ▸ h.created⟩
    · exact hstops.trans (h.stops.trans (by rw [← hlog]; rfl))
    · show stopCalls (.call (.poller j) c r :: s.log) ≠ [] → _
      rw [hstops]
      intro hs
      have hp := h.phase hs
      rwa [← hlog] at hp
    · intro i hi
      have hi' : i ∈ startedOn (.call (.poller j) c r :: s.log) := hi
      rw [hstart] at hi'
      exact ⟨(ghost_other _ _ (by simp) c r s.log).trans (h.called i hi').1, (h.called i hi').2⟩
  | @callback q l₁ l₂ st hrun hq hresp =>
    exact ⟨h.stops, h.phase, h.once, h.onceStopped, h.called, h.order_cons rfl, h.instances,
      h.created⟩

/-! ### Balance -/

section balance
variable {cfg : Cfg} {s : State}

theorem StartStop.balanced_iff (h : StartStop cfg s) (i : ℕ) :
    Balanced s.log i ↔ (i ∈ startedOn s.log ↔ i ∈ stoppedOn s.log) := by
  have hstart : (startedOn s.log).count i = if i ∈ startedOn s.log then 1 else 0 :=
    h.once.count
  have hstop : (stoppedOn s.log).count i = if i ∈ stoppedOn s.log then 1 else 0 :=
    h.onceStopped.count
  constructor
  · rintro ⟨hb, -, -⟩
    rw [hstart, hstop] at hb
    by_cases h₁ : i ∈ startedOn s.log <;> by_cases h₂ : i ∈ stoppedOn s.log <;> simp_all
  · intro hiff
    have heq : (stoppedOn s.log).count i = (startedOn s.log).count i := by
      rw [hstart, hstop]
      simp only [hiff]
    have hone : (stoppedOn s.log).count i ≤ 1 := by
      rw [hstop]
      split <;> omega
    refine ⟨heq, hone, fun l' hl' => ?_⟩
    by_cases hnil : stopCalls l' = []
    · simp [stoppedOn, hnil]
    · have hsub : (stoppedOn l').Sublist (stoppedOn s.log) :=
        (stopCalls_suffix hl').sublist.map _
      rw [h.order l' hl' hnil, ← heq]
      exact hsub.count_le i

theorem stopsDone_sublist (l : List Entry) : (stopsDone l).Sublist (stoppedOn l) :=
  List.filter_sublist.map _

theorem StartStop.perm (h : StartStop cfg s) (hlink : MainLinked s)
    (hb : ∀ i ∈ cfg.instances, Balanced s.log i) : (startedOn s.log).Perm (stoppedOn s.log) := by
  refine (List.perm_ext_iff_of_nodup h.once h.onceStopped).mpr fun i => ?_
  by_cases hi : i ∈ cfg.instances
  · exact (h.balanced_iff i).mp (hb i hi)
  · refine ⟨fun hs => absurd (h.created i (hlink.created i (h.called i hs).2)) hi, fun hs => ?_⟩
    exact absurd (h.instances i hs) hi

theorem StartStop.usage (h : StartStop cfg s) (hperm : (startedOn s.log).Perm (stoppedOn s.log))
    (d : ℕ) :
    ((∀ p ∈ stopCalls s.log, p.2 = success) → usageOf cfg s.log d = cfg.usageCounter d) ∧
      ∀ l, l <:+ s.log → cfg.usageCounter d ≤ usageOf cfg l d := by
  constructor
  · intro hall
    have hdone : stopsDone s.log = stoppedOn s.log := by
      rw [stopsDone, List.filter_eq_self.mpr fun p hp => decide_eq_true (hall p hp)]
      rfl
    rw [usageOf, hdone, hperm.countP_eq]
    omega
  · intro l hl
    have hle : (stopsDone l).countP (cfg.device · = d) ≤ (startedOn l).countP (cfg.device · = d) := by
      by_cases hnil : stopCalls l = []
      · simp [stopsDone, hnil]
      · rw [h.order l hl hnil, hperm.countP_eq]
        exact ((stopsDone_sublist l).trans ((stopCalls_suffix hl).sublist.map _)).countP_le
    unfold usageOf
    omega

theorem MainGhost.Returns.stopped_iff {g : MainGhost} (h : g.Returns cfg) {i : ℕ}
    (hi : i ∈ cfg.instances) :
    i ∈ g.stops.map Prod.fst ↔ g.AllCreated cfg ∧ ∀ j < i, (j, success) ∈ g.stops := by
  rcases h with ⟨hnot, hnil, -⟩ | ⟨hall, -, hord, -⟩
  · rw [hnil]
    exact ⟨fun hm => absurd hm List.not_mem_nil, fun hm => absurd hm.1 hnot⟩
  · rw [hord i hi]
    exact ⟨fun hm => ⟨hall, hm⟩, fun hm => hm.2⟩

theorem MainGhost.Returns.not_returned {g : MainGhost} (h : g.Returns cfg) :
    g.phase ≠ .returned := by
  rcases h with ⟨-, -, hp | ⟨hp, -⟩⟩ | ⟨-, -, -, hp⟩ <;> simp [hp]

end balance

/-- When `dcStatelessSample` returns, starts and stops are balanced, and so are the
usage counters if no stop failed, exactly if on each instance the start succeeded
just in case all workers were created and all instances before it were stopped
successfully. -/
theorem start_stop_balance (cfg : Cfg) (s : State) (st : CpaStatus)
    (k : (Call.returnSample st).Resp → Code CpaStatus)
    (hr : Reach (Step cfg) (initial cfg) s) (hm : s.main = some (.call (.returnSample st) k)) :
    ((∀ i ∈ cfg.instances, Balanced s.log i) ∧
      ((∀ p ∈ stopCalls s.log, p.2 = success) → ∀ d,
        s.world.usageCounter d = cfg.usageCounter d ∧
          ∀ l, l <:+ s.log → cfg.usageCounter d ≤ usageOf cfg l d)) ↔
    ∀ i ∈ cfg.instances, (i ∈ startedOn s.log ↔
      (mainGhost s.log).AllCreated cfg ∧ ∀ j < i, (j, success) ∈ stopCalls s.log) := by
  have hret : (mainGhost s.log).Returns cfg := main_guar hr hm
  have hlink := mainLinked_reached hr
  have hframe : s.world.sampleFrame = true := by
    by_contra hf
    exact hret.not_returned (hlink.frame.mp (by simpa using hf))
  have h := startStop_reached (frame_alive_before hr hframe)
  have hiff : ∀ i ∈ cfg.instances, (i ∈ stoppedOn s.log ↔
      (mainGhost s.log).AllCreated cfg ∧ ∀ j < i, (j, success) ∈ stopCalls s.log) := by
    intro i hi
    rw [stoppedOn, h.stops]
    exact hret.stopped_iff hi
  constructor
  · rintro ⟨hb, -⟩ i hi
    rw [← hiff i hi]
    exact (h.balanced_iff i).mp (hb i hi)
  · intro hcond
    have hb : ∀ i ∈ cfg.instances, Balanced s.log i := by
      intro i hi
      rw [h.balanced_iff, hiff i hi]
      exact hcond i hi
    have husage := h.usage (h.perm hlink hb)
    refine ⟨hb, fun hall d => ⟨?_, (husage d).2⟩⟩
    rw [usageCounter_reached hr]
    exact (husage d).1 hall

set_option maxRecDepth 20000 in
theorem start_stop_balance_run :
    ∃ s : State, startedOn s.log = [0] ∧ (∀ i ∈ oneUnpolled.instances, Balanced s.log i) := by
  have hrun : (replay oneUnpolled (allGood oneUnpolled) (fun _ _ => true) (initial oneUnpolled)
      (createMoves ++ workerMoves 0 ++ finishMoves)).any
      (fun s => returning s ∧ startedOn s.log = [0] ∧ (mainGhost s.log).created = [0]) = true := by
    decide +kernel
  obtain ⟨s, hr, hT⟩ := exists_reached hrun
  obtain ⟨hret, hstart, hcreated⟩ := of_decide_eq_true hT
  obtain ⟨st, k, hm⟩ := exists_of_returning hret
  refine ⟨s, hstart, ((start_stop_balance oneUnpolled s st k hr.reach hm).mpr ?_).1⟩
  intro i hi
  obtain rfl : i = 0 := by simpa [Cfg.instances, oneUnpolled, sampleCfg] using hi
  refine ⟨fun _ => ⟨fun j hj => ?_, fun j hj => absurd hj (Nat.not_lt_zero j)⟩, fun _ => ?_⟩
  · obtain rfl : j = 0 := by simpa [Cfg.instances, oneUnpolled, sampleCfg] using hj
    simp [hcreated]
  · simp [hstart]

def startFails (cfg : Cfg) (s : State) : (c : Call) → c.Resp
  | .cpaDcStartInstance _ _ _ => fail
  | c => allGood cfg s c

set_option maxRecDepth 20000 in
/-- The start fails, the worker ends, and the main thread stops the instance that
was never started: the usage counter ends below its initial value. -/
theorem stopped_without_start :
    ∃ s, Reach (Step oneUnpolled) (initial oneUnpolled) s ∧ returning s = true ∧
      s.world.usageCounter 0 < oneUnpolled.usageCounter 0 ∧ ¬ Balanced s.log 0 := by
  have hrun : (replay oneUnpolled (startFails oneUnpolled) (fun _ _ => true) (initial oneUnpolled)
      (createMoves ++ List.replicate 7 (.worker 0) ++ finishMoves)).any
      (fun s => returning s ∧ s.world.usageCounter 0 < oneUnpolled.usageCounter 0 ∧
        (stoppedOn s.log).count 0 ≠ (startedOn s.log).count 0) = true := by decide +kernel
  obtain ⟨s, hr, hT⟩ := exists_reached hrun
  obtain ⟨hret, husage, hcount⟩ := of_decide_eq_true hT
  exact ⟨s, hr.reach, hret, husage, fun hb => hcount hb.1⟩

end QatDcSample
