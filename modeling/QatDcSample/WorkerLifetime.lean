import QatDcSample.MainThread
import QatDcSample.Replay

/-!
# Lifetime of the workers

Workers run only while the main thread is in `starting`, or is leaving the sample
because a later worker could not be created: `dcStatelessSample` joins all of
them before it goes on, but returns from the create loop without joining any
(`dc_qat_funcs.c:678-682`).
-/

namespace QatDcSample
open EventProgram CpaStatus Transition

def WorkersGone (s : State) : Prop := ∀ i, s.worker i ≠ none → finished (s.worker i) = true

def mainGhost (l : List Entry) : MainGhost :=
  ghost ⟨MainGhost, MainGhost.next, fun _ _ _ => True, fun _ _ => True⟩ MainGhost.start .main l

@[simp] theorem mainGhost_own (c : Call) (r : c.Resp) (l : List Entry) :
    mainGhost (.call .main c r :: l) = (mainGhost l).next c r :=
  ghost_own ⟨MainGhost, MainGhost.next, _, _⟩ MainGhost.start .main c r l

theorem mainGhost_other {t : Tid} (h : t ≠ .main) (c : Call) (r : c.Resp) (l : List Entry) :
    mainGhost (.call t c r :: l) = mainGhost l := ghost_other _ _ h c r l

theorem main_meets_reached {cfg : Cfg} {ok : State → Entry → Prop} {s : State}
    (hr : ReachVia (Step cfg) ok (initial cfg) s) {p : Code CpaStatus} (hm : s.main = some p) :
    Meets (mainProtocol cfg) p (MainRun cfg) (mainGhost s.log) := by
  have hmeets := main_meets (mainMeets_initial (meets_mainThread cfg))
    (fun _ _ _ _ _ _ _ _ _ => trivial) hr p hm
  rwa [ghost_mk] at hmeets

theorem main_guar {cfg : Cfg} {ok : State → Entry → Prop} {s : State}
    (hr : ReachVia (Step cfg) ok (initial cfg) s) {c : Call} {k : c.Resp → Code CpaStatus}
    (hm : s.main = some (.call c k)) : (mainGhost s.log).Guar cfg c :=
  (main_meets_reached hr hm).1

/-! ### The ghost state and the workers -/

/-- Workers exist if created, those joined have returned, and all have once the
pollers are told to stop. -/
structure MainLinked (s : State) : Prop where
  created : ∀ i, s.worker i ≠ none → i ∈ (mainGhost s.log).created
  joined : ∀ i ∈ (mainGhost s.log).joined, finished (s.worker i) = true
  gone : (mainGhost s.log).phase = .stopping ∨ (mainGhost s.log).phase = .stopped → WorkersGone s
  frame : s.world.sampleFrame = false ↔ (mainGhost s.log).phase = .returned

theorem mainLinked_initial (cfg : Cfg) : MainLinked (initial cfg) :=
  ⟨fun _ h => absurd rfl h, fun _ h => absurd h List.not_mem_nil,
    fun h => (by rcases h with h | h <;> cases h), ⟨fun h => (by cases h), fun h => (by cases h)⟩⟩

theorem MainLinked.gone_of_none {s : State} (h : MainLinked s)
    (hc : (mainGhost s.log).created = []) : WorkersGone s := by
  intro i hi
  have hmem := h.created i hi
  rw [hc] at hmem
  cases hmem

theorem WorkersGone.of_eq {s s' : State} (h : WorkersGone s) (hw : s'.worker = s.worker) :
    WorkersGone s' := by
  intro i
  rw [hw]
  exact h i

theorem WorkersGone.not_running {s : State} (h : WorkersGone s) {i : ℕ} {c : Call}
    {k : c.Resp → Code CpaStatus} : s.worker i ≠ some (.call c k) := by
  intro hw
  have hf := h i (by simp [hw])
  rw [hw] at hf
  cases hf

theorem WorkersGone.step {cfg : Cfg} {s s' : State} {e : Entry} (h : WorkersGone s)
    (hs : Step cfg s e s') (hc : ∀ i, e ≠ .call .main (.pthreadCreateWorker i) true) :
    WorkersGone s' := by
  cases hs with
  | @main c k r hm ha =>
    refine h.of_eq ?_
    rcases spawnWorker_eq s.worker c r with hw | ⟨i, rfl, hr, -⟩
    · exact hw
    · obtain rfl := eq_of_heq hr
      exact absurd rfl (hc i)
  | worker hrun hw ha => exact absurd hw h.not_running
  | poller hrun hp hn ha => exact h.of_eq rfl
  | callback hrun hq hresp => exact h.of_eq rfl

theorem finished_step {cfg : Cfg} {s s' : State} {e : Entry} (hs : Step cfg s e s') {i : ℕ}
    (h : finished (s.worker i) = true) : finished (s'.worker i) = true := by
  cases hs with
  | @main c k r hm ha =>
    rcases spawnWorker_eq s.worker c r with hw | ⟨j, rfl, hr, hw⟩
    · exact (congrArg finished (congrFun hw i)).trans h
    · have hne : i ≠ j := by
        rintro rfl
        have hnone : s.worker i = none := ha (eq_of_heq hr)
        rw [hnone] at h
        cases h
      refine (congrArg finished ?_).trans h
      simp only [State.mainStep, hw, Function.update_of_ne hne]
  | @worker j c k r hrun hw ha =>
    have hne : i ≠ j := by
      rintro rfl
      rw [hw] at h
      cases h
    refine (congrArg finished ?_).trans h
    simp only [State.workerStep, Function.update_of_ne hne]
  | poller hrun hp hn ha => exact h
  | callback hrun hq hresp => exact h

theorem mainLinked_of_ghost {s : State} {g : MainGhost} (hlog : mainGhost s.log = g)
    (hcreated : ∀ i, s.worker i ≠ none → i ∈ g.created)
    (hjoined : ∀ i ∈ g.joined, finished (s.worker i) = true)
    (hgone : g.phase = .stopping ∨ g.phase = .stopped → WorkersGone s)
    (hframe : s.world.sampleFrame = false ↔ g.phase = .returned) : MainLinked s := by
  subst hlog
  exact ⟨hcreated, hjoined, hgone, hframe⟩

theorem MainLinked.frame_kept {s : State} (h : MainLinked s)
    (hold : (mainGhost s.log).phase ≠ .returned) {p : Phase} (hnew : p ≠ .returned) :
    s.world.sampleFrame = false ↔ p = .returned :=
  iff_of_false (fun hf => hold (h.frame.mp hf)) hnew

theorem mainLinked_main {cfg : Cfg} {s : State} {c : Call} {r : c.Resp} {k : c.Resp → Code CpaStatus}
    (h : MainLinked s) (hg : (mainGhost s.log).Guar cfg c) (hm : s.main = some (.call c k))
    (ha : Allowed cfg s .main c r) : MainLinked (s.mainStep cfg c r (k r)) := by
  have hstep : Step cfg s (.call .main c r) (s.mainStep cfg c r (k r)) := .main hm ha
  have hjoined : ∀ i ∈ (mainGhost s.log).joined,
      finished ((s.mainStep cfg c r (k r)).worker i) = true :=
    fun i hi => finished_step hstep (h.joined i hi)
  have hlog : mainGhost (s.mainStep cfg c r (k r)).log = (mainGhost s.log).next c r :=
    mainGhost_own c r s.log
  cases c <;> try exact mainLinked_of_ghost hlog h.created hjoined h.gone h.frame
  case pthreadCreateWorker i =>
    have hphase : (mainGhost s.log).phase = .starting := hg.1
    cases r with
    | false =>
      refine mainLinked_of_ghost hlog h.created hjoined ?_
        (h.frame_kept (by simp [hphase]) (by simp [MainGhost.next]))
      rintro (hp | hp) <;> cases hp
    | true =>
      refine mainLinked_of_ghost hlog (fun j hj => ?_) hjoined (fun hp => ?_) h.frame
      · by_cases hji : j = i
        · subst hji
          exact List.mem_cons_self
        · refine List.mem_cons_of_mem _ (h.created j ?_)
          simpa [State.mainStep, spawnWorker, hji] using hj
      · have hp' : (mainGhost s.log).phase = .stopping ∨ (mainGhost s.log).phase = .stopped := hp
        rw [hphase] at hp'
        rcases hp' with hp' | hp' <;> cases hp'
  case pthreadJoin i =>
    refine mainLinked_of_ghost hlog h.created (fun j hj => ?_) h.gone h.frame
    rcases List.mem_cons.mp hj with rfl | hj
    · exact finished_step hstep ha
    · exact hjoined j hj
  case setPollingDc v =>
    obtain ⟨-, hphase, hall⟩ := hg
    refine mainLinked_of_ghost hlog h.created hjoined (fun _ i hi => ?_)
      (h.frame_kept (by simp [hphase]) (by simp [MainGhost.next]))
    exact h.joined i (hall i (h.created i hi))
  case osSleep ms =>
    have hphase : (mainGhost s.log).phase = .stopping := hg
    exact mainLinked_of_ghost hlog h.created hjoined (fun _ => h.gone (.inl hphase))
      (h.frame_kept (by simp [hphase]) (by simp [MainGhost.next]))
  case returnSample st =>
    refine mainLinked_of_ghost hlog h.created hjoined ?_ ⟨fun _ => rfl, fun _ => rfl⟩
    rintro (hp | hp) <;> cases hp

theorem sampleFrameAfter_other {v : Bool} {c : Call} (h : ∀ st, c ≠ .returnSample st) :
    sampleFrameAfter v c = v := by
  cases c <;> first | rfl | exact absurd rfl (h _)

theorem mainLinked_worker {cfg : Cfg} {s : State} {i : ℕ} {c : Call} {r : c.Resp}
    {k : c.Resp → Code CpaStatus} (h : MainLinked s) (hrun : s.Running)
    (hw : s.worker i = some (.call c k)) (ha : Allowed cfg s (.worker i) c r)
    (hc : ∀ st, c ≠ .returnSample st) : MainLinked (s.workerStep cfg i c r (k r)) := by
  have hstep : Step cfg s (.call (.worker i) c r) (s.workerStep cfg i c r (k r)) :=
    .worker hrun hw ha
  have hlog : mainGhost (s.workerStep cfg i c r (k r)).log = mainGhost s.log :=
    mainGhost_other (by simp) c r s.log
  refine mainLinked_of_ghost hlog (fun j hj => ?_) (fun j hj => ?_) (fun hp => ?_) ?_
  · by_cases hji : j = i
    · subst hji
      exact h.created j (by simp [hw])
    · refine h.created j ?_
      simpa [State.workerStep, hji] using hj
  · exact finished_step hstep (h.joined j hj)
  · exact absurd hw (h.gone hp).not_running
  · rw [← h.frame]
    show sampleFrameAfter s.world.sampleFrame c = false ↔ _
    rw [sampleFrameAfter_other hc]

theorem mainLinked_step {cfg : Cfg} {s s' : State} {e : Entry} (h : MainLinked s)
    (hmain : ∀ c k, s.main = some (.call c k) → (mainGhost s.log).Guar cfg c)
    (hworker : ∀ i c k, s.worker i = some (.call c k) → c.OfWorker) (hs : Step cfg s e s') :
    MainLinked s' := by
  cases hs with
  | main hm ha => exact mainLinked_main h (hmain _ _ hm) hm ha
  | @worker i c k r hrun hw ha =>
    refine mainLinked_worker h hrun hw ha fun st hc => ?_
    subst hc
    exact hworker i _ k hw
  | @poller j p c k r hrun hp hn ha =>
    have hlog : mainGhost (s.pollerStep cfg j c r (k r)).log = mainGhost s.log :=
      mainGhost_other (by simp) c r s.log
    have hframe : sampleFrameAfter s.world.sampleFrame c = s.world.sampleFrame := by
      refine sampleFrameAfter_other fun st hc => ?_
      subst hc
      exact ofPoller_next hn
    refine mainLinked_of_ghost hlog h.created h.joined h.gone ?_
    rw [← h.frame]
    show sampleFrameAfter s.world.sampleFrame c = false ↔ _
    rw [hframe]
  | callback hrun hq hresp => exact ⟨h.created, h.joined, h.gone, h.frame⟩

theorem mainLinked_reached {cfg : Cfg} {ok : State → Entry → Prop} {s : State}
    (hr : ReachVia (Step cfg) ok (initial cfg) s) : MainLinked s :=
  hr.invariant (mainLinked_initial cfg) fun _ _ _ hreach h hst _ =>
    mainLinked_step h (fun _ _ hm => main_guar hreach hm)
      (fun _ _ _ hw => ofWorker_reached hreach hw) hst

/-! ### Pollers and the instances -/

structure ForInstances (cfg : Cfg) (s : State) : Prop where
  worker : ∀ i, s.worker i ≠ none → i ∈ cfg.instances
  poller : ∀ i, s.poller i ≠ none → i ∈ cfg.instances

theorem forInstances_step {cfg : Cfg} {s s' : State} {e : Entry} (h : ForInstances cfg s)
    (hmain : ∀ c k, s.main = some (.call c k) → (mainGhost s.log).Guar cfg c)
    (hs : Step cfg s e s') : ForInstances cfg s' := by
  cases hs with
  | @main c k r hm ha =>
    refine ⟨fun i hi => ?_, h.poller⟩
    rcases spawnWorker_eq s.worker c r with hw | ⟨j, rfl, -, hw⟩
    · exact h.worker i fun hn => hi ((congrFun hw i).trans hn)
    · by_cases hij : i = j
      · subst hij
        exact (hmain _ _ hm).2.2
      · refine h.worker i fun hn => hi ?_
        simp only [State.mainStep, hw, Function.update_of_ne hij, hn]
  | @worker j c k r hrun hw ha =>
    have hj : j ∈ cfg.instances := h.worker j (by simp [hw])
    refine ⟨fun i hi => ?_, fun i hi => ?_⟩
    · by_cases hij : i = j
      · exact hij ▸ hj
      · refine h.worker i fun hn => hi ?_
        simp only [State.workerStep, Function.update_of_ne hij, hn]
    · by_cases hij : i = j
      · exact hij ▸ hj
      · refine h.poller i fun hn => hi ?_
        show spawnPoller j s.poller c r i = none
        rcases spawnPoller_eq j s.poller c r with hp | ⟨inst, -, -, hp⟩
        · rw [hp, hn]
        · rw [hp, Function.update_of_ne hij, hn]
  | @poller j p c k r hrun hp hn ha =>
    refine ⟨h.worker, fun i hi => ?_⟩
    by_cases hij : i = j
    · subst hij
      exact h.poller i (by simp [hp])
    · refine h.poller i fun hn => hi ?_
      simp only [State.pollerStep, Function.update_of_ne hij, hn]
  | callback hrun hq hresp => exact ⟨h.worker, h.poller⟩

theorem forInstances_reached {cfg : Cfg} {ok : State → Entry → Prop} {s : State}
    (hr : ReachVia (Step cfg) ok (initial cfg) s) : ForInstances cfg s :=
  hr.invariant ⟨fun _ h => absurd rfl h, fun _ h => absurd rfl h⟩
    fun _ _ _ hreach h hst _ => forInstances_step h (fun _ _ hm => main_guar hreach hm) hst

/-! ### When no worker is left behind -/

/-- The creation of a worker fails only when all workers created before have
returned. -/
def CreateFailsAlone (s : State) : Entry → Prop
  | .call .main (.pthreadCreateWorker _) ok => ok = true ∨ WorkersGone s
  | _ => True

theorem gone_of_createFailsAlone {cfg : Cfg} {s : State}
    (hr : ReachVia (Step cfg) CreateFailsAlone (initial cfg) s)
    (hp : (mainGhost s.log).phase ≠ .starting) : WorkersGone s := by
  revert hp
  refine ReachVia.invariant (I := fun s => (mainGhost s.log).phase ≠ .starting → WorkersGone s)
    (fun hp => absurd rfl hp) ?_ hr
  intro s e s' hreach ih hst ho hp
  have hlink := mainLinked_reached hreach
  by_cases hstart : (mainGhost s.log).phase = .starting
  · -- the phase changes in this step
    cases hst with
    | @main c k r hm ha =>
      have hg := main_guar hreach hm
      have hp' : ((mainGhost s.log).next c r).phase ≠ .starting := by
        rwa [← mainGhost_own c r s.log]
      cases c <;> try exact absurd hstart hp'
      case pthreadCreateWorker i =>
        rcases ho with hok | hgone
        · subst hok
          exact absurd hstart hp'
        · cases r with
          | false => exact hgone
          | true => exact absurd hstart hp'
      case setPollingDc v =>
        exact fun i hi => hlink.joined i (hg.2.2 i (hlink.created i hi))
      case osSleep ms => exact absurd (hstart.symm.trans hg) (by decide)
      case returnSample st =>
        rcases hg with ⟨-, -, hg | ⟨-, hg⟩⟩ | ⟨-, -, -, hg⟩
        · exact absurd (hstart.symm.trans hg) (by decide)
        · exact hlink.gone_of_none hg
        · exact absurd (hstart.symm.trans hg) (by decide)
    | @worker i c k r hrun hw ha =>
      exact absurd hstart (by rwa [← mainGhost_other (t := .worker i) (by simp) c r s.log])
    | @poller j p c k r hrun hpp hn ha =>
      exact absurd hstart (by rwa [← mainGhost_other (t := .poller j) (by simp) c r s.log])
    | callback hrun hq hresp => exact absurd hstart hp
  · refine (ih hstart).step hst fun i he => ?_
    subst he
    cases hst with
    | main hm ha => exact hstart (main_guar hreach hm).1

/-- If a creation fails only when the workers before it have returned, then all
workers have when `dcStatelessSample` has, and `main` stops the user space driver
and the memory driver only then. -/
theorem workers_gone_after_return (cfg : Cfg) (s : State)
    (hr : ReachVia (Step cfg) CreateFailsAlone (initial cfg) s) :
    (s.world.sampleFrame = false → WorkersGone s) ∧
    (∀ i c k, s.worker i = some (.call c k) → s.world.sampleFrame = true) ∧
    ∀ f k, s.main = some (.call (.teardown f) k) → WorkersGone s := by
  have hlink := mainLinked_reached hr
  have hgone : s.world.sampleFrame = false → WorkersGone s := fun hf =>
    gone_of_createFailsAlone hr (by rw [hlink.frame.mp hf]; decide)
  refine ⟨hgone, fun i c k hw => ?_, fun f k hm => ?_⟩
  · by_contra hf
    exact (hgone (by simpa using hf)).not_running hw
  · rcases main_guar hr hm with hp | ⟨-, hp⟩
    · exact hgone (hlink.frame.mpr hp)
    · exact hlink.gone_of_none hp

def noCreateFails (_ : State) : Entry → Bool
  | .call .main (.pthreadCreateWorker _) ok => ok
  | _ => true

theorem createFailsAlone_of_none {s : State} {e : Entry} (h : noCreateFails s e = true) :
    CreateFailsAlone s e := by
  cases e with
  | callback q st => trivial
  | call t c r =>
    cases t <;> try trivial
    cases c <;> try trivial
    exact .inl h

def tearingDown (s : State) : Bool :=
  match s.main with
  | some (.call (.teardown _) _) => true
  | _ => false

theorem exists_of_tearingDown {s : State} (h : tearingDown s = true) :
    ∃ f k, s.main = some (.call (.teardown f) k) := by
  unfold tearingDown at h
  split at h
  · next f k hm => exact ⟨f, k, hm⟩
  · cases h

set_option maxRecDepth 20000 in
/-- Both workers run to their end, `dcStatelessSample` returns, and `main` is about to
stop the driver. -/
theorem workers_gone_after_return_run :
    ∃ s : State, (s.worker 0).isSome = true ∧ (s.worker 1).isSome = true ∧
      s.world.sampleFrame = false ∧ WorkersGone s ∧ (∀ i c k, s.worker i ≠ some (.call c k)) ∧
      ∃ f k, s.main = some (.call (.teardown f) k) ∧ WorkersGone s := by
  have hrun : (replay twoUnpolled (allGood twoUnpolled) noCreateFails (initial twoUnpolled)
      (List.replicate 17 .main ++ workerMoves 0 ++ workerMoves 1 ++ List.replicate 9 .main)).any
      (fun s => (s.worker 0).isSome ∧ (s.worker 1).isSome ∧ s.world.sampleFrame = false ∧
        tearingDown s = true) = true := by decide +kernel
  obtain ⟨s, hr, hT⟩ := exists_reached hrun
  obtain ⟨h₀, h₁, hframe, htear⟩ := of_decide_eq_true hT
  obtain ⟨f, k, hm⟩ := exists_of_tearingDown htear
  obtain ⟨hgone, halive, hstop⟩ := workers_gone_after_return twoUnpolled s
    (hr.mono fun _ _ => createFailsAlone_of_none)
  refine ⟨s, h₀, h₁, hframe, hgone hframe, fun i c k hw => ?_, f, k, hm, hstop f k hm⟩
  rw [halive i c k hw] at hframe
  cases hframe

def secondNotCreated (cfg : Cfg) (s : State) : (c : Call) → c.Resp
  | .pthreadCreateWorker i => i = 0
  | c => allGood cfg s c

set_option maxRecDepth 20000 in
/-- The second worker is not created: `dcStatelessSample` has returned, and the
first worker has not made its first call. -/
theorem worker_outlives_frame :
    ∃ s, Reach (Step twoUnpolled) (initial twoUnpolled) s ∧ s.world.sampleFrame = false ∧
      ¬ WorkersGone s := by
  have hrun : (replay twoUnpolled (secondNotCreated twoUnpolled) (fun _ _ => true)
      (initial twoUnpolled) (List.replicate 18 .main)).any
      (fun s => s.world.sampleFrame = false ∧ (s.worker 0).isSome ∧
        finished (s.worker 0) = false) = true := by decide +kernel
  obtain ⟨s, hr, hT⟩ := exists_reached hrun
  obtain ⟨hframe, hsome, hrunning⟩ := of_decide_eq_true hT
  refine ⟨s, hr.reach, hframe, fun hgone => ?_⟩
  have hfin := hgone 0 (Option.isSome_iff_ne_none.mp hsome)
  rw [hrunning] at hfin
  cases hfin

end QatDcSample
