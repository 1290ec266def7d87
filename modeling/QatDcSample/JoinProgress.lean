import QatDcSample.Waiting
import QatDcSample.Replay

/-!
# The join can return

If no wait is lost, every worker can run to its end: wherever it stands its next
call can be answered, and if it waits for a completion the poller can be brought
into its call, the callback can run there, and the wait succeeds.
-/

namespace QatDcSample
open EventProgram Prog BlockMemory CpaStatus Transition

def waitSucceeds : Entry → Bool
  | .call _ (.completionWait _) ok => ok
  | _ => true

/-- The steps by which a worker is brought to its end. -/
def Progress (cfg : Cfg) (s : State) (e : Entry) : Prop :=
  ThirdAttended cfg s e ∧ waitSucceeds e = true

theorem running_congr {s s' : State} (h : s'.main = s.main) (hrun : s.Running) : s'.Running := by
  unfold State.Running
  rw [h]
  exact hrun

/-! ### Bringing a poller into its call -/

/-- What the main thread and the workers can tell is the same. -/
structure Undisturbed (s s' : State) : Prop where
  main : s'.main = s.main
  worker : s'.worker = s.worker
  inflight : s'.world.inflight = s.world.inflight
  sem : s'.world.sem = s.world.sem

theorem Undisturbed.trans {s₁ s₂ s₃ : State} (h : Undisturbed s₁ s₂) (h' : Undisturbed s₂ s₃) :
    Undisturbed s₁ s₃ :=
  ⟨h'.main.trans h.main, h'.worker.trans h.worker, h'.inflight.trans h.inflight,
    h'.sem.trans h.sem⟩

def Drives (cfg : Cfg) (j inst : ℕ) (s : State) : Prop :=
  ∃ s', ReachVia (Step cfg) (Progress cfg) s s' ∧ Undisturbed s s' ∧
    s'.poller j = some ⟨inst, .polling⟩

section drive
variable {cfg : Cfg} {s : State} {j inst : ℕ}

theorem Drives.step {p : Poller} {c : Call} {r : c.Resp} {k : c.Resp → Poller} (hrun : s.Running)
    (hp : s.poller j = some p) (hn : p.next = some ⟨c, k⟩) (ha : Allowed cfg s (.poller j) c r)
    (h : Drives cfg j inst (s.pollerStep cfg j c r (k r))) : Drives cfg j inst s := by
  obtain ⟨s', hs', hu, hpolling⟩ := h
  have hwait : waitSucceeds (.call (.poller j) c r) = true := by
    have hof := ofPoller_next hn
    cases c <;> first | rfl | exact hof.elim
  have hone : ReachVia (Step cfg) (Progress cfg) s (s.pollerStep cfg j c r (k r)) :=
    .tail .refl (.poller hrun hp hn ha) ⟨rfl, hwait⟩
  have hstep : Undisturbed s (s.pollerStep cfg j c r (k r)) :=
    ⟨rfl, rfl, inflightAfter_poller j s.world.inflight c r, semAfter_poller j s.world.sem c r⟩
  exact ⟨s', hone.trans hs', hstep.trans hu, hpolling⟩

theorem drives_of_poll (hrun : s.Running) (hp : s.poller j = some ⟨inst, .poll⟩) :
    Drives cfg j inst s := by
  refine Drives.step (r := ()) hrun hp rfl trivial ⟨_, .refl, ⟨rfl, rfl, rfl, rfl⟩, ?_⟩
  simp [State.pollerStep]

theorem drives_of_test (hrun : s.Running) (hp : s.poller j = some ⟨inst, .test⟩)
    (hflag : s.world.gPollingDc = true) : Drives cfg j inst s := by
  have ha : Allowed cfg s (.poller j) .readPollingDc true := hflag.symm
  refine Drives.step hrun hp rfl ha (drives_of_poll hrun ?_)
  simp [State.pollerStep]

theorem drives_of_running (hrun : s.Running) {p : Poller} (hp : s.poller j = some p)
    (hup : p.pc ≠ .exited ∧ (p.pc = .start ∨ s.world.gPollingDc = true)) :
    Drives cfg j p.inst s := by
  obtain ⟨inst, pc⟩ := p
  have hset : pc ≠ .start → s.world.gPollingDc = true := hup.2.resolve_left
  cases pc with
  | start =>
    refine Drives.step (r := ()) hrun hp rfl trivial (drives_of_test hrun ?_ rfl)
    simp [State.pollerStep]
  | test => exact drives_of_test hrun hp (hset (by decide))
  | poll => exact drives_of_poll hrun hp
  | polling => exact ⟨s, .refl, ⟨rfl, rfl, rfl, rfl⟩, hp⟩
  | sleep =>
    refine Drives.step (r := ()) hrun hp rfl trivial (drives_of_test hrun ?_ (hset (by decide)))
    simp [State.pollerStep]
  | exited => exact absurd rfl hup.1

end drive

/-! ### Answering a worker -/

section worker
variable {cfg : Cfg} {s : State} {i : ℕ}

theorem exists_answer {c : Call} (hc : c.OfWorker) (hne : ∀ k, c ≠ .completionWait k) :
    ∃ r : c.Resp, Allowed cfg s (.worker i) c r ∧ Progress cfg s (.call (.worker i) c r) := by
  cases c <;> try exact hc.elim
  case api f inst => exact ⟨fail, trivial, rfl, rfl⟩
  case apiSize f inst =>
    refine ⟨(fail, 0), ?_, rfl, rfl⟩
    cases f <;> first | trivial | exact Nat.two_pow_pos 16
  case cpaDcQueryCapabilities inst => exact ⟨(fail, ⟨false, false⟩), trivial, rfl, rfl⟩
  case cpaDcInstanceGetInfo2 inst =>
    exact ⟨(fail, false), fun h => absurd h fail_ne_success, rfl, rfl⟩
  case cpaDcStartInstance inst num arr => exact ⟨fail, trivial, rfl, rfl⟩
  case cpaDcCompressData2 inst session src dst frame k =>
    refine ⟨retry, trivial, ?_, rfl⟩
    cases k <;> rfl
  case memAlloc a n => exact ⟨none, trivial, rfl, rfl⟩
  case memFree a b => exact ⟨(), trivial, rfl, rfl⟩
  case load p f =>
    refine ⟨(fieldOf s.world.mem p f).getD none, fun v hv => ?_, rfl, rfl⟩
    rw [Option.mem_def.mp hv]
    rfl
  case store p f v => exact ⟨(), trivial, rfl, rfl⟩
  case enterFrame =>
    obtain ⟨base, hfresh⟩ := s.world.mem.exists_fresh memAfter.frameSize
    exact ⟨(s.world.mem.next, base), hfresh, rfl, rfl⟩
  case leaveFrame b => exact ⟨(), trivial, rfl, rfl⟩
  case completionInit k => exact ⟨(), trivial, rfl, rfl⟩
  case completionWait k => exact absurd rfl (hne k)
  case completionDestroy k => exact ⟨(), trivial, rfl, rfl⟩
  case readResultsStatus =>
    refine ⟨(s.world.dcResults i).getD .ok, fun st hst => ?_, rfl, rfl⟩
    rw [Option.mem_def.mp hst]
    rfl
  case readDcInstHandle j => exact ⟨j, fun _ => rfl, rfl, rfl⟩
  case readSample j v => exact ⟨(), trivial, rfl, rfl⟩
  case memcpyInput => exact ⟨(), trivial, rfl, rfl⟩
  case pthreadCreatePoller inst => exact ⟨(false, none), fun h => (by cases h), rfl, rfl⟩
  case pthreadDetach => exact ⟨s.world.gPollingThreadDc, rfl, rfl, rfl⟩

theorem completes (hr : ReachVia (Step cfg) (ThirdAttended cfg) (initial cfg) s) (hrun : s.Running)
    {k : Completion} {f : Bool → Code CpaStatus}
    (hw : s.worker i = some (.call (.completionWait k) f)) :
    ∃ s', ReachVia (Step cfg) (Progress cfg) s s' ∧ s'.main = s.main ∧ s'.worker = s.worker ∧
      0 < s'.world.sem i k := by
  rcases noLostWait_reached hr i k f hw with hsem | ⟨q, hq, rfl, rfl, hpoller⟩
  · exact ⟨s, .refl, rfl, rfl, hsem⟩
  · -- the callback runs, on a polled instance inside the call of the poller
    obtain ⟨s₁, hs₁, hu, hresp⟩ : ∃ s₁, ReachVia (Step cfg) (Progress cfg) s s₁ ∧
        Undisturbed s s₁ ∧ Responds cfg s₁ q.inst := by
      by_cases hpolled : cfg.isPolled q.inst = true
      · obtain ⟨j, p, hp, hinst, -⟩ := hpoller hpolled
        obtain ⟨s₁, hs₁, hu, hpolling⟩ : Drives cfg j p.inst s :=
          drives_of_running hrun hp (poller_running hr hw hp)
        exact ⟨s₁, hs₁, hu, .inr ⟨j, hinst ▸ hpolling⟩⟩
      · exact ⟨s, .refl, ⟨rfl, rfl, rfl, rfl⟩, .inl (by simpa using hpolled)⟩
    obtain ⟨l₁, l₂, hl⟩ := List.append_of_mem hq
    have hrun₁ := running_congr hu.main hrun
    refine ⟨s₁.callbackStep q .ok (l₁ ++ l₂),
      hs₁.trans (.tail .refl (.callback hrun₁ (hu.inflight.trans hl) hresp) ⟨rfl, rfl⟩),
      hu.main, hu.worker, ?_⟩
    show 0 < setSem s₁.world.sem q.worker q.tag _ q.worker q.tag
    rw [setSem_same]
    exact Nat.succ_pos _

/-- A worker can be brought to its end: by induction on what is left of its code. -/
theorem can_finish (p : Code CpaStatus) : ∀ s : State,
    ReachVia (Step cfg) (ThirdAttended cfg) (initial cfg) s → s.Running → s.worker i = some p →
    ∃ s', ReachVia (Step cfg) (Progress cfg) s s' ∧ s'.main = s.main ∧
      finished (s'.worker i) = true := by
  induction p with
  | ret st =>
    intro s hr hrun hw
    exact ⟨s, .refl, rfl, by rw [hw]; rfl⟩
  | call c k ih =>
    intro s hr hrun hw
    obtain ⟨s₁, hs₁, hm₁, hw₁, r, ha, ho⟩ : ∃ s₁, ReachVia (Step cfg) (Progress cfg) s s₁ ∧
        s₁.main = s.main ∧ s₁.worker = s.worker ∧ ∃ r : c.Resp, Allowed cfg s₁ (.worker i) c r ∧
          Progress cfg s₁ (.call (.worker i) c r) := by
      by_cases hwait : ∃ k', c = .completionWait k'
      · obtain ⟨k', rfl⟩ := hwait
        obtain ⟨s₁, hs₁, hm₁, hw₁, hsem⟩ := completes hr hrun hw
        exact ⟨s₁, hs₁, hm₁, hw₁, true, fun _ => hsem, rfl, rfl⟩
      · exact ⟨s, .refl, rfl, rfl,
          exists_answer (ofWorker_reached hr hw) fun k' hk => hwait ⟨k', hk⟩⟩
    have hrun₁ := running_congr hm₁ hrun
    have hstep : Step cfg s₁ (.call (.worker i) c r) (s₁.workerStep cfg i c r (k r)) :=
      .worker hrun₁ (by rw [hw₁, hw]) ha
    have hr₂ : ReachVia (Step cfg) (ThirdAttended cfg) (initial cfg)
        (s₁.workerStep cfg i c r (k r)) :=
      .tail (hr.trans (hs₁.mono fun _ _ h => h.1)) hstep ho.1
    obtain ⟨s', hs', hm', hfin⟩ := ih r _ hr₂ hrun₁ (by simp [State.workerStep])
    exact ⟨s', (ReachVia.tail hs₁ hstep ho).trans hs', hm'.trans hm₁, hfin⟩

end worker

/-! ### The join loop -/

theorem worker_of_created {cfg : Cfg} {ok : State → Entry → Prop} {s : State}
    (hr : ReachVia (Step cfg) ok (initial cfg) s) :
    ∀ i ∈ (mainGhost s.log).created, s.worker i ≠ none := by
  refine ReachVia.invariant (I := fun s => ∀ i ∈ (mainGhost s.log).created, s.worker i ≠ none)
    (fun i hi => absurd hi List.not_mem_nil) ?_ hr
  intro s e s' _ h hst ho i hi
  cases hst with
  | @main c k r hm ha =>
    have hi' : i ∈ (mainGhost (.call .main c r :: s.log)).created := hi
    rw [mainGhost_own] at hi'
    cases c <;> try exact h i hi'
    case pthreadCreateWorker j =>
      cases r with
      | false => exact h i hi'
      | true =>
        by_cases hij : i = j
        · subst hij
          simp [State.mainStep, spawnWorker]
        · have hmem : i ∈ (mainGhost s.log).created := (List.mem_cons.mp hi').resolve_left hij
          simpa [State.mainStep, spawnWorker, hij] using h i hmem
  | @worker j c k r hrun hw ha =>
    have hi' : i ∈ (mainGhost (.call (.worker j) c r :: s.log)).created := hi
    rw [mainGhost_other (by simp)] at hi'
    by_cases hij : i = j
    · subst hij
      simp [State.workerStep]
    · simpa [State.workerStep, hij] using h i hi'
  | @poller j p c k r hrun hp hn ha =>
    have hi' : i ∈ (mainGhost (.call (.poller j) c r :: s.log)).created := hi
    rw [mainGhost_other (by simp)] at hi'
    exact h i hi'
  | callback hrun hq hresp => exact h i hi

/-- In every run in which a worker's third submission is accepted only after the
first two were, and with a poller for its requests if the instance is polled, no
worker waits for a completion that cannot come, and whichever worker the main thread
joins can run to its end without a failed wait. -/
theorem no_lost_wait (cfg : Cfg) (s : State)
    (hr : ReachVia (Step cfg) (ThirdAttended cfg) (initial cfg) s) :
    NoLostWait cfg s ∧ ∀ i f, s.main = some (.call (.pthreadJoin i) f) →
      ∃ s', ReachVia (Step cfg) (Progress cfg) s s' ∧ s'.main = s.main ∧
        finished (s'.worker i) = true := by
  refine ⟨noLostWait_reached hr, fun i f hm => ?_⟩
  have hrun : s.Running := by
    unfold State.Running
    rw [hm]
    rfl
  obtain ⟨p, hp⟩ := Option.ne_none_iff_exists'.mp (worker_of_created hr i (main_guar hr hm).2)
  exact can_finish p s hr hrun hp

def joins (s : State) (i : ℕ) : Bool :=
  match s.main with
  | some (.call (.pthreadJoin j) _) => j = i
  | _ => false

theorem exists_of_joins {s : State} {i : ℕ} (h : joins s i = true) :
    ∃ f, s.main = some (.call (.pthreadJoin i) f) := by
  unfold joins at h
  split at h
  · next j f hm =>
    obtain rfl := of_decide_eq_true h
    exact ⟨f, hm⟩
  · cases h

set_option maxRecDepth 20000 in
/-- On a polled instance the worker has come to its first wait with three requests
in flight, its poller has not made its first step, and the main thread joins. -/
theorem no_lost_wait_run :
    ∃ s : State, s.world.inflight.length = 3 ∧ NoLostWait onePolled s ∧
      ∃ s', ReachVia (Step onePolled) (Progress onePolled) s s' ∧
        finished (s'.worker 0) = true := by
  have hrun : (replay onePolled (allGood onePolled) (thirdAttended onePolled) (initial onePolled)
      (createMoves ++ List.replicate 34 (.worker 0))).any
      (fun s => s.world.inflight.length = 3 ∧ joins s 0 = true) = true := by decide +kernel
  obtain ⟨s, hr, hT⟩ := exists_reached hrun
  obtain ⟨hlen, hjoins⟩ := of_decide_eq_true hT
  obtain ⟨f, hm⟩ := exists_of_joins hjoins
  obtain ⟨hno, hjoin⟩ := no_lost_wait onePolled s hr
  obtain ⟨s', hs', -, hfin⟩ := hjoin 0 f hm
  exact ⟨s, hlen, hno, s', hs', hfin⟩

def waitsInVain (s : State) (i : ℕ) : Bool :=
  match s.worker i with
  | some (.call (.completionWait k) _) =>
      s.world.sem i k = 0 && s.world.inflight.all fun q => q.worker ≠ i || q.tag ≠ k
  | _ => false

theorem not_noLostWait {cfg : Cfg} {s : State} {i : ℕ} (h : waitsInVain s i = true) :
    ¬ NoLostWait cfg s := by
  intro hno
  unfold waitsInVain at h
  split at h
  · next k f hw =>
    simp only [Bool.and_eq_true, decide_eq_true_eq, List.all_eq_true, Bool.or_eq_true] at h
    rcases hno i k f hw with hsem | ⟨q, hq, hi, hk, -⟩
    · omega
    · rcases h.2 q hq with hne | hne
      · exact hne hi
      · exact hne hk
  · cases h

/-- Every call succeeds except that the first submission is answered
`CPA_STATUS_RETRY`. -/
def firstRejected (cfg : Cfg) (s : State) : (c : Call) → c.Resp
  | .cpaDcCompressData2 _ _ _ _ _ .complete1 => retry
  | c => allGood cfg s c

set_option maxRecDepth 20000 in
/-- The worker waits for the request that was rejected. -/
theorem waits_for_rejected :
    ∃ s, Reach (Step oneUnpolled) (initial oneUnpolled) s ∧ ¬ NoLostWait oneUnpolled s := by
  have hrun : (replay oneUnpolled (firstRejected oneUnpolled) (fun _ _ => true)
      (initial oneUnpolled) (createMoves ++ List.replicate 32 (.worker 0))).any
      (fun s => waitsInVain s 0) = true := by decide +kernel
  obtain ⟨s, hr, hT⟩ := exists_reached hrun
  exact ⟨s, hr.reach, not_noLostWait hT⟩

end QatDcSample
