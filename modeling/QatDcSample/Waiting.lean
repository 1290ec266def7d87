import QatDcSample.RequestMemory
import QatDcSample.StopPolling

/-!
# What a waiting worker waits for

`compPerformOp` waits for all three completions if its last submission was
accepted, whatever became of the other two, and `sampleDcStartPolling` does not
report that it could not start the poller. Otherwise the completion a worker waits
for is posted, or its request is in flight and, on a polled instance, the worker's
poller is there.
-/

namespace QatDcSample
open EventProgram Prog CpaStatus Transition

/-- Completion `k` of worker `i` is posted, or its request is in flight and, on a
polled instance, a poller for it has not exited. -/
def CanComplete (cfg : Cfg) (s : State) (i : ℕ) (k : Completion) : Prop :=
  0 < s.world.sem i k ∨ ∃ q ∈ s.world.inflight, q.worker = i ∧ q.tag = k ∧
    (cfg.isPolled q.inst = true → ∃ j p, s.poller j = some p ∧ p.inst = q.inst ∧ p.pc ≠ .exited)

def NoLostWait (cfg : Cfg) (s : State) : Prop :=
  ∀ i k f, s.worker i = some (.call (.completionWait k) f) → CanComplete cfg s i k

/-! ### The condition -/

def hasPoller (s : State) (i inst : ℕ) : Bool := (s.poller i).any fun p => p.inst = inst

/-- The third submission is accepted only if the first two were not rejected and
the worker has a poller for each of its requests in flight on a polled instance. -/
def thirdAttended (cfg : Cfg) (s : State) : Entry → Bool
  | .call (.worker i) (.cpaDcCompressData2 inst session src dst frame .complete3)
      (st : CpaStatus) =>
      st ≠ success ||
        (!rejectedIn i .complete1 s.log && !rejectedIn i .complete2 s.log &&
          (⟨i, inst, session, src, dst, frame, .complete3⟩ :: s.world.inflight).all fun q =>
            q.worker ≠ i || !cfg.isPolled q.inst || hasPoller s i q.inst)
  | _ => true

def ThirdAttended (cfg : Cfg) (s : State) (e : Entry) : Prop := thirdAttended cfg s e = true

theorem ThirdAttended.accepted {cfg : Cfg} {s : State} {i inst : ℕ} {session : Ptr}
    {src dst : CpaBufferList} {frame : BlockId}
    (h : ThirdAttended cfg s (.call (.worker i)
      (.cpaDcCompressData2 inst session src dst frame .complete3) success)) :
    (rejectedIn i .complete1 s.log = false ∧ rejectedIn i .complete2 s.log = false) ∧
      ∀ q ∈ requestOf i inst session src dst frame .complete3 :: s.world.inflight,
        q.worker = i → cfg.isPolled q.inst = true → hasPoller s i q.inst = true := by
  simp only [ThirdAttended, thirdAttended, ne_eq, not_true_eq_false, decide_false, Bool.false_or,
    Bool.and_eq_true, Bool.not_eq_true', List.all_eq_true, Bool.or_eq_true, decide_eq_true_eq] at h
  refine ⟨h.1, fun q hq hi hp => ?_⟩
  rcases h.2 q hq with (hne | hp') | hhas
  · exact absurd hi hne
  · exact absurd (hp.symm.trans hp') (by decide)
  · exact hhas

/-! ### A worker waits for what was accepted -/

def waitRely (g : OpGhost) : (c : Call) → c.Resp → Prop
  | .cpaDcCompressData2 _ _ _ _ _ .complete3, (st : CpaStatus) =>
      st = success → g.stage .complete1 ≠ .rejected ∧ g.stage .complete2 ≠ .rejected
  | _, _ => True

/-- Nothing is submitted after the third submission, and every completion that is
waited for was accepted, as the third was. -/
def waitGuar (g : OpGhost) : Call → Prop
  | .completionWait k => g.stage k = .accepted ∧ g.stage .complete3 = .accepted
  | .cpaDcCompressData2 inst session src dst frame k =>
      g.stage .complete3 = .ready ∧ OpGuar g (.cpaDcCompressData2 inst session src dst frame k)
  | c => OpGuar g c

theorem meets_waitAll_accepted {g : OpGhost} (hg : ∀ k, g.stage k = .accepted) :
    Meets (opProtocol waitRely waitGuar) (waitAll success) (fun _ _ => True) g := by
  refine (meets_bind _ _ _ _).mpr (meets_call ⟨hg _, hg _⟩ fun ok _ => ?_)
  cases ok with
  | false => trivial
  | true =>
    have h₂ : (g.setStage .complete1 .waited).stage .complete2 = .accepted :=
      (g.setStage_other _ (by decide)).trans (hg _)
    have h₃ : (g.setStage .complete1 .waited).stage .complete3 = .accepted :=
      (g.setStage_other _ (by decide)).trans (hg _)
    refine (meets_bind _ _ _ _).mpr (meets_call ⟨h₂, h₃⟩ fun ok _ => ?_)
    cases ok with
    | false => trivial
    | true =>
      have h₃' : ((g.setStage .complete1 .waited).setStage .complete2 .waited).stage .complete3 =
          .accepted := (OpGhost.setStage_other _ _ (by decide)).trans h₃
      refine meets_call ⟨h₃', h₃'⟩ fun ok _ => ?_
      cases ok <;> trivial

theorem wait_rule : OpRule waitRely waitGuar (fun _ => True) where
  plain g c hc := by
    cases c <;> first | exact hc.elim | trivial
  free _ _ _ _ := trivial
  leave _ _ _ := trivial
  idle _ _ := trivial
  perform inst session src dst frame g hi hb := by
    have hfree : SubmitsFreely waitGuar := ⟨fun _ _ h => h, fun _ _ _ _ _ _ _ h₃ h => ⟨h₃, h⟩⟩
    refine meets_call trivial fun _ _ => ?_
    refine meets_seq (meets_submitAll hfree inst session src dst frame hi hb) fun s₃ g₁ h₁ => ?_
    obtain ⟨s₁, s₂, hst, g₂, e₁, e₂, hrely⟩ := h₁
    have hcheck : ∀ (st : CpaStatus) (g : OpGhost), Meets (opProtocol waitRely waitGuar)
        (whenOk st checkResults) (fun _ _ => True) g := by
      intro st g
      refine meets_of_only (C := fun c => c = .readResultsStatus) (fun _ => True) ?_
        (only_whenOk (only_bind ((only_perform _ _).mpr rfl) fun r => ?_)) trivial
      · rintro g c rfl -
        exact ⟨trivial, fun _ _ => trivial⟩
      · split <;> trivial
    by_cases h₃ : s₃ = success
    · subst h₃
      obtain ⟨n₁, n₂⟩ := hrely rfl
      have hacc : ∀ st : CpaStatus, outcome st ≠ .rejected → outcome st = .accepted := by
        intro st hne
        unfold outcome at hne ⊢
        split at hne
        · next hs => rw [if_pos hs]
        · exact absurd rfl hne
      have hall : ∀ k, g₁.stage k = .accepted := by
        intro k
        rw [hst]
        cases k with
        | complete1 => exact hacc s₁ (e₁ ▸ n₁)
        | complete2 => exact hacc s₂ (e₂ ▸ n₂)
        | complete3 => exact hacc success (by simp [outcome])
      exact meets_seq (meets_waitAll_accepted hall) fun st g' _ => hcheck st g'
    · rw [waitAll_ne h₃]
      exact hcheck s₃ g₁

theorem waitRely_of {cfg : Cfg} {s : State} {i : ℕ} {c : Call} {r : c.Resp}
    (h : ThirdAttended cfg s (.call (.worker i) c r)) : waitRely (opGhost i s.log) c r := by
  cases c <;> try trivial
  case cpaDcCompressData2 inst session src dst frame k =>
    cases k <;> try trivial
    rintro rfl
    obtain ⟨⟨h₁, h₂⟩, -⟩ := h.accepted
    refine ⟨fun hst => ?_, fun hst => ?_⟩
    · rw [rejectedIn_of_stage hst] at h₁
      cases h₁
    · rw [rejectedIn_of_stage hst] at h₂
      cases h₂

theorem waitGuar_opGuar {g : OpGhost} {c : Call} (h : waitGuar g c) : OpGuar g c := by
  cases c <;> first | exact h | exact h.2 | trivial

theorem workerMeets_wait {cfg : Cfg} {s : State}
    (hr : ReachVia (Step cfg) (ThirdAttended cfg) (initial cfg) s) (i : ℕ) :
    WorkerMeets i (opProtocol waitRely waitGuar) OpGhost.start (fun _ _ => True) s := by
  refine worker_meets (workerMeets_initial cfg (wait_rule.meets_worker i)) ?_ hr
  rintro s e s' - - ho c r rfl
  rw [ghost_eq_opGhost]
  exact waitRely_of ho

theorem wait_guar {cfg : Cfg} {s : State}
    (hr : ReachVia (Step cfg) (ThirdAttended cfg) (initial cfg) s) {i : ℕ} {c : Call}
    {f : c.Resp → Code CpaStatus} (hw : s.worker i = some (.call c f)) :
    waitGuar (opGhost i s.log) c := by
  have hmeets := ((workerMeets_wait hr i).left _ hw).1
  rwa [ghost_eq_opGhost] at hmeets

/-! ### The pollers of waiting workers -/

theorem hasPoller_step {cfg : Cfg} {s s' : State} {e : Entry} (hs : Step cfg s e s') {i inst : ℕ}
    (h : hasPoller s i inst = true) : hasPoller s' i inst = true := by
  cases hs with
  | main hm ha => exact h
  | @worker j c k r hrun hw ha =>
    show (spawnPoller j s.poller c r i).any _ = true
    rcases spawnPoller_eq j s.poller c r with hp | ⟨inst', rfl, ⟨left, hr⟩, hp⟩
    · rw [hp]
      exact h
    · obtain rfl : r = (true, left) := eq_of_heq hr
      have hnone : s.poller j = none := ha rfl
      have hij : i ≠ j := by
        rintro rfl
        simp [hasPoller, hnone] at h
      rw [hp, Function.update_of_ne hij]
      exact h
  | @poller j p c k r hrun hp hn ha =>
    by_cases hij : i = j
    · subst hij
      have hk : (k r).inst = p.inst := by
        obtain ⟨inst', pc⟩ := p
        cases pc <;> cases hn <;> rfl
      simpa [hasPoller, State.pollerStep, hp, hk] using h
    · simpa [hasPoller, State.pollerStep, hij] using h
  | callback hrun hq hresp => exact h

/-- A worker whose third submission is accepted has a poller for each of its
requests in flight on a polled instance. -/
def Attended (cfg : Cfg) (s : State) : Prop :=
  ∀ i, (opGhost i s.log).stage .complete3 = .accepted → ∀ q ∈ s.world.inflight, q.worker = i →
    cfg.isPolled q.inst = true → hasPoller s i q.inst = true

theorem stage_of_next {g : OpGhost} {c : Call} {r : c.Resp}
    (h : (g.next c r).stage .complete3 = .accepted) (hg : OpGuar g c) :
    (∃ inst session src dst frame, c = .cpaDcCompressData2 inst session src dst frame .complete3 ∧
      HEq r success) ∨ g.stage .complete3 = .accepted := by
  cases c <;> try exact .inr h
  case completionInit k =>
    cases k <;> first | exact .inr h | cases h
  case completionWait k =>
    simp only [OpGhost.next] at h
    split at h
    · cases k <;> first | exact .inr h | cases h
    · exact .inr h
  case cpaDcCompressData2 inst session src dst frame k =>
    cases k with
    | complete1 => exact .inr h
    | complete2 => exact .inr h
    | complete3 =>
      rw [OpGhost.next, OpGhost.setStage_same] at h
      split at h
      · next hr => exact .inl ⟨inst, session, src, dst, frame, rfl, heq_of_eq hr⟩
      · cases h
  case memAlloc a n =>
    cases r with
    | none => exact .inr h
    | some b => exact .inr h

theorem attended_step {cfg : Cfg} {s s' : State} {e : Entry} (h : Attended cfg s)
    (hguar : ∀ i c f, s.worker i = some (.call c f) → waitGuar (opGhost i s.log) c)
    (hs : Step cfg s e s') (ho : ThirdAttended cfg s e) : Attended cfg s' := by
  intro i hst q hq hi hp
  have hkeep : (opGhost i s.log).stage .complete3 = .accepted → q ∈ s.world.inflight →
      hasPoller s' i q.inst = true :=
    fun hst hq => hasPoller_step hs (h i hst q hq hi hp)
  cases hs with
  | @main c k r hm ha =>
    have hq' : q ∈ inflightAfter .main s.world.inflight c r := hq
    rw [inflightAfter_main] at hq'
    exact hkeep (by rwa [← opGhost_other (t := .main) (by simp) c r s.log]) hq'
  | @worker j c k r hrun hw ha =>
    have hg := hguar j c k hw
    have hq' : q ∈ inflightAfter (.worker j) s.world.inflight c r := hq
    have hst' : (opGhost i (.call (.worker j) c r :: s.log)).stage .complete3 = .accepted := hst
    by_cases hji : j = i
    · subst hji
      rw [opGhost_own] at hst'
      rcases stage_of_next hst' (waitGuar_opGuar hg) with
        ⟨inst, session, src, dst, frame, rfl, hr⟩ | hbefore
      · obtain rfl := eq_of_heq hr
        exact hasPoller_step (.worker hrun hw ha) (ho.accepted.2 q hq' hi hp)
      · rcases mem_inflightAfter hq' with hq' | ⟨_, _, _, _, _, _, _, _, rfl, -, -⟩
        · exact hkeep hbefore hq'
        · -- nothing is submitted any more
          exact absurd (hbefore.symm.trans hg.1) (by decide)
    · rcases mem_inflightAfter hq' with hq' | ⟨j', _, _, _, _, _, _, hj', -, -, rfl⟩
      · refine hkeep ?_ hq'
        rwa [opGhost_other fun he => hji (Tid.worker.inj he)] at hst'
      · exact absurd ((Tid.worker.inj hj').trans hi) hji
  | @poller j p c k r hrun hpp hn ha =>
    have hq' : q ∈ inflightAfter (.poller j) s.world.inflight c r := hq
    rw [inflightAfter_poller] at hq'
    exact hkeep (by rwa [← opGhost_other (t := .poller j) (by simp) c r s.log]) hq'
  | @callback q' l₁ l₂ st hrun hl hresp =>
    exact hkeep hst ((rest_sublist hl).subset hq)

/-- Once the flag is cleared all workers have returned, and before no poller exits. -/
structure PollersUp (s : State) : Prop where
  cleared : pollingCleared s.log = true → (mainGhost s.log).phase ≠ .starting ∧ WorkersGone s
  running : pollingCleared s.log = false → ∀ j p, s.poller j = some p →
    p.pc ≠ .exited ∧ (p.pc = .start ∨ s.world.gPollingDc = true)

theorem pollersUp_initial (cfg : Cfg) : PollersUp (initial cfg) :=
  ⟨fun h => (by cases h), fun _ _ _ h => (by cases h)⟩

theorem starting_of_next {g : MainGhost} {c : Call} {r : c.Resp}
    (h : (g.next c r).phase = .starting) : g.phase = .starting := by
  cases c <;> first | exact h | cases h | skip
  case pthreadCreateWorker i =>
    cases r with
    | false => cases h
    | true => exact h

section pollersUp
variable {cfg : Cfg} {s : State}

theorem pollersUp_main {c : Call} {r : c.Resp} {k : c.Resp → Code CpaStatus} (h : PollersUp s)
    (hlink : MainLinked s) (hg : (mainGhost s.log).Guar cfg c) (hm : s.main = some (.call c k))
    (ha : Allowed cfg s .main c r) : PollersUp (s.mainStep cfg c r (k r)) := by
  have hstep : Step cfg s (.call .main c r) (s.mainStep cfg c r (k r)) := .main hm ha
  have hstarting : (mainGhost (s.mainStep cfg c r (k r)).log).phase = .starting →
      (mainGhost s.log).phase = .starting := by
    intro hp
    have hp' : (mainGhost (.call .main c r :: s.log)).phase = .starting := hp
    rw [mainGhost_own] at hp'
    exact starting_of_next hp'
  have hgone : pollingCleared s.log = true → WorkersGone (s.mainStep cfg c r (k r)) := by
    intro hc
    refine (h.cleared hc).2.step hstep fun i he => (h.cleared hc).1 ?_
    cases he
    exact hg.1
  cases c <;> try
    exact ⟨fun hc => ⟨fun hp => (h.cleared hc).1 (hstarting hp), hgone hc⟩, h.running⟩
  case setPollingDc v =>
    refine ⟨fun _ => ⟨fun hp => ?_, fun i hi => ?_⟩, fun hc => by cases hc⟩
    · have hp' : (mainGhost (.call .main (.setPollingDc v) r :: s.log)).phase = .starting := hp
      rw [mainGhost_own] at hp'
      cases hp'
    · exact hlink.joined i (hg.2.2 i (hlink.created i hi))

theorem pollersUp_worker {i : ℕ} {c : Call} {r : c.Resp} {k : c.Resp → Code CpaStatus}
    (h : PollersUp s) (hc : c.OfWorker) (hw : s.worker i = some (.call c k)) :
    PollersUp (s.workerStep cfg i c r (k r)) := by
  have hpoll : pollingAfter s.world.gPollingDc c = s.world.gPollingDc := by
    cases c <;> first | rfl | exact hc.elim
  refine ⟨fun hcl => absurd hw (h.cleared hcl).2.not_running, fun hcl j p hp => ?_⟩
  show p.pc ≠ .exited ∧ (p.pc = .start ∨ pollingAfter s.world.gPollingDc c = true)
  rw [hpoll]
  have hp' : spawnPoller i s.poller c r j = some p := hp
  rcases spawnPoller_eq i s.poller c r with heq | ⟨inst, -, -, heq⟩
  · rw [heq] at hp'
    exact h.running hcl j p hp'
  · rw [heq] at hp'
    by_cases hij : j = i
    · subst hij
      rw [Function.update_self] at hp'
      cases hp'
      exact ⟨(by decide : PollerPc.start ≠ .exited), .inl rfl⟩
    · rw [Function.update_of_ne hij] at hp'
      exact h.running hcl j p hp'

theorem pollersUp_poller {i : ℕ} {p : Poller} {c : Call} {r : c.Resp} {k : c.Resp → Poller}
    (h : PollersUp s) (hp : s.poller i = some p) (hn : p.next = some ⟨c, k⟩)
    (ha : Allowed cfg s (.poller i) c r) : PollersUp (s.pollerStep cfg i c r (k r)) := by
  refine ⟨fun hc => ⟨?_, (h.cleared hc).2.of_eq rfl⟩, fun hc j p' hp' => ?_⟩
  · show (mainGhost (.call (.poller i) c r :: s.log)).phase ≠ .starting
    rw [mainGhost_other (by simp)]
    exact (h.cleared hc).1
  · have hflag : s.world.gPollingDc = true → pollingAfter s.world.gPollingDc c = true := by
      intro hf
      have hof := ofPoller_next hn
      cases c <;> first | exact hf | exact hof
    by_cases hij : j = i
    · subst hij
      have hk : k r = p' := by simpa [State.pollerStep] using hp'
      subst hk
      have hrun := h.running hc j p hp
      obtain ⟨inst, pc⟩ := p
      have hset : pc ≠ .start → s.world.gPollingDc = true := hrun.2.resolve_left
      cases pc with
      | start =>
        cases hn
        exact ⟨(by decide : PollerPc.test ≠ .exited), .inr rfl⟩
      | test =>
        cases hn
        have hr : r = true := ha.trans (hset (by decide))
        subst hr
        exact ⟨(by decide : PollerPc.poll ≠ .exited), .inr (hset (by decide))⟩
      | poll =>
        cases hn
        exact ⟨(by decide : PollerPc.polling ≠ .exited), .inr (hset (by decide))⟩
      | polling =>
        cases hn
        exact ⟨(by decide : PollerPc.sleep ≠ .exited), .inr (hset (by decide))⟩
      | sleep =>
        cases hn
        exact ⟨(by decide : PollerPc.test ≠ .exited), .inr (hset (by decide))⟩
      | exited => cases hn
    · have hold : s.poller j = some p' := by simpa [State.pollerStep, hij] using hp'
      exact ⟨(h.running hc j p' hold).1, (h.running hc j p' hold).2.imp_right hflag⟩

end pollersUp

theorem pollersUp_reached {cfg : Cfg} {ok : State → Entry → Prop} {s : State}
    (hr : ReachVia (Step cfg) ok (initial cfg) s) : PollersUp s := by
  refine hr.invariant (pollersUp_initial cfg) fun s e s' hreach h hst _ => ?_
  cases hst with
  | main hm ha =>
    exact pollersUp_main h (mainLinked_reached hreach) (main_guar hreach hm) hm ha
  | worker hrun hw ha => exact pollersUp_worker h (ofWorker_reached hreach hw) hw
  | poller hrun hp hn ha => exact pollersUp_poller h hp hn ha
  | callback hrun hq hresp => exact ⟨h.cleared, h.running⟩

/-! ### No wait is lost -/

theorem attended_reached {cfg : Cfg} {s : State}
    (hr : ReachVia (Step cfg) (ThirdAttended cfg) (initial cfg) s) :
    AllLinked s ∧ Attended cfg s := by
  refine ReachVia.invariant (I := fun s => AllLinked s ∧ Attended cfg s)
    ⟨allLinked_initial cfg, fun _ _ _ hq => absurd hq List.not_mem_nil⟩ ?_ hr
  rintro s e s' hreach ⟨hl, h⟩ hst ho
  exact ⟨allLinked_step (opMeets_reached hreach) hl hst,
    attended_step h (fun i c f hw => wait_guar hreach hw) hst ho⟩

theorem poller_running {cfg : Cfg} {s : State} {ok : State → Entry → Prop}
    (hr : ReachVia (Step cfg) ok (initial cfg) s) {i : ℕ} {c : Call} {f : c.Resp → Code CpaStatus}
    (hw : s.worker i = some (.call c f)) {j : ℕ} {p : Poller} (hp : s.poller j = some p) :
    p.pc ≠ .exited ∧ (p.pc = .start ∨ s.world.gPollingDc = true) := by
  have hup := pollersUp_reached hr
  refine hup.running ?_ j p hp
  by_contra hc
  exact (hup.cleared (by simpa using hc)).2.not_running hw

theorem noLostWait_reached {cfg : Cfg} {s : State}
    (hr : ReachVia (Step cfg) (ThirdAttended cfg) (initial cfg) s) : NoLostWait cfg s := by
  intro i k f hw
  obtain ⟨hl, hatt⟩ := attended_reached hr
  obtain ⟨hk, h₃⟩ := wait_guar hr hw
  have hone : pending s.world.inflight i k + s.world.sem i k = 1 := by
    have hlink := hl i k
    rwa [hk] at hlink
  by_cases hsem : 0 < s.world.sem i k
  · exact .inl hsem
  · obtain ⟨q, hq, hi, htag⟩ := exists_of_pending (l := s.world.inflight) (i := i) (k := k) (by omega)
    refine .inr ⟨q, hq, hi, htag, fun hpolled => ?_⟩
    have hhas := hatt i h₃ q hq hi hpolled
    rw [hasPoller, Option.any_eq_true] at hhas
    obtain ⟨p, hp, hinst⟩ := hhas
    exact ⟨i, p, hp, of_decide_eq_true hinst, (poller_running hr hw hp).1⟩

end QatDcSample
