import QatDcSample.StartStop

/-!
# Stopping the pollers

`sampleDcStopPolling` clears the flag that all pollers test and sleeps; it joins
none of them (`cpa_sample_utils.c:281-318`). A poller that comes to its first
statement later sets the flag again, and one that has tested the flag before may
still be about to poll.
-/

namespace QatDcSample
open EventProgram CpaStatus Transition

/-! ### What the log says of the stop -/

def pollingCleared (l : List Entry) : Bool :=
  l.any fun
    | .call .main (.setPollingDc _) _ => true
    | _ => false

def stopPollingDone (l : List Entry) : Bool :=
  l.any fun
    | .call .main (.osSleep _) _ => true
    | _ => false

def userStopped (l : List Entry) : Bool :=
  l.any fun
    | .call .main (.teardown .icpSalUserStop) _ => true
    | _ => false

/-- Once `sampleDcStopPolling` is over, every poll is of an instance that has not
been stopped, and comes before `icp_sal_userStop`. -/
def PollsBeforeStop (l : List Entry) : Prop :=
  ∀ j inst r l', .call (.poller j) (.icpSalDcPollInstance inst) r :: l' <:+ l →
    stopPollingDone l' = true → inst ∉ stoppedOn l' ∧ userStopped l' = false

theorem PollsBeforeStop.cons {e : Entry} {l : List Entry} (h : PollsBeforeStop l)
    (he : ∀ j inst r, e = .call (.poller j) (.icpSalDcPollInstance inst) r →
      stopPollingDone l = true → inst ∉ stoppedOn l ∧ userStopped l = false) :
    PollsBeforeStop (e :: l) := by
  intro j inst r l' hl hdone
  rcases List.suffix_cons_iff.mp hl with heq | hl
  · obtain ⟨rfl, rfl⟩ := List.cons.inj heq
    exact he j inst r rfl hdone
  · exact h j inst r l' hl hdone

/-! ### The condition -/

/-- A poller is between its test of the flag and its poll. -/
def pollsNext (cfg : Cfg) (s : State) (inst : ℕ) : Bool :=
  cfg.instances.any fun j => s.poller j = some ⟨inst, .poll⟩

def anyPollsNext (cfg : Cfg) (s : State) : Bool :=
  cfg.instances.any fun j => (s.poller j).any (·.pc = .poll)

/-- No poller sets the flag after the main thread has cleared it, and none has
tested the flag and not yet polled when its instance, or after
`sampleDcStopPolling` the user space driver, is stopped. -/
def pollersHeed (cfg : Cfg) (s : State) : Entry → Bool
  | .call (.poller _) (.setPollingDc _) _ => !pollingCleared s.log
  | .call .main (.cpaDcStopInstance inst) _ => !pollsNext cfg s inst
  | .call .main (.teardown .icpSalUserStop) _ => !(stopPollingDone s.log && anyPollsNext cfg s)
  | _ => true

def PollersHeed (cfg : Cfg) (s : State) (e : Entry) : Prop := pollersHeed cfg s e = true

/-! ### Pollers about to poll -/

def NoneAtPoll (s : State) (inst : ℕ) : Prop := ∀ j, s.poller j ≠ some ⟨inst, .poll⟩

theorem noneAtPoll_of_not_pollsNext {cfg : Cfg} {s : State} {inst : ℕ} (hi : ForInstances cfg s)
    (h : pollsNext cfg s inst = false) : NoneAtPoll s inst := by
  intro j hj
  have hmem := hi.poller j (by simp [hj])
  have hnot := List.any_eq_false.mp h j hmem
  exact hnot (by simp [hj])

theorem noneAtPoll_of_not_any {cfg : Cfg} {s : State} (hi : ForInstances cfg s)
    (h : anyPollsNext cfg s = false) (inst : ℕ) : NoneAtPoll s inst := by
  intro j hj
  have hmem := hi.poller j (by simp [hj])
  have hnot := List.any_eq_false.mp h j hmem
  exact hnot (by simp [hj])

/-! ### The invariant -/

/-- From the clearing of the flag on it stays cleared, and no poller comes to a
poll of what was stopped. -/
structure Quiet (s : State) : Prop where
  cleared : (mainGhost s.log).phase = .stopping ∨ (mainGhost s.log).phase = .stopped ∨
    stopPollingDone s.log = true ∨ stoppedOn s.log ≠ [] → pollingCleared s.log = true
  returned : userStopped s.log = true → (mainGhost s.log).phase = .returned
  flag : pollingCleared s.log = true → s.world.gPollingDc = false
  stopped : ∀ inst ∈ stoppedOn s.log, NoneAtPoll s inst
  userStop : stopPollingDone s.log = true → userStopped s.log = true → ∀ inst, NoneAtPoll s inst
  polls : PollsBeforeStop s.log

theorem quiet_initial (cfg : Cfg) : Quiet (initial cfg) where
  cleared h := by rcases h with h | h | h | h <;> first | cases h | exact absurd rfl h
  returned h := by cases h
  flag h := by cases h
  stopped _ h := absurd h List.not_mem_nil
  userStop h := by cases h
  polls _ _ _ _ h := by cases List.suffix_nil.mp h

structure Beside (e : Entry) (l : List Entry) : Prop where
  phase : (mainGhost (e :: l)).phase = (mainGhost l).phase
  cleared : pollingCleared (e :: l) = pollingCleared l
  done : stopPollingDone (e :: l) = stopPollingDone l
  user : userStopped (e :: l) = userStopped l
  stops : stoppedOn (e :: l) = stoppedOn l

/-- A step after which a poller is about to poll only if it was before or the
flag is set. -/
theorem Quiet.frame {s s' : State} {e : Entry} (h : Quiet s) (hlog : s'.log = e :: s.log)
    (hb : Beside e s.log)
    (hflag : pollingCleared s.log = true → s'.world.gPollingDc = s.world.gPollingDc)
    (hpc : ∀ j inst, s'.poller j = some ⟨inst, .poll⟩ →
      s.poller j = some ⟨inst, .poll⟩ ∨ s.world.gPollingDc = true)
    (hpolls : PollsBeforeStop (e :: s.log)) : Quiet s' := by
  have hkeep : ∀ inst, pollingCleared s.log = true → NoneAtPoll s inst → NoneAtPoll s' inst := by
    intro inst hc hn j hj
    rcases hpc j inst hj with hj | hset
    · exact hn j hj
    · rw [h.flag hc] at hset
      cases hset
  constructor
  · rw [hlog, hb.phase, hb.cleared, hb.done, hb.stops]
    exact h.cleared
  · rw [hlog, hb.user, hb.phase]
    exact h.returned
  · rw [hlog, hb.cleared]
    exact fun hc => (hflag hc).trans (h.flag hc)
  · rw [hlog, hb.stops]
    intro inst hinst
    refine hkeep inst (h.cleared (.inr (.inr (.inr fun hnil => ?_)))) (h.stopped inst hinst)
    rw [hnil] at hinst
    cases hinst
  · rw [hlog, hb.done, hb.user]
    exact fun hd hu inst => hkeep inst (h.cleared (.inr (.inr (.inl hd)))) (h.userStop hd hu inst)
  · rw [hlog]
    exact hpolls

section steps
variable {cfg : Cfg} {s : State}

theorem quiet_main {c : Call} {r : c.Resp} {k : c.Resp → Code CpaStatus} (h : Quiet s)
    (hi : ForInstances cfg s) (hg : (mainGhost s.log).Guar cfg c)
    (ho : PollersHeed cfg s (.call .main c r)) : Quiet (s.mainStep cfg c r (k r)) := by
  have hpolls : PollsBeforeStop (.call .main c r :: s.log) :=
    h.polls.cons fun j inst r' he => by cases he
  have hpc : ∀ j inst, (s.mainStep cfg c r (k r)).poller j = some ⟨inst, .poll⟩ →
      s.poller j = some ⟨inst, .poll⟩ ∨ s.world.gPollingDc = true := fun _ _ hj => .inl hj
  have hlog : (s.mainStep cfg c r (k r)).log = .call .main c r :: s.log := rfl
  have hnext : (mainGhost (.call .main c r :: s.log)).phase = ((mainGhost s.log).next c r).phase :=
    congrArg MainGhost.phase (mainGhost_own c r s.log)
  have hnever : ∀ {phase : Phase}, (mainGhost s.log).phase = phase → phase ≠ .returned →
      userStopped s.log = true → False := fun hp hne hu => hne (hp.symm.trans (h.returned hu))
  cases c <;> try
    exact h.frame hlog ⟨hnext, rfl, rfl, rfl, rfl⟩ (fun _ => rfl) hpc hpolls
  case setPollingDc v =>
    obtain ⟨rfl, hphase, -⟩ := hg
    exact ⟨fun _ => rfl, fun hu => (hnever hphase (by decide) hu).elim, fun _ => rfl, h.stopped,
      fun _ hu => (hnever hphase (by decide) hu).elim, hpolls⟩
  case osSleep ms =>
    exact ⟨fun _ => h.cleared (.inl hg), fun hu => (hnever hg (by decide) hu).elim, h.flag,
      h.stopped, fun _ hu => (hnever hg (by decide) hu).elim, hpolls⟩
  case cpaDcStopInstance inst =>
    have hnone : NoneAtPoll s inst :=
      noneAtPoll_of_not_pollsNext hi (by simpa [PollersHeed, pollersHeed] using ho)
    refine ⟨fun _ => h.cleared (.inr (.inl hg.1)), fun hu => (hnever hg.1 (by decide) hu).elim,
      h.flag, fun inst' hinst => ?_, h.userStop, hpolls⟩
    rcases List.mem_cons.mp hinst with rfl | hinst
    · exact hnone
    · exact h.stopped inst' hinst
  case teardown f =>
    cases f with
    | qaeMemDestroy =>
      exact h.frame hlog ⟨hnext, rfl, rfl, rfl, rfl⟩ (fun _ => rfl) hpc hpolls
    | icpSalUserStop =>
      have hret : (mainGhost s.log).phase = .returned := by
        rcases hg with hg | ⟨hf, -⟩
        · exact hg
        · cases hf
      refine ⟨h.cleared, fun _ => hret, h.flag, h.stopped, fun hd _ => ?_, hpolls⟩
      have hdone : stopPollingDone s.log = true := hd
      have hnone : anyPollsNext cfg s = false := by simpa [PollersHeed, pollersHeed, hdone] using ho
      exact noneAtPoll_of_not_any (s := s) hi hnone
  case returnSample st =>
    refine ⟨fun hp => ?_, fun _ => rfl, h.flag, h.stopped, h.userStop, hpolls⟩
    rcases hp with hp | hp | hp
    · cases hp
    · cases hp
    · exact h.cleared (.inr (.inr hp))
  case pthreadCreateWorker i =>
    have hphase : (mainGhost s.log).phase = .starting := hg.1
    refine ⟨fun hp => ?_, fun hu => (hnever hphase (by decide) hu).elim, h.flag, h.stopped,
      h.userStop, hpolls⟩
    have hstarted : (mainGhost (s.mainStep cfg (.pthreadCreateWorker i) r (k r)).log).phase ≠
        .stopping ∧ (mainGhost (s.mainStep cfg (.pthreadCreateWorker i) r (k r)).log).phase ≠
        .stopped := by
      rw [hlog, mainGhost_own]
      cases r with
      | false => exact ⟨by simp [MainGhost.next], by simp [MainGhost.next]⟩
      | true => exact ⟨by simp [MainGhost.next, hphase], by simp [MainGhost.next, hphase]⟩
    rcases hp with hp | hp | hp
    · exact absurd hp hstarted.1
    · exact absurd hp hstarted.2
    · exact h.cleared (.inr (.inr hp))

theorem quiet_worker {i : ℕ} {c : Call} {r : c.Resp} {k : c.Resp → Code CpaStatus} (h : Quiet s)
    (hc : c.OfWorker) : Quiet (s.workerStep cfg i c r (k r)) := by
  have hstops : ∀ inst, c ≠ .cpaDcStopInstance inst := by
    rintro inst rfl
    exact hc
  have hpoll : pollingAfter s.world.gPollingDc c = s.world.gPollingDc := by
    cases c <;> first | rfl | exact hc.elim
  refine h.frame (e := .call (.worker i) c r) rfl ⟨?_, rfl, rfl, rfl, ?_⟩ (fun _ => hpoll)
    (fun j inst hj => .inl ?_)
    (h.polls.cons fun j inst r' he => by cases he)
  · rw [mainGhost_other (by simp)]
  · exact stoppedOn_other hstops r s.log
  -- a poller that was just created is at its start
  have hj' : spawnPoller i s.poller c r j = some ⟨inst, .poll⟩ := hj
  rcases spawnPoller_eq i s.poller c r with hp | ⟨inst', -, -, hp⟩
  · rwa [hp] at hj'
  · rw [hp] at hj'
    by_cases hij : j = i
    · subst hij
      rw [Function.update_self] at hj'
      cases hj'
    · rwa [Function.update_of_ne hij] at hj'

/-- A poller that does not come to a poll, or has found the flag set. -/
theorem Quiet.pollerStep {i : ℕ} {c : Call} {r : c.Resp} {p : Poller} (h : Quiet s)
    (hstop : ∀ inst, c ≠ .cpaDcStopInstance inst)
    (hflag : pollingCleared s.log = true →
      (s.pollerStep cfg i c r p).world.gPollingDc = s.world.gPollingDc)
    (hpc : p.pc = .poll → s.world.gPollingDc = true)
    (hpolls : PollsBeforeStop (.call (.poller i) c r :: s.log)) :
    Quiet (s.pollerStep cfg i c r p) := by
  have hphase : (mainGhost (.call (.poller i) c r :: s.log)).phase = (mainGhost s.log).phase := by
    rw [mainGhost_other (by simp)]
  refine h.frame rfl ⟨hphase, rfl, rfl, rfl, stoppedOn_other hstop r s.log⟩ hflag
    (fun j inst hj => ?_) hpolls
  by_cases hij : j = i
  · subst hij
    have hk : some p = some ⟨inst, .poll⟩ := by
      simpa only [State.pollerStep, Function.update_self] using hj
    exact .inr (hpc (by rw [Option.some.inj hk]))
  · exact .inl (by simpa only [State.pollerStep, Function.update_of_ne hij] using hj)

theorem quiet_poller {i : ℕ} {p : Poller} {c : Call} {r : c.Resp} {k : c.Resp → Poller}
    (h : Quiet s) (hp : s.poller i = some p) (hn : p.next = some ⟨c, k⟩)
    (ha : Allowed cfg s (.poller i) c r) (ho : PollersHeed cfg s (.call (.poller i) c r)) :
    Quiet (s.pollerStep cfg i c r (k r)) := by
  obtain ⟨inst, pc⟩ := p
  cases pc with
  | start =>
    cases hn
    have hclear : pollingCleared s.log = false := by simpa [PollersHeed, pollersHeed] using ho
    have hno : pollingCleared s.log ≠ true := by simp [hclear]
    exact h.pollerStep (by simp) (fun hc => absurd hc hno) (fun hk => by cases hk)
      (h.polls.cons fun _ _ _ he => by cases he)
  | test =>
    cases hn
    refine h.pollerStep (by simp) (fun _ => rfl) (fun hk => ?_) (h.polls.cons fun _ _ _ he => by cases he)
    cases r with
    | false => cases hk
    | true => exact ha.symm
  | poll =>
    cases hn
    refine h.pollerStep (by simp) (fun _ => rfl) (fun hk => by cases hk) (h.polls.cons ?_)
    intro j inst' r' he hdone
    cases he
    refine ⟨fun hstop => h.stopped inst hstop i hp, ?_⟩
    by_contra hu
    exact h.userStop hdone (by simpa using hu) inst i hp
  | polling =>
    cases hn
    exact h.pollerStep (by simp) (fun _ => rfl) (fun hk => by cases hk)
      (h.polls.cons fun _ _ _ he => by cases he)
  | sleep =>
    cases hn
    exact h.pollerStep (by simp) (fun _ => rfl) (fun hk => by cases hk)
      (h.polls.cons fun _ _ _ he => by cases he)
  | exited => cases hn

end steps

theorem quiet_reached {cfg : Cfg} {s : State}
    (hr : ReachVia (Step cfg) (PollersHeed cfg) (initial cfg) s) : Quiet s := by
  refine hr.invariant (quiet_initial cfg) fun s e s' hreach h hst ho => ?_
  cases hst with
  | main hm ha => exact quiet_main h (forInstances_reached hreach) (main_guar hreach hm) ho
  | worker hrun hw ha => exact quiet_worker h (ofWorker_reached hreach hw)
  | poller hrun hp hn ha => exact quiet_poller h hp hn ha ho
  | @callback q l₁ l₂ st hrun hq hresp =>
    exact h.frame (e := .callback q st) rfl ⟨rfl, rfl, rfl, rfl, rfl⟩ (fun _ => rfl)
      (fun _ _ hj => .inl hj) (h.polls.cons fun _ _ _ he => by cases he)

/-- In every run in which no poller sets the flag after it was cleared, and each
that has tested it has polled before its instance and the driver are stopped,
nothing is polled after `sampleDcStopPolling` that is already stopped. -/
theorem polls_before_stop (cfg : Cfg) (s : State)
    (hr : ReachVia (Step cfg) (PollersHeed cfg) (initial cfg) s) : PollsBeforeStop s.log :=
  (quiet_reached hr).polls

def onePolled : Cfg := sampleCfg 1 one_in_range true

/-- Every call succeeds except `cpaDcGetSessionSize`: the worker ends right after
it has started the poller. -/
def sessionSizeFails (cfg : Cfg) (s : State) : (c : Call) → c.Resp
  | .apiSize .cpaDcGetSessionSize _ => (fail, 0)
  | c => allGood cfg s c

def startPollerMoves : List Move := createMoves ++ List.replicate 13 (.worker 0)

set_option maxRecDepth 20000 in
/-- The poller polls once and sleeps; the main thread joins the worker and stops
the pollers, this one exits, and the instance and the driver are stopped. -/
theorem polls_before_stop_run :
    ∃ s : State, userStopped s.log = true ∧ PollsBeforeStop s.log := by
  have hrun : (replay onePolled (sessionSizeFails onePolled) (pollersHeed onePolled)
      (initial onePolled) (startPollerMoves ++ List.replicate 5 (.poller 0) ++
        List.replicate 3 .main ++ [.poller 0] ++ List.replicate 5 .main)).any
      (fun s => userStopped s.log) = true := by decide +kernel
  obtain ⟨s, hr, hT⟩ := exists_reached hrun
  exact ⟨s, hT, polls_before_stop onePolled s hr⟩

def pollsStopped (l : List Entry) : Bool :=
  match l with
  | .call (.poller _) (.icpSalDcPollInstance inst) _ :: l => stopPollingDone l && inst ∈ stoppedOn l
  | _ => false

theorem not_pollsBeforeStop {l : List Entry} (h : pollsStopped l = true) : ¬ PollsBeforeStop l := by
  intro hpolls
  unfold pollsStopped at h
  split at h
  · next j inst r l' =>
    simp only [Bool.and_eq_true, decide_eq_true_eq] at h
    exact (hpolls j inst r l' (List.suffix_refl _) h.1).1 h.2
  · cases h

set_option maxRecDepth 20000 in
/-- The poller is scheduled for the first time when its instance is stopped: it
sets the flag, finds it set, and polls. -/
theorem polls_after_stop :
    ∃ s, Reach (Step onePolled) (initial onePolled) s ∧ ¬ PollsBeforeStop s.log := by
  have hrun : (replay onePolled (sessionSizeFails onePolled) (fun _ _ => true) (initial onePolled)
      (startPollerMoves ++ List.replicate 4 .main ++ List.replicate 3 (.poller 0))).any
      (fun s => pollsStopped s.log) = true := by decide +kernel
  obtain ⟨s, hr, hT⟩ := exists_reached hrun
  exact ⟨s, hr.reach, not_pollsBeforeStop hT⟩

end QatDcSample
