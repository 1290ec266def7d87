import QatDcSample.Blocks
import QatDcSample.InFlight
import QatDcSample.Replay

/-!
# Memory of requests in flight

When does a worker keep everything its accepted requests refer to until their
callbacks have run? `compPerformOp` decides by the status of the last submission
alone whether it waits, and stops waiting at the first interrupted
`COMPLETION_WAIT`; it then releases in any case ("At this stage, the callback
function has returned", line 314).
-/

namespace QatDcSample
open EventProgram Prog BlockMemory CpaStatus Transition

/-- Worker `i` made its submission for `k`, and the status satisfied `p`. -/
def submittedIn (p : CpaStatus → Bool) (i : ℕ) (k : Completion) (l : List Entry) : Bool :=
  l.any fun
    | .call (.worker j) (.cpaDcCompressData2 _ _ _ _ _ k') (st : CpaStatus) =>
        j = i ∧ k' = k ∧ p st
    | _ => false

def acceptedIn : ℕ → Completion → List Entry → Bool := submittedIn (· = success)

def rejectedIn : ℕ → Completion → List Entry → Bool := submittedIn (· ≠ success)

theorem submittedIn_of_stage {p : CpaStatus → Bool} {stage : Submission}
    (hstage : stage = .accepted ∨ stage = .rejected) (hp : ∀ st, outcome st = stage → p st = true)
    {i : ℕ} {k : Completion} {l : List Entry} (h : (opGhost i l).stage k = stage) :
    submittedIn p i k l = true := by
  have hne : ∀ {st : Submission}, st ≠ .accepted → st ≠ .rejected → st ≠ stage := by
    rintro st ha hr rfl
    exact hstage.elim ha hr
  induction l with
  | nil => exact (hne (by decide : Submission.idle ≠ .accepted) (by decide) h).elim
  | cons e l ih =>
    simp only [submittedIn, List.any_cons, Bool.or_eq_true] at ih ⊢
    cases e with
    | callback q st => exact .inr (ih h)
    | call t c r =>
      by_cases ht : t = .worker i
      · subst ht
        rw [opGhost_own] at h
        cases c <;> try exact .inr (ih h)
        case completionInit k' =>
          by_cases hk : k = k'
          · subst hk
            rw [OpGhost.next, OpGhost.setStage_same] at h
            exact absurd h (hne (by decide) (by decide))
          · exact .inr (ih (by rwa [OpGhost.next, OpGhost.setStage_other _ _ hk] at h))
        case completionWait k' =>
          simp only [OpGhost.next] at h
          split at h
          · by_cases hk : k = k'
            · subst hk
              rw [OpGhost.setStage_same] at h
              exact absurd h (hne (by decide) (by decide))
            · exact .inr (ih (by rwa [OpGhost.setStage_other _ _ hk] at h))
          · exact .inr (ih h)
        case cpaDcCompressData2 inst session src dst frame k' =>
          by_cases hk : k = k'
          · subst hk
            rw [OpGhost.next, OpGhost.setStage_same] at h
            exact .inl (by simp [hp r h])
          · exact .inr (ih (by rwa [OpGhost.next, OpGhost.setStage_other _ _ hk] at h))
        case memAlloc a n =>
          cases r with
          | none => exact .inr (ih h)
          | some b => exact .inr (ih h)
      · rw [opGhost_other ht] at h
        exact .inr (ih h)

theorem acceptedIn_of_stage {i : ℕ} {k : Completion} {l : List Entry}
    (h : (opGhost i l).stage k = .accepted) : acceptedIn i k l = true :=
  submittedIn_of_stage (.inl rfl) (fun st hst => by simpa [outcome] using hst) h

theorem rejectedIn_of_stage {i : ℕ} {k : Completion} {l : List Entry}
    (h : (opGhost i l).stage k = .rejected) : rejectedIn i k l = true :=
  submittedIn_of_stage (.inr rfl) (fun st hst => by simpa [outcome] using hst) h

/-! ### What a worker holds -/

theorem owned_live {cfg : Cfg} {s : State} {i : ℕ} {g : OpGhost} {c : Call} {r : c.Resp}
    (h : ∀ b ∈ g.owned, s.world.mem.Live b) (ha : Allowed cfg s (.worker i) c r) :
    ∀ b ∈ (g.next c r).owned, (memAfter (.worker i) s.world.mem c r).Live b := by
  intro b hb
  cases c <;> try exact live_memAfter (h b hb) id
  case memAlloc a n =>
    cases r with
    | none => exact h b hb
    | some x =>
      obtain ⟨x, base⟩ := x
      have hx : x = s.world.mem.next := ha.1
      rcases List.mem_cons.mp hb with rfl | hb
      · exact (s.world.mem.live_alloc _ _ _).mpr (.inr hx)
      · exact (s.world.mem.live_alloc _ _ _).mpr (.inl (h b hb))
  case memFree a b' =>
    have hb' := OpGhost.mem_drop.mp hb
    exact (s.world.mem.live_free b' b).mpr ⟨h b hb'.1, hb'.2⟩
  case leaveFrame b' =>
    have hb' := OpGhost.mem_drop.mp hb
    exact (s.world.mem.live_free b' b).mpr ⟨h b hb'.1, hb'.2⟩
  case enterFrame =>
    obtain ⟨x, base⟩ := r
    have hx : x = s.world.mem.next := ha.1
    rcases List.mem_cons.mp hb with rfl | hb
    · exact (s.world.mem.live_alloc _ _ _).mpr (.inr hx)
    · exact (s.world.mem.live_alloc _ _ _).mpr (.inl (h b hb))
  case completionWait k =>
    refine live_memAfter (h b ?_) id
    simp only [OpGhost.next] at hb
    split at hb
    · exact hb
    · exact hb

theorem mem_inflightAfter {t : Tid} {l : List Request} {c : Call} {r : c.Resp} {q : Request}
    (h : q ∈ inflightAfter t l c r) :
    q ∈ l ∨ ∃ i inst session src dst frame k, t = .worker i ∧
      c = .cpaDcCompressData2 inst session src dst frame k ∧
      HEq r success ∧ q = requestOf i inst session src dst frame k := by
  rcases inflightAfter_eq t l c r with he | ⟨i, inst, session, src, dst, frame, k, ht, hc, hr, he⟩
  · rw [he] at h
    exact .inl h
  · rw [he] at h
    rcases List.mem_cons.mp h with rfl | h
    · exact .inr ⟨i, inst, session, src, dst, frame, k, ht, hc, hr, rfl⟩
    · exact .inl h

/-! ### Waiting for what was accepted -/

/-- The step answers no wait with a failure, and rejects the third submission only
if neither of the first two was accepted. -/
def awaitsAccepted (s : State) : Entry → Bool
  | .call (.worker _) (.completionWait _) ok => ok
  | .call (.worker i) (.cpaDcCompressData2 _ _ _ _ _ .complete3) (st : CpaStatus) =>
      st = success || !(acceptedIn i .complete1 s.log || acceptedIn i .complete2 s.log)
  | _ => true

def AwaitsAccepted (s : State) (e : Entry) : Prop := awaitsAccepted s e = true

def awaitRely (g : OpGhost) : (c : Call) → c.Resp → Prop
  | .completionWait _, ok => ok = true
  | .cpaDcCompressData2 _ _ _ _ _ .complete3, (st : CpaStatus) =>
      st = success ∨ (g.stage .complete1 ≠ .accepted ∧ g.stage .complete2 ≠ .accepted)
  | _, _ => True

def settledGuar (g : OpGhost) : Call → Prop
  | .memFree _ _ => g.Settled
  | .leaveFrame _ => g.Settled
  | c => OpGuar g c

theorem meets_waitAll (g : OpGhost) :
    Meets (opProtocol awaitRely settledGuar) (waitAll success)
      (fun _ g' => ∀ k, g'.stage k = .waited) g := by
  refine (meets_bind _ _ _ _).mpr ?_
  refine meets_call trivial fun ok hok => ?_
  obtain rfl : ok = true := hok
  refine (meets_bind _ _ _ _).mpr ?_
  refine meets_call trivial fun ok hok => ?_
  obtain rfl : ok = true := hok
  refine meets_call trivial fun ok hok => ?_
  obtain rfl : ok = true := hok
  intro k
  cases k <;> rfl

theorem settled_rule : OpRule awaitRely settledGuar (fun stage => ∀ k, stage k ≠ .accepted) where
  plain g c hc := by
    cases c <;> first | exact hc.elim | trivial
  free g a b h := h
  leave g b h := h
  idle stage h k := by simp [h k]
  perform inst session src dst frame g hi hb := by
    have hfree : SubmitsFreely settledGuar := ⟨fun _ _ h => h, fun _ _ _ _ _ _ _ _ h => h⟩
    refine meets_call trivial fun _ _ => ?_
    refine meets_seq (meets_submitAll hfree inst session src dst frame hi hb) fun s₃ g₁ h₁ => ?_
    obtain ⟨s₁, s₂, hst, g₂, e₁, e₂, hrely⟩ := h₁
    have hcheck : ∀ st : CpaStatus, Only (fun c => c = .readResultsStatus)
        (whenOk st checkResults) := fun st =>
      only_whenOk (only_bind ((only_perform _ _).mpr rfl) fun r => by split <;> trivial)
    have hkeep : Keeps (opProtocol awaitRely settledGuar) (fun c => c = .readResultsStatus)
        (fun g => ∀ k, g.stage k ≠ .accepted) := by
      rintro g c rfl hg
      exact ⟨trivial, fun _ _ => hg⟩
    by_cases h₃ : s₃ = success
    · subst h₃
      refine meets_seq (meets_waitAll g₁) fun st g' hg' => ?_
      exact hkeep.meets (hcheck st) fun k => by simp [hg' k]
    · -- the waits are skipped; nothing was accepted
      have hnone : ∀ k, g₁.stage k ≠ .accepted := by
        rcases hrely with h | ⟨n₁, n₂⟩
        · exact absurd h h₃
        · intro k
          rw [hst]
          cases k with
          | complete1 => rwa [e₁] at n₁
          | complete2 => rwa [e₂] at n₂
          | complete3 => simp [submitted, outcome, h₃]
      rw [waitAll_ne h₃]
      exact hkeep.meets (hcheck s₃) hnone

/-! ### A worker alone -/

structure Alone (s : State) : Prop where
  main : s.main = none
  worker : ∀ i p, s.worker i = some p → i = 0
  inflight : ∀ q ∈ s.world.inflight, q.worker = 0

theorem alone_solo (cfg : Cfg) (p : Code CpaStatus) : Alone (solo cfg p) := by
  refine ⟨rfl, fun i p' h => ?_, fun q hq => absurd hq List.not_mem_nil⟩
  by_contra hi
  simp [solo, hi] at h

theorem alone_step {cfg : Cfg} {s s' : State} {e : Entry} (h : Alone s) (hs : Step cfg s e s') :
    Alone s' := by
  cases hs with
  | @main c k r hm ha =>
    rw [h.main] at hm
    contradiction
  | @worker j c k r hrun hj ha =>
    obtain rfl := h.worker j _ hj
    refine ⟨h.main, fun i p hp => ?_, fun q hq => ?_⟩
    · by_contra hi
      simp only [State.workerStep, Function.update_of_ne hi] at hp
      exact hi (h.worker i p hp)
    · have hq' : q ∈ inflightAfter (.worker 0) s.world.inflight c r := hq
      rcases mem_inflightAfter hq' with hq' | ⟨i, _, _, _, _, _, _, hi, -, -, rfl⟩
      · exact h.inflight q hq'
      · exact (Tid.worker.inj hi).symm
  | @poller j p c k r hrun hj hn ha =>
    refine ⟨h.main, h.worker, fun q hq => h.inflight q ?_⟩
    exact inflightAfter_poller j s.world.inflight c r ▸ hq
  | @callback q l₁ l₂ st hrun hq hr =>
    exact ⟨h.main, h.worker, fun q' hq' => h.inflight q' ((rest_sublist hq).subset hq')⟩

def RequestMemoryLive (s : State) : Prop :=
  ∀ q ∈ s.world.inflight, ∀ b ∈ q.blocks, s.world.mem.Live b

instance (s : State) : Decidable (RequestMemoryLive s) :=
  inferInstanceAs (Decidable (∀ q ∈ s.world.inflight, ∀ b ∈ q.blocks, s.world.mem.Live b))

structure Handed (s : State) : Prop where
  live : ∀ b ∈ (opGhost 0 s.log).owned, s.world.mem.Live b
  held : ∀ q ∈ s.world.inflight, ∀ b ∈ q.blocks, b ∈ (opGhost 0 s.log).owned

theorem Handed.requestMemoryLive {s : State} (h : Handed s) : RequestMemoryLive s :=
  fun q hq b hb => h.live b (h.held q hq b hb)

theorem handed_solo (cfg : Cfg) (p : Code CpaStatus) : Handed (solo cfg p) :=
  ⟨fun _ hb => absurd hb List.not_mem_nil, fun _ hq => absurd hq List.not_mem_nil⟩

theorem next_owned {g : OpGhost} {c : Call} (r : c.Resp) {b : BlockId} (h : b ∈ g.owned)
    (hc : ¬ Releases c b) : b ∈ (g.next c r).owned := by
  cases c <;> try exact h
  case memAlloc a n =>
    cases r with
    | none => exact h
    | some x => exact List.mem_cons_of_mem _ h
  case enterFrame => exact List.mem_cons_of_mem _ h
  case memFree a b' => exact OpGhost.mem_drop.mpr ⟨h, fun he => hc he.symm⟩
  case leaveFrame b' => exact OpGhost.mem_drop.mpr ⟨h, fun he => hc he.symm⟩
  case completionWait k =>
    simp only [OpGhost.next]
    split <;> exact h

theorem not_inflight_of_settled {s : State} {i : ℕ} (hl : AllLinked s)
    (hset : (opGhost i s.log).Settled) {q : Request} (hq : q ∈ s.world.inflight)
    (hi : q.worker = i) : False := by
  subst hi
  have hp := pending_pos hq
  have h0 := ((hl q.worker q.tag).of_ne (hset q.tag)).1
  omega

theorem settledGuar_releases {g : OpGhost} {c : Call} {b : BlockId} (h : settledGuar g c)
    (hc : Releases c b) : g.Settled := by
  cases c <;> first | exact h | exact hc.elim

theorem settledGuar_opGuar {g : OpGhost} {c : Call} (h : settledGuar g c) : OpGuar g c := by
  cases c <;> first | exact h | trivial

theorem handed_step {cfg : Cfg} {s s' : State} {e : Entry} {Q : CpaStatus → OpGhost → Prop}
    (hm : WorkerMeets 0 (opProtocol awaitRely settledGuar) OpGhost.start Q s) (hone : Alone s)
    (hl : AllLinked s) (h : Handed s) (hs : Step cfg s e s') : Handed s' := by
  cases hs with
  | @main c k r hc ha =>
    rw [hone.main] at hc
    contradiction
  | @worker j c k r hrun hj ha =>
    obtain rfl := hone.worker j _ hj
    have hg : settledGuar (opGhost 0 s.log) c := by
      have hmeets := (hm.left _ hj).1
      rwa [ghost_eq_opGhost] at hmeets
    constructor
    · show ∀ b ∈ (opGhost 0 (.call (.worker 0) c r :: s.log)).owned, _
      rw [opGhost_own]
      exact owned_live h.live ha
    · show ∀ q ∈ inflightAfter (.worker 0) s.world.inflight c r, ∀ b ∈ q.blocks,
        b ∈ (opGhost 0 (.call (.worker 0) c r :: s.log)).owned
      rw [opGhost_own]
      intro q hq b hb
      rcases mem_inflightAfter hq with hq | ⟨i, inst, session, src, dst, frame, k', hi, hc, -, rfl⟩
      · refine next_owned r (h.held q hq b hb) fun hrel => ?_
        exact not_inflight_of_settled hl (settledGuar_releases hg hrel) hq (hone.inflight q hq)
      · subst hc
        exact (settledGuar_opGuar hg).2 b hb
  | @poller j p c k r hrun hj hn ha =>
    have hlog : opGhost 0 (.call (.poller j) c r :: s.log) = opGhost 0 s.log :=
      opGhost_other (by simp) c r s.log
    have hmem : memAfter (.poller j) s.world.mem c r = s.world.mem :=
      memAfter_poller _ _ (ofPoller_next hn) r
    constructor
    · show ∀ b ∈ (opGhost 0 (.call (.poller j) c r :: s.log)).owned,
        (memAfter (.poller j) s.world.mem c r).Live b
      rw [hlog, hmem]
      exact h.live
    · show ∀ q ∈ inflightAfter (.poller j) s.world.inflight c r, ∀ b ∈ q.blocks,
        b ∈ (opGhost 0 (.call (.poller j) c r :: s.log)).owned
      rw [hlog, inflightAfter_poller]
      exact h.held
  | @callback q l₁ l₂ st hrun hq hr =>
    exact ⟨h.live, fun q' hq' => h.held q' ((rest_sublist hq).subset hq')⟩

theorem awaitRely_of {s : State} {i : ℕ} {c : Call} {r : c.Resp}
    (h : AwaitsAccepted s (.call (.worker i) c r)) : awaitRely (opGhost i s.log) c r := by
  cases c <;> try trivial
  case cpaDcCompressData2 inst session src dst frame k =>
    cases k <;> try trivial
    simp only [AwaitsAccepted, awaitsAccepted, Bool.or_eq_true, decide_eq_true_eq,
      Bool.not_eq_true', Bool.or_eq_false_iff] at h
    rcases h with h | ⟨h₁, h₂⟩
    · exact .inl h
    · refine .inr ⟨fun hst => ?_, fun hst => ?_⟩
      · simp [acceptedIn_of_stage hst] at h₁
      · simp [acceptedIn_of_stage hst] at h₂

theorem handed_of_awaits {cfg : Cfg} {s : State}
    (hr : ReachVia (Step cfg) AwaitsAccepted (solo cfg (enqueueQATWork 0)) s) : Handed s := by
  have hbase : ∀ s, ReachVia (Step cfg) AwaitsAccepted (solo cfg (enqueueQATWork 0)) s →
      ∀ i, WorkerMeets i (opProtocol (fun _ _ _ => True) OpGuar) OpGhost.start
        (fun _ _ => True) s :=
    fun s hr i => worker_meets_always (fun _ _ _ => trivial)
      (workerMeets_solo cfg i (opGuar_rule.meets_worker 0)) hr
  have hset : ∀ s, ReachVia (Step cfg) AwaitsAccepted (solo cfg (enqueueQATWork 0)) s →
      WorkerMeets 0 (opProtocol awaitRely settledGuar) OpGhost.start (fun _ g => g.Settled) s := by
    intro s hr
    refine worker_meets (workerMeets_solo cfg 0 (settled_rule.meets_worker 0)) ?_ hr
    rintro s e s' - - ho c r rfl
    rw [ghost_eq_opGhost]
    exact awaitRely_of ho
  have hall : Alone s ∧ AllLinked s ∧ Handed s := by
    refine ReachVia.invariant (I := fun s => Alone s ∧ AllLinked s ∧ Handed s)
      ⟨alone_solo cfg _, allLinked_solo cfg _, handed_solo cfg _⟩ ?_ hr
    rintro s e s' hreach ⟨hone, hl, hh⟩ hst -
    exact ⟨alone_step hone hst, allLinked_step (hbase s hreach) hl hst,
      handed_step (hset s hreach) hone hl hh hst⟩
  exact hall.2.2

/-- In every run that fails no wait and accepts the third submission unless it
accepted neither of the first two, requests in flight keep their memory. -/
theorem request_memory_live_of_awaits (cfg : Cfg) (s : State)
    (hr : ReachVia (Step cfg) AwaitsAccepted (solo cfg (enqueueQATWork 0)) s) :
    RequestMemoryLive s :=
  (handed_of_awaits hr).requestMemoryLive

set_option maxRecDepth 20000 in
/-- Every call succeeds; the worker is about to wait with three requests in flight. -/
theorem request_memory_live_of_awaits_run :
    ∃ s, s.world.inflight.length = 3 ∧ RequestMemoryLive s := by
  have hrun : (replay oneUnpolled (allGood oneUnpolled) awaitsAccepted
      (solo oneUnpolled (enqueueQATWork 0)) (List.replicate 32 (.worker 0))).any
      (fun s => s.world.inflight.length = 3) = true := by decide +kernel
  obtain ⟨s, hr, hlen⟩ := exists_reached hrun
  exact ⟨s, of_decide_eq_true hlen, request_memory_live_of_awaits oneUnpolled s hr⟩

set_option maxRecDepth 20000 in
/-- The third submission is rejected: the waits are skipped and the source buffer
is freed while two requests are in flight. -/
theorem request_memory_freed_in_flight :
    ∃ s, Reach (Step oneUnpolled) (solo oneUnpolled (enqueueQATWork 0)) s ∧
      ¬ RequestMemoryLive s := by
  have hrun : (replay oneUnpolled (thirdRejected oneUnpolled) (fun _ _ => true)
      (solo oneUnpolled (enqueueQATWork 0)) (List.replicate 33 (.worker 0))).any
      (fun s => ¬ RequestMemoryLive s) = true := by decide +kernel
  obtain ⟨s, hr, hlive⟩ := exists_reached hrun
  exact ⟨s, hr.reach, of_decide_eq_true hlive⟩

end QatDcSample
