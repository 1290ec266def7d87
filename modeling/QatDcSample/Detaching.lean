import QatDcSample.Lib.HandOver
import QatDcSample.WorkerLifetime

/-!
# Detaching the pollers

`sampleThreadCreate` detaches the thread it has created through the variable the
identifier was stored in (`cpa_sample_utils.h:511-531`), and all workers pass the
same `gPollingThreadDc`. A worker is sure to detach its own poller only if no other
worker has called `pthread_create` in between: one that fails need not leave the
variable as it was.
-/

namespace QatDcSample
open EventProgram Prog CpaStatus Transition

/-! ### What a worker does with its poller -/

inductive PollerPhase where
  | before | created | over
  deriving DecidableEq

/-- A worker creates at most one poller, and the next call after the creation
detaches. -/
@[reducible] def detachProtocol : Protocol Call Call.Resp where
  σ := PollerPhase
  next
    | _, .pthreadCreatePoller _, (ok, _) => if ok = true then .created else .over
    | _, .pthreadDetach, _ => .over
    | g, _, _ => g
  rely := fun _ _ _ => True
  guar
    | g, .pthreadCreatePoller _ => g = .before
    | g, .pthreadDetach => g = .created
    | g, _ => g ≠ .created

def Call.NoPoller (c : Call) : Prop := (∀ inst, c ≠ .pthreadCreatePoller inst) ∧ c ≠ .pthreadDetach

theorem Call.noPoller_or (c : Call) :
    c.NoPoller ∨ (∃ inst, c = .pthreadCreatePoller inst) ∨ c = .pthreadDetach := by
  cases c <;> simp [Call.NoPoller]

theorem Call.Build.noPoller {c : Call} (h : c.Build) : c.NoPoller := by
  constructor
  · rintro inst rfl
    exact h
  · rintro rfl
    exact h

theorem Call.InOp.noPoller {c : Call} (h : c.InOp) : c.NoPoller := by
  constructor
  · rintro inst rfl
    exact h
  · rintro rfl
    exact h

theorem Call.After.noPoller {c : Call} (h : c.After) : c.NoPoller := by
  constructor
  · rintro inst rfl
    exact h
  · rintro rfl
    exact h

theorem guar_noPoller {c : Call} (hc : c.NoPoller) {g : PollerPhase} :
    detachProtocol.guar g c ↔ g ≠ .created := by
  cases c <;> first | exact Iff.rfl | exact absurd rfl (hc.1 _) | exact absurd rfl hc.2

theorem next_noPoller {c : Call} (hc : c.NoPoller) (g : PollerPhase) (r : c.Resp) :
    detachProtocol.next g c r = g := by
  cases c <;> first | rfl | exact absurd rfl (hc.1 _) | exact absurd rfl hc.2

theorem noPoller_meets {α : Type} {C : Call → Prop} {p : Code α} {g : PollerPhase}
    (hC : ∀ c, C c → c.NoPoller) (hp : Only C p) (hg : g ≠ .created) :
    Meets detachProtocol p (fun _ g' => g' = g) g := by
  refine meets_of_only (P := detachProtocol) (C := C) (· = g) ?_ hp rfl
  rintro _ c hc rfl
  exact ⟨(guar_noPoller (hC c hc)).mpr hg, fun r _ => next_noPoller (hC c hc) _ r⟩

theorem noPoller_startInstance (i : ℕ) (status : CpaStatus) (n : ℕ) (arr : Ptr) :
    Only Call.NoPoller (startInstance i status n arr) := by
  have hbuild : ∀ {α : Type} {p : Code α}, Only Call.Build p → Only Call.NoPoller p :=
    fun hp => only_mono (fun _ hc => hc.noPoller) hp
  refine only_bind (hbuild (build_setAddressTranslation i status)) fun st => only_whenOk ?_
  exact only_bind (hbuild (build_dcInstHandle i)) fun inst =>
    (only_perform _ _).mpr (by simp [Call.NoPoller])

theorem noPoller_runSession (i : ℕ) (session : Ptr) : Only Call.NoPoller (runSession i session) := by
  have hcall : ∀ c : Call, c.NoPoller → Only Call.NoPoller (invoke c) :=
    fun c hc => (only_perform _ c).mpr hc
  refine only_bind (hcall _ (by simp [Call.NoPoller])) fun _ => ?_
  refine only_bind (hcall _ (by simp [Call.NoPoller])) fun inst => ?_
  refine only_bind (only_mono (fun _ hc => hc.noPoller) (inOp_compPerformOp inst session))
    fun st => ?_
  refine only_bind (hcall _ (by simp [Call.NoPoller])) fun inst => ?_
  refine only_bind (hcall _ (by simp [Call.NoPoller])) fun st' => ?_
  split <;> trivial

theorem meets_sampleDcStartPolling_detach (inst : ℕ) :
    Meets detachProtocol (sampleDcStartPolling inst) (fun _ g => g ≠ PollerPhase.created)
      PollerPhase.before := by
  refine meets_call (by simp) fun r _ => ?_
  obtain ⟨st, isPolled⟩ := r
  show Meets detachProtocol (if st = success ∧ isPolled = true then _ else _) _ PollerPhase.before
  split
  · refine (meets_bind _ _ _ _).mpr (meets_call rfl fun r _ => ?_)
    obtain ⟨ok, left⟩ := r
    cases ok with
    | false => exact fun h => (by cases h)
    | true => exact meets_call rfl fun _ _ h => by cases h
  · exact fun h => (by cases h)

theorem meets_initSession_detach (i : ℕ) (status : CpaStatus) :
    Meets detachProtocol (initSession i status) (fun _ g => g ≠ PollerPhase.created)
      PollerPhase.before := by
  have hhandle : ∀ {g : PollerPhase}, g ≠ .created →
      Meets detachProtocol (dcInstHandle i) (fun _ g' => g' = g) g :=
    fun hg => noPoller_meets (fun _ hc => hc.noPoller) (build_dcInstHandle i) hg
  refine meets_seq (M := fun _ g => g ≠ PollerPhase.created) ?_ fun r g hg => ?_
  · unfold whenOkSet
    split
    · refine meets_seq (hhandle (by simp)) ?_
      rintro inst g rfl
      refine meets_seq (meets_sampleDcStartPolling_detach inst) fun _ g hg => ?_
      refine meets_seq (hhandle hg) ?_
      rintro inst g rfl
      exact ⟨hg, fun _ _ => hg⟩
    · exact fun h => (by cases h)
  obtain ⟨st, sessSize⟩ := r
  have hrest : Only Call.Build (whenOkSet st none (physContigAlloc sessSize)) :=
    only_whenOkSet (only_memAlloc rfl)
  refine meets_seq (noPoller_meets (fun _ hc => hc.noPoller) hrest hg) ?_
  rintro ⟨st, session⟩ g rfl
  have hinit : Only Call.Build (whenOk st (do
      let inst ← dcInstHandle i
      invoke (.api .cpaDcInitSession inst))) :=
    only_whenOk (only_bind (build_dcInstHandle i) fun inst =>
      (only_perform _ _).mpr (by simp [Call.Build, Call.Prepare]))
  refine meets_seq (noPoller_meets (fun _ hc => hc.noPoller) hinit hg) ?_
  rintro st g rfl
  exact hg

theorem meets_enqueueQATWork_detach (i : ℕ) :
    Meets detachProtocol (enqueueQATWork i) (fun _ g => g ≠ PollerPhase.created)
      PollerPhase.before := by
  refine meets_call (by simp) fun _ _ => ?_
  refine meets_call (by simp) fun inst _ => ?_
  refine meets_call (by simp) fun r _ => ?_
  obtain ⟨st, cap⟩ := r
  show Meets detachProtocol (if st ≠ success then _ else _) _ PollerPhase.before
  split
  · exact fun h => (by cases h)
  refine meets_seq (noPoller_meets (fun _ hc => hc.noPoller) (build_interBuffers i cap st)
    (by simp)) ?_
  rintro ⟨st, num, arr⟩ g rfl
  refine meets_seq (noPoller_meets (fun _ hc => hc) (noPoller_startInstance i st num arr)
    (by simp)) ?_
  rintro st g rfl
  refine meets_seq (meets_initSession_detach i st) fun r g hg => ?_
  obtain ⟨st, session⟩ := r
  refine meets_seq (noPoller_meets (fun _ hc => hc) (only_whenOk (noPoller_runSession i session))
    hg) ?_
  rintro st g rfl
  refine meets_seq (noPoller_meets (fun _ hc => hc.noPoller) (after_getStats i st) hg) ?_
  rintro st g rfl
  refine meets_seq (noPoller_meets (fun _ hc => hc.noPoller) (after_cleanUp session arr num) hg) ?_
  rintro - g rfl
  exact hg

def pollerPhase (i : ℕ) (l : List Entry) : PollerPhase :=
  ghost detachProtocol .before (.worker i) l

theorem detach_meets {cfg : Cfg} {ok : State → Entry → Prop} {s : State}
    (hr : ReachVia (Step cfg) ok (initial cfg) s) {i : ℕ} {p : Code CpaStatus}
    (hw : s.worker i = some p) :
    Meets detachProtocol p (fun _ g => g ≠ PollerPhase.created) (pollerPhase i s.log) :=
  (worker_meets_always (P := detachProtocol) (fun _ _ _ => trivial)
    (workerMeets_initial cfg (meets_enqueueQATWork_detach i)) hr).left p hw

/-! ### Identifiers passed through the variable -/

def pollerEvents : List Entry → List (HandOver.Event ℕ)
  | [] => []
  | .call (.worker i) (.pthreadCreatePoller _) (ok, left) :: l =>
      (if ok = true then .put i else .spoil left) :: pollerEvents l
  | .call (.worker i) .pthreadDetach id :: l => .take i id :: pollerEvents l
  | _ :: l => pollerEvents l

/-- `pthread_detach` was given only identifiers of pollers that had been created and
not been detached. -/
def DetachesCreated (l : List Entry) : Prop := HandOver.Sound (pollerEvents l)

def EachDetachedOnce (l : List Entry) : Prop := HandOver.EachOnce (pollerEvents l)

/-- No worker called `pthread_create` while another one had its poller still to
detach. -/
def CreatesApart (l : List Entry) : Prop := HandOver.Serial (pollerEvents l)

/-- No `pthread_create` that failed left the identifier of a poller in the variable. -/
def FailuresForeign (l : List Entry) : Prop := HandOver.Foreign (pollerEvents l)

theorem pollerEvents_noPoller {t : Tid} {c : Call} (hc : c.NoPoller) (r : c.Resp)
    (l : List Entry) : pollerEvents (.call t c r :: l) = pollerEvents l := by
  cases t <;> cases c <;> first | rfl | exact absurd rfl (hc.1 _) | exact absurd rfl hc.2

theorem pollerEvents_other {t : Tid} (ht : ∀ i, t ≠ .worker i) (c : Call) (r : c.Resp)
    (l : List Entry) : pollerEvents (.call t c r :: l) = pollerEvents l := by
  cases t <;> first | rfl | exact absurd rfl (ht _)

theorem pollingThreadAfter_noPoller {c : Call} (hc : c.NoPoller) (t : Tid) (id : Option ℕ)
    (r : c.Resp) : pollingThreadAfter t id c r = id := by
  cases c <;> first | rfl | exact absurd rfl (hc.1 _)

theorem pollingThreadAfter_other {t : Tid} (ht : ∀ i, t ≠ .worker i) (id : Option ℕ) (c : Call)
    (r : c.Resp) : pollingThreadAfter t id c r = id := by
  cases c <;> try rfl
  cases t <;> first | rfl | exact absurd rfl (ht _)

/-- The events are a history of one variable, and the phases of the workers say who
has still to detach. -/
structure Detaching (id : Option ℕ) (l : List Entry) : Prop where
  history : HandOver.History (pollerEvents l)
  slot : id = HandOver.slot (pollerEvents l)
  fresh : ∀ i, pollerPhase i l = .before → i ∉ HandOver.puts (pollerEvents l)
  pending : ∀ i, pollerPhase i l = .created ↔ HandOver.Pending (pollerEvents l) i

theorem Detaching.frame {id id' : Option ℕ} {l l' : List Entry} (h : Detaching id l) (hid : id' = id)
    (hev : pollerEvents l' = pollerEvents l) (hph : ∀ i, pollerPhase i l' = pollerPhase i l) :
    Detaching id' l' := by
  refine ⟨?_, ?_, fun i hi => ?_, fun i => ?_⟩
  · rw [hev]
    exact h.history
  · rw [hid, hev]
    exact h.slot
  · rw [hev]
    exact h.fresh i ((hph i).symm.trans hi)
  · rw [hev, hph]
    exact h.pending i

theorem pollerPhase_own (i : ℕ) (c : Call) (r : c.Resp) (l : List Entry) :
    pollerPhase i (.call (.worker i) c r :: l) = detachProtocol.next (pollerPhase i l) c r :=
  ghost_own _ _ _ c r l

theorem pollerPhase_other {i : ℕ} {t : Tid} (h : t ≠ .worker i) (c : Call) (r : c.Resp)
    (l : List Entry) : pollerPhase i (.call t c r :: l) = pollerPhase i l :=
  ghost_other _ _ h c r l

section own
variable {id : Option ℕ} {l : List Entry} {i : ℕ}

theorem Detaching.create (h : Detaching id l) (inst : ℕ) (hg : pollerPhase i l = .before)
    (ok : Bool) (left : Option ℕ) :
    Detaching (pollingThreadAfter (.worker i) id (.pthreadCreatePoller inst) (ok, left))
      (.call (.worker i) (.pthreadCreatePoller inst) (ok, left) :: l) := by
  have hnew : i ∉ HandOver.puts (pollerEvents l) := h.fresh i hg
  have hother : ∀ j, j ≠ i →
      pollerPhase j (.call (.worker i) (.pthreadCreatePoller inst) (ok, left) :: l) =
        pollerPhase j l :=
    fun j hj => pollerPhase_other (fun he => hj (Tid.worker.inj he).symm)
      (.pthreadCreatePoller inst) (ok, left) l
  have hown := pollerPhase_own i (.pthreadCreatePoller inst) (ok, left) l
  cases ok with
  | false =>
    refine ⟨h.history, rfl, fun j hj => ?_, fun j => ?_⟩
    · by_cases hji : j = i
      · exact hji ▸ hnew
      · exact h.fresh j ((hother j hji).symm.trans hj)
    · by_cases hji : j = i
      · subst hji
        rw [hown]
        exact ⟨fun hc => (by cases hc), fun hp => absurd hp.1 hnew⟩
      · rw [hother j hji]
        exact h.pending j
  | true =>
    refine ⟨⟨hnew, h.history⟩, rfl, fun j hj hmem => ?_, fun j => ?_⟩
    · by_cases hji : j = i
      · subst hji
        rw [hown] at hj
        cases hj
      · exact h.fresh j ((hother j hji).symm.trans hj) ((List.mem_cons.mp hmem).resolve_left hji)
    · by_cases hji : j = i
      · subst hji
        rw [hown]
        -- who has taken has put before
        exact ⟨fun _ => ⟨List.mem_cons_self, fun hm => hnew (h.history.put_of_taker hm)⟩,
          fun _ => rfl⟩
      · rw [hother j hji, h.pending j]
        exact ⟨fun hp => ⟨List.mem_cons_of_mem _ hp.1, hp.2⟩,
          fun hp => ⟨(List.mem_cons.mp hp.1).resolve_left hji, hp.2⟩⟩

theorem Detaching.detach (h : Detaching id l) (hg : pollerPhase i l = .created) :
    Detaching id (.call (.worker i) .pthreadDetach id :: l) := by
  have hpend : HandOver.Pending (pollerEvents l) i := (h.pending i).mp hg
  have hown := pollerPhase_own i .pthreadDetach id l
  have hother : ∀ j, j ≠ i →
      pollerPhase j (.call (.worker i) .pthreadDetach id :: l) = pollerPhase j l :=
    fun j hj => pollerPhase_other (fun he => hj (Tid.worker.inj he).symm) .pthreadDetach id l
  refine ⟨⟨hpend, h.slot, h.history⟩, h.slot, fun j hj => ?_, fun j => ?_⟩
  · by_cases hji : j = i
    · subst hji
      rw [hown] at hj
      cases hj
    · exact h.fresh j ((hother j hji).symm.trans hj)
  · by_cases hji : j = i
    · subst hji
      rw [hown]
      exact ⟨fun hc => (by cases hc), fun hp => absurd List.mem_cons_self hp.2⟩
    · rw [hother j hji, h.pending j]
      exact ⟨fun hp => ⟨hp.1, fun hm => hp.2 ((List.mem_cons.mp hm).resolve_left hji)⟩,
        fun hp => ⟨hp.1, fun hm => hp.2 (List.mem_cons_of_mem _ hm)⟩⟩

end own

theorem detaching_initial (cfg : Cfg) :
    Detaching (initial cfg).world.gPollingThreadDc (initial cfg).log :=
  ⟨trivial, rfl, fun _ _ h => absurd h List.not_mem_nil,
    fun _ => ⟨fun h => (by cases h), fun h => absurd h.1 List.not_mem_nil⟩⟩

theorem detaching_reached {cfg : Cfg} {ok : State → Entry → Prop} {s : State}
    (hr : ReachVia (Step cfg) ok (initial cfg) s) : Detaching s.world.gPollingThreadDc s.log := by
  refine ReachVia.invariant (I := fun s => Detaching s.world.gPollingThreadDc s.log)
    (detaching_initial cfg) ?_ hr
  intro s e s' hreach h hst _
  cases hst with
  | @main c k r hm ha =>
    have hid := pollingThreadAfter_other (t := .main) (by simp) s.world.gPollingThreadDc c r
    exact h.frame hid (pollerEvents_other (by simp) c r s.log)
      fun i => pollerPhase_other (by simp) c r s.log
  | @worker i c k r hrun hw ha =>
    have hg : detachProtocol.guar (pollerPhase i s.log) c := (detach_meets hreach hw).1
    rcases c.noPoller_or with hc | ⟨inst, rfl⟩ | rfl
    · have hid := pollingThreadAfter_noPoller hc (.worker i) s.world.gPollingThreadDc r
      refine h.frame hid (pollerEvents_noPoller hc r s.log) fun j => ?_
      by_cases hji : j = i
      · subst hji
        exact (pollerPhase_own j c r s.log).trans (next_noPoller hc _ r)
      · exact pollerPhase_other (fun he => hji (Tid.worker.inj he).symm) c r s.log
    · exact h.create inst hg r.1 r.2
    · obtain rfl : r = s.world.gPollingThreadDc := ha
      exact h.detach hg
  | @poller j p c k r hrun hp hn ha =>
    have hid := pollingThreadAfter_other (t := .poller j) (by simp) s.world.gPollingThreadDc c r
    exact h.frame hid (pollerEvents_other (by simp) c r s.log)
      fun i => pollerPhase_other (by simp) c r s.log
  | callback hrun hq hresp => exact h.frame rfl rfl fun _ => rfl

/-- A worker whose poller is still to be detached stands before its `pthread_detach`. -/
theorem next_of_pending {cfg : Cfg} {ok : State → Entry → Prop} {s : State}
    (hr : ReachVia (Step cfg) ok (initial cfg) s) {i : ℕ}
    (hp : HandOver.Pending (pollerEvents s.log) i) :
    ∃ k, s.worker i = some (.call .pthreadDetach k) := by
  have hphase : pollerPhase i s.log = .created := ((detaching_reached hr).pending i).mpr hp
  cases hw : s.worker i with
  | none =>
    have habsent : pollerPhase i s.log = .before :=
      (worker_meets_always (P := detachProtocol) (fun _ _ _ => trivial)
        (workerMeets_initial cfg (meets_enqueueQATWork_detach i)) hr).absent hw
    rw [hphase] at habsent
    cases habsent
  | some p =>
    have hm := detach_meets hr hw
    cases p with
    | ret st => exact absurd hphase hm
    | call c k =>
      have hg : detachProtocol.guar .created c := hphase ▸ hm.1
      rcases c.noPoller_or with hc | ⟨inst, rfl⟩ | rfl
      · exact absurd rfl ((guar_noPoller hc).mp hg)
      · cases hg
      · exact ⟨k, rfl⟩

/-- While the calls of `pthread_create` are apart only pollers that are created and
not detached are detached; and where every `sampleDcStartPolling` has returned, each
poller was detached exactly once. If the failing calls left no poller's identifier,
this is so only if the calls were apart. -/
theorem detached_once_iff (cfg : Cfg) (s : State) (hr : Reach (Step cfg) (initial cfg) s) :
    (CreatesApart s.log → DetachesCreated s.log) ∧
    ((∀ i ∈ cfg.instances, ∀ k, s.worker i ≠ some (.call .pthreadDetach k)) →
      (CreatesApart s.log → DetachesCreated s.log ∧ EachDetachedOnce s.log) ∧
      (FailuresForeign s.log →
        (DetachesCreated s.log ∧ EachDetachedOnce s.log ↔ CreatesApart s.log))) := by
  have h := detaching_reached hr
  have hsound : CreatesApart s.log → DetachesCreated s.log := HandOver.sound_of_serial h.history
  refine ⟨hsound, fun hret => ?_⟩
  have hdone : HandOver.Settled (pollerEvents s.log) := by
    intro i hi
    by_contra hnot
    obtain ⟨k, hw⟩ := next_of_pending hr ⟨hi, hnot⟩
    exact hret i ((forInstances_reached hr).worker i (by simp [hw])) k hw
  have hapart : CreatesApart s.log → DetachesCreated s.log ∧ EachDetachedOnce s.log :=
    fun hs => ⟨hsound hs, HandOver.eachOnce_of_serial h.history hdone hs⟩
  exact ⟨hapart, fun hf => ⟨fun ho => HandOver.serial_of_eachOnce h.history hf ho.2, hapart⟩⟩

theorem three_in_range : 0 < 3 ∧ 3 ≤ maxInstances := by decide

def threePolled : Cfg := sampleCfg 3 three_in_range true

/-- Every call succeeds except the `pthread_create` of the poller of instance 2,
which leaves the identifier of the first poller in the variable. -/
def thirdPollerFails (cfg : Cfg) (s : State) : (c : Call) → c.Resp
  | .pthreadCreatePoller inst => if inst = 2 then (false, some 0) else (true, none)
  | c => allGood cfg s c

def detachNext (s : State) (i : ℕ) : Bool :=
  match s.worker i with
  | some (.call .pthreadDetach _) => true
  | _ => false

theorem not_detachNext {s : State} {i : ℕ} (h : detachNext s i = false)
    (k : Call.pthreadDetach.Resp → Code CpaStatus) : s.worker i ≠ some (.call .pthreadDetach k) := by
  intro hw
  simp [detachNext, hw] at h

set_option maxRecDepth 20000 in
theorem detached_once_iff_run :
    ∃ s : State, pollerEvents s.log =
        [.spoil (some 0), .take 1 (some 1), .put 1, .take 0 (some 0), .put 0] ∧
      DetachesCreated s.log ∧ EachDetachedOnce s.log := by
  have hrun : (replay threePolled (thirdPollerFails threePolled) (fun _ _ => true)
      (initial threePolled) (List.replicate 22 .main ++ List.replicate 11 (.worker 0) ++
        List.replicate 11 (.worker 1) ++ List.replicate 10 (.worker 2))).any
      (fun s => pollerEvents s.log =
          [.spoil (some 0), .take 1 (some 1), .put 1, .take 0 (some 0), .put 0] ∧
        HandOver.Serial (pollerEvents s.log) ∧
        ∀ i ∈ threePolled.instances, detachNext s i = false) = true := by decide +kernel
  obtain ⟨s, hr, hT⟩ := exists_reached hrun
  obtain ⟨hevents, hserial, hnext⟩ := of_decide_eq_true hT
  exact ⟨s, hevents, ((detached_once_iff threePolled s hr.reach).2 fun i hi k =>
    not_detachNext (hnext i hi) k).1 hserial⟩

theorem two_in_range : 0 < 2 ∧ 2 ≤ maxInstances := by decide

def twoPolled : Cfg := sampleCfg 2 two_in_range true

/-- The main thread of `twoPolled` creates its workers, and both come to their
`pthread_create`. -/
def bothBeforeCreate : List Move :=
  List.replicate 17 .main ++ List.replicate 9 (.worker 0) ++ List.replicate 9 (.worker 1)

set_option maxRecDepth 20000 in
theorem detached_twice :
    ∃ s, Reach (Step twoPolled) (initial twoPolled) s ∧
      (∀ i ∈ twoPolled.instances, ∀ k, s.worker i ≠ some (.call .pthreadDetach k)) ∧
      ¬ DetachesCreated s.log ∧ ¬ EachDetachedOnce s.log := by
  have hrun : (replay twoPolled (allGood twoPolled) (fun _ _ => true) (initial twoPolled)
      (bothBeforeCreate ++ [.worker 0, .worker 1, .worker 0, .worker 1])).any
      (fun s => (∀ i ∈ twoPolled.instances, detachNext s i = false) ∧
        ¬ HandOver.Sound (pollerEvents s.log) ∧ ¬ HandOver.EachOnce (pollerEvents s.log)) = true := by
    decide +kernel
  obtain ⟨s, hr, hT⟩ := exists_reached hrun
  obtain ⟨hnext, hsound, honce⟩ := of_decide_eq_true hT
  exact ⟨s, hr.reach, fun i hi k => not_detachNext (hnext i hi) k, hsound, honce⟩

def secondPollerFails (cfg : Cfg) (s : State) : (c : Call) → c.Resp
  | .pthreadCreatePoller inst => (inst ≠ 1, none)
  | c => allGood cfg s c

set_option maxRecDepth 20000 in
/-- A `pthread_create` that fails between the creation and the detach of another worker:
the only poller created is never detached. -/
theorem detached_never :
    ∃ s, Reach (Step twoPolled) (initial twoPolled) s ∧
      HandOver.puts (pollerEvents s.log) = [0] ∧
      (∀ i ∈ twoPolled.instances, ∀ k, s.worker i ≠ some (.call .pthreadDetach k)) ∧
      HandOver.taken (pollerEvents s.log) = [none] := by
  have hrun : (replay twoPolled (secondPollerFails twoPolled) (fun _ _ => true)
      (initial twoPolled) (bothBeforeCreate ++ [.worker 0, .worker 1, .worker 0])).any
      (fun s => HandOver.puts (pollerEvents s.log) = [0] ∧
        (∀ i ∈ twoPolled.instances, detachNext s i = false) ∧
        HandOver.taken (pollerEvents s.log) = [none]) = true := by decide +kernel
  obtain ⟨s, hr, hT⟩ := exists_reached hrun
  obtain ⟨hputs, hnext, htaken⟩ := of_decide_eq_true hT
  exact ⟨s, hr.reach, hputs, fun i hi k => not_detachNext (hnext i hi) k, htaken⟩

end QatDcSample
