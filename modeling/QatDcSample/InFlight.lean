import QatDcSample.Operation

/-!
# Requests in flight

The relation between the submissions of a worker, its requests in flight and its
semaphores, as an invariant of every run: an accepted submission has exactly one
of request and post, and any other stage has neither.
-/

namespace QatDcSample
open EventProgram BlockMemory CpaStatus Transition

def opGhost (i : ℕ) (l : List Entry) : OpGhost :=
  ghost (opProtocol (fun _ _ _ => True) OpGuar) OpGhost.start (.worker i) l

@[simp] theorem opGhost_own (i : ℕ) (c : Call) (r : c.Resp) (l : List Entry) :
    opGhost i (.call (.worker i) c r :: l) = (opGhost i l).next c r :=
  ghost_own (opProtocol _ _) OpGhost.start _ c r l

theorem opGhost_other {i : ℕ} {t : Tid} (h : t ≠ .worker i) (c : Call) (r : c.Resp)
    (l : List Entry) : opGhost i (.call t c r :: l) = opGhost i l :=
  ghost_other _ _ h c r l

theorem ghost_eq_opGhost (rely : OpGhost → (c : Call) → c.Resp → Prop)
    (guar : OpGhost → Call → Prop) (i : ℕ) (l : List Entry) :
    ghost (opProtocol rely guar) OpGhost.start (.worker i) l = opGhost i l :=
  ghost_mk _ _ _ _ _ _ _ l

/-! ### Counting -/

def pending (l : List Request) (i : ℕ) (k : Completion) : ℕ :=
  l.countP fun q => q.worker = i ∧ q.tag = k

theorem pending_cons (q : Request) (l : List Request) (i : ℕ) (k : Completion) :
    pending (q :: l) i k = pending l i k + if q.worker = i ∧ q.tag = k then 1 else 0 := by
  simp [pending, List.countP_cons]

theorem pending_remove (l₁ l₂ : List Request) (q : Request) (i : ℕ) (k : Completion) :
    pending (l₁ ++ q :: l₂) i k =
      pending (l₁ ++ l₂) i k + if q.worker = i ∧ q.tag = k then 1 else 0 := by
  simp only [pending, List.countP_append, List.countP_cons, decide_eq_true_eq]
  omega

theorem pending_pos {l : List Request} {q : Request} (hq : q ∈ l) :
    0 < pending l q.worker q.tag :=
  List.countP_pos_iff.mpr ⟨q, hq, by simp⟩

theorem exists_of_pending {l : List Request} {i : ℕ} {k : Completion} (h : 0 < pending l i k) :
    ∃ q ∈ l, q.worker = i ∧ q.tag = k := by
  obtain ⟨q, hq, he⟩ := List.countP_pos_iff.mp h
  exact ⟨q, hq, by simpa using he⟩

theorem rest_sublist {l l₁ l₂ : List Request} {q : Request} (h : l = l₁ ++ q :: l₂) :
    (l₁ ++ l₂).Sublist l := by
  rw [h]
  exact (List.sublist_cons_self q l₂).append_left l₁

/-! ### Linked -/

/-- Request and post of an accepted submission add up to one. -/
def StageLinked (n m : ℕ) : Submission → Prop
  | .accepted => n + m = 1
  | _ => n = 0 ∧ m = 0

def Linked (inflight : List Request) (sem : ℕ → Completion → ℕ) (i : ℕ) (g : OpGhost) : Prop :=
  ∀ k, StageLinked (pending inflight i k) (sem i k) (g.stage k)

theorem StageLinked.of_ne {n m : ℕ} {st : Submission} (h : StageLinked n m st)
    (hne : st ≠ .accepted) : n = 0 ∧ m = 0 := by
  cases st <;> first | exact h | exact absurd rfl hne

theorem setSem_same (sem : ℕ → Completion → ℕ) (i : ℕ) (k : Completion) (n : ℕ) :
    setSem sem i k n i k = n := by
  simp [setSem]

theorem setSem_other {sem : ℕ → Completion → ℕ} {i j : ℕ} {k k' : Completion} {n : ℕ}
    (h : j ≠ i ∨ k' ≠ k) : setSem sem i k n j k' = sem j k' := by
  by_cases hj : j = i
  · subst hj
    have hk : k' ≠ k := by
      rcases h with h | h
      · exact absurd rfl h
      · exact h
    simp [setSem, hk]
  · simp [setSem, hj]

theorem linked_frame {j i : ℕ} (h : j ≠ i) (c : Call) (r : c.Resp) (l : List Request)
    (sem : ℕ → Completion → ℕ) (k : Completion) :
    pending (inflightAfter (.worker j) l c r) i k = pending l i k ∧
      semAfter (.worker j) sem c r i k = sem i k := by
  cases c <;> try exact ⟨rfl, rfl⟩
  case cpaDcCompressData2 inst session src dst frame tag =>
    refine ⟨?_, rfl⟩
    simp only [inflightAfter]
    split
    · rw [pending_cons]
      simp [h]
    · rfl
  case completionInit k' =>
    exact ⟨rfl, setSem_other (.inl (Ne.symm h))⟩
  case completionWait k' =>
    refine ⟨rfl, ?_⟩
    simp only [semAfter]
    split
    · exact setSem_other (.inl (Ne.symm h))
    · rfl

theorem inflightAfter_main (l : List Request) (c : Call) (r : c.Resp) :
    inflightAfter .main l c r = l := by
  cases c <;> rfl

theorem inflightAfter_poller (i : ℕ) (l : List Request) (c : Call) (r : c.Resp) :
    inflightAfter (.poller i) l c r = l := by
  cases c <;> rfl

theorem inflightAfter_eq (t : Tid) (l : List Request) (c : Call) (r : c.Resp) :
    inflightAfter t l c r = l ∨ ∃ i inst session src dst frame k, t = .worker i ∧
      c = .cpaDcCompressData2 inst session src dst frame k ∧ HEq r success ∧
      inflightAfter t l c r = requestOf i inst session src dst frame k :: l := by
  cases c <;> try exact .inl rfl
  case cpaDcCompressData2 inst session src dst frame k =>
    cases t with
    | main => exact .inl rfl
    | poller i => exact .inl rfl
    | worker i =>
      by_cases hr : r = success
      · exact .inr ⟨i, inst, session, src, dst, frame, k, rfl, rfl, heq_of_eq hr, if_pos hr⟩
      · exact .inl (if_neg hr)

theorem semAfter_main (sem : ℕ → Completion → ℕ) (c : Call) (r : c.Resp) :
    semAfter .main sem c r = sem := by
  cases c <;> rfl

theorem semAfter_poller (i : ℕ) (sem : ℕ → Completion → ℕ) (c : Call) (r : c.Resp) :
    semAfter (.poller i) sem c r = sem := by
  cases c <;> rfl

section linked
variable {cfg : Cfg} {s s' : State} {i : ℕ}

theorem linked_init {l : List Request} {sem : ℕ → Completion → ℕ} {g : OpGhost} {k : Completion}
    (h : Linked l sem i g) (hg : g.stage k = .idle) :
    Linked l (setSem sem i k 0) i (g.setStage k .ready) := by
  intro k'
  by_cases hk : k' = k
  · subst hk
    have h0 := (h k').of_ne (by simp [hg])
    rw [OpGhost.setStage_same, setSem_same]
    exact ⟨h0.1, rfl⟩
  · rw [OpGhost.setStage_other g _ hk, setSem_other (.inr hk)]
    exact h k'

theorem linked_submit {l : List Request} {sem : ℕ → Completion → ℕ} {g : OpGhost} {q : Request}
    (h : Linked l sem q.worker g) (hg : g.stage q.tag = .ready) :
    Linked (q :: l) sem q.worker (g.setStage q.tag .accepted) := by
  intro k
  rw [pending_cons]
  by_cases hk : k = q.tag
  · subst hk
    have h0 := (h q.tag).of_ne (by simp [hg])
    rw [OpGhost.setStage_same]
    show _ + _ = 1
    simp [h0.1, h0.2]
  · have hne : ¬ (q.worker = q.worker ∧ q.tag = k) := fun he => hk he.2.symm
    rw [OpGhost.setStage_other g _ hk, if_neg hne]
    exact h k

theorem linked_reject {l : List Request} {sem : ℕ → Completion → ℕ} {g : OpGhost}
    {k : Completion} (h : Linked l sem i g) (hg : g.stage k = .ready) :
    Linked l sem i (g.setStage k .rejected) := by
  intro k'
  by_cases hk : k' = k
  · subst hk
    rw [OpGhost.setStage_same]
    exact (h k').of_ne (by simp [hg])
  · rw [OpGhost.setStage_other g _ hk]
    exact h k'

theorem linked_wait {l : List Request} {sem : ℕ → Completion → ℕ} {g : OpGhost} {k : Completion}
    (h : Linked l sem i g) (hs : 0 < sem i k) :
    Linked l (setSem sem i k (sem i k - 1)) i (g.setStage k .waited) := by
  intro k'
  by_cases hk : k' = k
  · subst hk
    have hacc : g.stage k' = .accepted := by
      by_contra hne
      have h0 := ((h k').of_ne hne).2
      omega
    have h1 := h k'
    rw [hacc] at h1
    rw [OpGhost.setStage_same, setSem_same]
    have h1' : pending l i k' + sem i k' = 1 := h1
    exact ⟨by omega, by omega⟩
  · rw [OpGhost.setStage_other g _ hk, setSem_other (.inr hk)]
    exact h k'

theorem linked_own {w : World} {g : OpGhost} (c : Call) (r : c.Resp)
    (h : Linked w.inflight w.sem i g) (hg : OpGuar g c) (hw : s.world = w)
    (ha : Allowed cfg s (.worker i) c r) :
    Linked (inflightAfter (.worker i) w.inflight c r) (semAfter (.worker i) w.sem c r) i
      (g.next c r) := by
  cases c <;> try exact h
  case completionInit k => exact linked_init h hg
  case cpaDcCompressData2 inst session src dst frame tag =>
    simp only [inflightAfter, OpGhost.next]
    by_cases hr : r = success
    · rw [if_pos hr, if_pos hr]
      exact linked_submit (q := requestOf i inst session src dst frame tag) h hg.1
    · rw [if_neg hr, if_neg hr]
      exact linked_reject h hg.1
  case completionWait k =>
    simp only [semAfter, OpGhost.next]
    by_cases hr : r = true
    · rw [if_pos hr, if_pos hr]
      subst hw
      exact linked_wait h (ha hr)
    · rw [if_neg hr, if_neg hr]
      exact h
  case memAlloc a n =>
    cases r with
    | none => exact h
    | some b => exact h

theorem linked_completed {w : World} {g : OpGhost} {q : Request} {l₁ l₂ : List Request}
    (st : CpaDcReqStatus) (h : Linked w.inflight w.sem i g) (hq : w.inflight = l₁ ++ q :: l₂) :
    Linked (l₁ ++ l₂) (w.completed q st (l₁ ++ l₂)).sem i g := by
  intro k
  have hk := h k
  rw [hq, pending_remove] at hk
  by_cases he : q.worker = i ∧ q.tag = k
  · obtain ⟨rfl, rfl⟩ := he
    have hacc : g.stage q.tag = .accepted := by
      by_contra hne
      have h0 := (hk.of_ne hne).1
      simp at h0
    rw [hacc] at hk ⊢
    have hk' : pending (l₁ ++ l₂) q.worker q.tag + 1 + w.sem q.worker q.tag = 1 := by
      simpa [StageLinked] using hk
    show pending (l₁ ++ l₂) q.worker q.tag + setSem w.sem q.worker q.tag _ q.worker q.tag = 1
    rw [setSem_same]
    omega
  · rw [if_neg he, Nat.add_zero] at hk
    have hne : i ≠ q.worker ∨ k ≠ q.tag := by
      by_contra hcon
      simp only [not_or, not_not] at hcon
      exact he ⟨hcon.1.symm, hcon.2.symm⟩
    show StageLinked _ (setSem w.sem q.worker q.tag _ i k) _
    rw [setSem_other hne]
    exact hk

end linked

/-! ### The invariant -/

def AllLinked (s : State) : Prop :=
  ∀ i, Linked s.world.inflight s.world.sem i (opGhost i s.log)

theorem allLinked_step {cfg : Cfg} {s s' : State} {e : Entry} {Q : CpaStatus → OpGhost → Prop}
    (hm : ∀ i, WorkerMeets i (opProtocol (fun _ _ _ => True) OpGuar) OpGhost.start Q s)
    (h : AllLinked s) (hs : Step cfg s e s') : AllLinked s' := by
  intro i
  cases hs with
  | @main c k r hc ha =>
    show Linked (inflightAfter .main s.world.inflight c r) (semAfter .main s.world.sem c r) i
      (opGhost i (.call .main c r :: s.log))
    rw [inflightAfter_main, semAfter_main, opGhost_other (by simp)]
    exact h i
  | @worker j c k r hrun hj ha =>
    by_cases hij : j = i
    · subst hij
      have hg : OpGuar (opGhost j s.log) c := ((hm j).left _ hj).1
      show Linked _ _ j (opGhost j (.call (.worker j) c r :: s.log))
      rw [opGhost_own]
      exact linked_own c r (h j) hg rfl ha
    · have hne : Tid.worker j ≠ Tid.worker i := fun he => hij (Tid.worker.inj he)
      intro k'
      obtain ⟨hp, hsem⟩ := linked_frame hij c r s.world.inflight s.world.sem k'
      show StageLinked (pending (inflightAfter (.worker j) s.world.inflight c r) i k')
        (semAfter (.worker j) s.world.sem c r i k')
        ((opGhost i (.call (.worker j) c r :: s.log)).stage k')
      rw [hp, hsem, opGhost_other hne]
      exact h i k'
  | @poller j p c k r hrun hj hn ha =>
    show Linked (inflightAfter (.poller j) s.world.inflight c r)
      (semAfter (.poller j) s.world.sem c r) i (opGhost i (.call (.poller j) c r :: s.log))
    rw [inflightAfter_poller, semAfter_poller, opGhost_other (by simp)]
    exact h i
  | @callback q l₁ l₂ st hrun hq hr => exact linked_completed st (h i) hq

theorem opMeets_reached {cfg : Cfg} {ok : State → Entry → Prop} {s : State}
    (hr : ReachVia (Step cfg) ok (initial cfg) s) (i : ℕ) :
    WorkerMeets i (opProtocol (fun _ _ _ => True) OpGuar) OpGhost.start (fun _ _ => True) s :=
  worker_meets_always (fun _ _ _ => trivial)
    (workerMeets_initial cfg (opGuar_rule.meets_worker i)) hr

theorem allLinked_initial (cfg : Cfg) : AllLinked (initial cfg) := fun _ _ => ⟨rfl, rfl⟩

theorem allLinked_solo (cfg : Cfg) (p : Code CpaStatus) : AllLinked (solo cfg p) :=
  fun _ _ => ⟨rfl, rfl⟩

end QatDcSample
