import QatDcSample.RequestMemory

/-!
# What requests in flight write to

The three submissions of `compPerformOp` hand over the same buffers and the same
`dcResults`, so two of them in flight together write to the same memory. Requests
of different workers are kept apart by their allocations, as long as these are
still alive when a request joins those in flight.
-/

namespace QatDcSample
open EventProgram BlockMemory CpaStatus Transition

/-- The blocks the driver writes to: the destination buffer, the two areas of
private metadata and the block of locals with `dcResults`. -/
def Request.writable (q : Request) : List BlockId :=
  q.frame :: [q.src.pPrivateMetaData, q.dst.pPrivateMetaData, q.dst.pData].filterMap id

theorem Request.writable_blocks {q : Request} {b : BlockId} (h : b ∈ q.writable) :
    b ∈ q.blocks := by
  simp only [Request.writable, Request.blocks, List.mem_cons, List.mem_filterMap, id_eq] at h ⊢
  grind

/-- The two requests write to different blocks, at disjoint addresses. -/
def WriteApart (m : Mem) (q q' : Request) : Prop :=
  ∀ b ∈ q.writable, ∀ b' ∈ q'.writable,
    b ≠ b' ∧ (m.block b).region.Disjoint (m.block b').region

instance (m : Mem) (q q' : Request) : Decidable (WriteApart m q q') :=
  inferInstanceAs (Decidable (∀ b ∈ q.writable, ∀ b' ∈ q'.writable, _ ∧ _))

def InFlightApart (s : State) : Prop := s.world.inflight.Pairwise (WriteApart s.world.mem)

instance (s : State) : Decidable (InFlightApart s) :=
  inferInstanceAs (Decidable (List.Pairwise _ _))

/-! ### The condition -/

/-- A submission is accepted only when no other request of the worker is in flight
and everything the driver would then write to is allocated. -/
def oneInFlight (s : State) : Entry → Bool
  | .call (.worker i) (.cpaDcCompressData2 inst session src dst frame tag) (st : CpaStatus) =>
      st ≠ success || (s.world.inflight.all (fun q => q.worker ≠ i) &&
        (⟨i, inst, session, src, dst, frame, tag⟩ :: s.world.inflight).all fun q =>
          q.writable.all fun b => s.world.mem.Live b)
  | _ => true

def OneInFlight (s : State) (e : Entry) : Prop := oneInFlight s e = true

theorem OneInFlight.submission {s : State} {i inst : ℕ} {session : Ptr} {src dst : CpaBufferList}
    {frame : BlockId} {k : Completion}
    (h : OneInFlight s (.call (.worker i)
      (.cpaDcCompressData2 inst session src dst frame k) success)) :
    (∀ q ∈ s.world.inflight, q.worker ≠ i) ∧
      ∀ q ∈ requestOf i inst session src dst frame k :: s.world.inflight, ∀ b ∈ q.writable,
        s.world.mem.Live b := by
  simpa [OneInFlight, oneInFlight, requestOf] using h

/-! ### What a worker holds -/

theorem owned_allocatedBy {cfg : Cfg} {s : State} {i : ℕ} {g : OpGhost} {c : Call} {r : c.Resp}
    (h : ∀ b ∈ g.owned, AllocatedBy s.world.mem (.worker i) b)
    (ha : Allowed cfg s (.worker i) c r) :
    ∀ b ∈ (g.next c r).owned, AllocatedBy (memAfter (.worker i) s.world.mem c r) (.worker i) b := by
  intro b hb
  -- only an allocation adds a block
  have hnew : ∀ region : Region,
      AllocatedBy (s.world.mem.alloc (.worker i) region) (.worker i) s.world.mem.next := fun region =>
    ⟨Nat.lt_succ_self _, congrArg Block.owner (s.world.mem.alloc_block_new _ region)⟩
  have hold : b ∈ g.owned →
      AllocatedBy (memAfter (.worker i) s.world.mem c r) (.worker i) b := fun hb =>
    (h b hb).memAfter (.worker i) c r
  cases c <;> try exact hold hb
  case memAlloc a n =>
    cases r with
    | none => exact hold hb
    | some x =>
      obtain ⟨x, base⟩ := x
      rcases List.mem_cons.mp hb with rfl | hb
      · obtain rfl := ha.1
        exact hnew _
      · exact hold hb
  case enterFrame =>
    obtain ⟨x, base⟩ := r
    rcases List.mem_cons.mp hb with rfl | hb
    · obtain rfl := ha.1
      exact hnew _
    · exact hold hb
  case memFree a b' => exact hold (OpGhost.mem_drop.mp hb).1
  case leaveFrame b' => exact hold (OpGhost.mem_drop.mp hb).1
  case completionWait k =>
    simp only [OpGhost.next] at hb
    split at hb <;> exact hold hb

/-! ### The invariant -/

/-- Workers hold, and requests write to, what the worker allocated; and the
requests in flight write apart. -/
structure Apart (w : World) (log : List Entry) : Prop where
  separated : w.mem.Separated
  owned : ∀ i, ∀ b ∈ (opGhost i log).owned, AllocatedBy w.mem (.worker i) b
  requests : ∀ q ∈ w.inflight, ∀ b ∈ q.writable, AllocatedBy w.mem (.worker q.worker) b
  apart : w.inflight.Pairwise (WriteApart w.mem)

theorem apart_initial (cfg : Cfg) : Apart (World.initial cfg) [] where
  separated _ _ hb := absurd hb.1 (Nat.not_lt_zero _)
  owned _ _ hb := absurd hb List.not_mem_nil
  requests _ hq := absurd hq List.not_mem_nil
  apart := .nil

theorem writeApart_of_live {m : Mem} {q q' : Request} (hsep : m.Separated)
    (hne : q.worker ≠ q'.worker)
    (h : ∀ b ∈ q.writable, m.Live b ∧ AllocatedBy m (.worker q.worker) b)
    (h' : ∀ b ∈ q'.writable, m.Live b ∧ AllocatedBy m (.worker q'.worker) b) :
    WriteApart m q q' := by
  intro b hb b' hb'
  have hdiff : b ≠ b' := by
    rintro rfl
    exact hne (Tid.worker.inj ((h b hb).2.2.symm.trans (h' b hb').2.2))
  exact ⟨hdiff, hsep b b' (h b hb).1 (h' b' hb').1 hdiff⟩

theorem Apart.call {cfg : Cfg} {s : State} {t : Tid} {c : Call} {r : c.Resp}
    (h : Apart s.world s.log) (ha : Allowed cfg s t c r)
    (hg : ∀ i, t = .worker i → OpGuar (opGhost i s.log) c) (ho : OneInFlight s (.call t c r)) :
    Apart (s.world.after cfg t c r) (.call t c r :: s.log) := by
  have hkept : ∀ q ∈ s.world.inflight, ∀ b ∈ q.writable,
      AllocatedBy (memAfter t s.world.mem c r) (.worker q.worker) b :=
    fun q hq b hb => (h.requests q hq b hb).memAfter t c r
  -- the addresses of requests in flight do not change
  have hapart : s.world.inflight.Pairwise (WriteApart (memAfter t s.world.mem c r)) := by
    refine h.apart.imp_of_mem fun {q q'} hq hq' hqq b hb b' hb' => ?_
    rw [(block_memAfter t c r (h.requests q hq b hb).1).2.2,
      (block_memAfter t c r (h.requests q' hq' b' hb').1).2.2]
    exact hqq b hb b' hb'
  refine ⟨separated_memAfter h.separated ha, fun i => ?_, ?_, ?_⟩
  · by_cases ht : t = .worker i
    · subst ht
      rw [opGhost_own]
      exact owned_allocatedBy (h.owned i) ha
    · rw [opGhost_other ht]
      exact fun b hb => (h.owned i b hb).memAfter t c r
  · show ∀ q ∈ inflightAfter t s.world.inflight c r, _
    rcases inflightAfter_eq t s.world.inflight c r with
      he | ⟨i, inst, session, src, dst, frame, k, rfl, rfl, hr, he⟩
    · rw [he]
      exact hkept
    · rw [he]
      refine List.forall_mem_cons.mpr ⟨fun b hb => ?_, hkept⟩
      exact h.owned i b ((hg i rfl).2 b (Request.writable_blocks hb))
  · show (inflightAfter t s.world.inflight c r).Pairwise _
    rcases inflightAfter_eq t s.world.inflight c r with
      he | ⟨i, inst, session, src, dst, frame, k, rfl, rfl, hr, he⟩
    · rw [he]
      exact hapart
    · rw [he]
      obtain rfl := eq_of_heq hr
      obtain ⟨hnone, hlive⟩ := ho.submission
      refine List.pairwise_cons.mpr ⟨fun q hq => ?_, hapart⟩
      refine writeApart_of_live h.separated (hnone q hq).symm (fun b hb => ?_) fun b hb => ?_
      · exact ⟨hlive _ List.mem_cons_self b hb,
          h.owned i b ((hg i rfl).2 b (Request.writable_blocks hb))⟩
      · exact ⟨hlive q (List.mem_cons_of_mem _ hq) b hb, h.requests q hq b hb⟩

theorem Apart.callback {w : World} {log : List Entry} (h : Apart w log) {q : Request}
    {st : CpaDcReqStatus} {l₁ l₂ : List Request} (hq : w.inflight = l₁ ++ q :: l₂) :
    Apart (w.completed q st (l₁ ++ l₂)) (.callback q st :: log) := by
  have hsub := rest_sublist hq
  exact ⟨h.separated, h.owned, fun q' hq' => h.requests q' (hsub.subset hq'),
    h.apart.sublist hsub⟩

theorem apart_reached {cfg : Cfg} {s : State}
    (hr : ReachVia (Step cfg) OneInFlight (initial cfg) s) : Apart s.world s.log := by
  refine ReachVia.invariant (I := fun s => Apart s.world s.log) (apart_initial cfg) ?_ hr
  intro s e s' hreach h hst ho
  cases hst with
  | main hm ha => exact h.call ha (fun i ht => by cases ht) ho
  | @worker i c k r hrun hw ha =>
    refine h.call ha (fun j ht => ?_) ho
    cases ht
    exact ((opMeets_reached hreach i).left _ hw).1
  | poller hrun hp hn ha => exact h.call ha (fun i ht => by cases ht) ho
  | callback hrun hq hresp => exact h.callback hq

/-- In every run in which a submission is accepted only when the worker has no
other request in flight and what the requests write to is allocated, any two
requests in flight write to different blocks at disjoint addresses. -/
theorem requests_write_apart (cfg : Cfg) (s : State)
    (hr : ReachVia (Step cfg) OneInFlight (initial cfg) s) : InFlightApart s :=
  (apart_reached hr).apart

def bothSubmitted : List Move :=
  List.replicate 17 .main ++ List.replicate 30 (.worker 0) ++ List.replicate 30 (.worker 1)

set_option maxRecDepth 20000 in
theorem requests_write_apart_run :
    ∃ s : State, s.world.inflight.length = 2 ∧ InFlightApart s := by
  have hrun : (replay twoUnpolled (allGood twoUnpolled) oneInFlight (initial twoUnpolled)
      bothSubmitted).any (fun s => s.world.inflight.length = 2) = true := by decide +kernel
  obtain ⟨s, hr, hT⟩ := exists_reached hrun
  exact ⟨s, of_decide_eq_true hT, requests_write_apart twoUnpolled s hr⟩

set_option maxRecDepth 20000 in
/-- Every call succeeds: the three requests of the worker are in flight together
and share the destination buffer. -/
theorem requests_share_destination :
    ∃ s, Reach (Step oneUnpolled) (initial oneUnpolled) s ∧ ¬ InFlightApart s := by
  have hrun : (replay oneUnpolled (allGood oneUnpolled) (fun _ _ => true) (initial oneUnpolled)
      (createMoves ++ List.replicate 32 (.worker 0))).any
      (fun s => ¬ InFlightApart s) = true := by decide +kernel
  obtain ⟨s, hr, hT⟩ := exists_reached hrun
  exact ⟨s, hr.reach, of_decide_eq_true hT⟩

end QatDcSample
