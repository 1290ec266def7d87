import QatDcSample.WorkerCalls
import Mathlib.Data.List.Count

/-!
# The completions and the memory of one operation

How far each of the three submissions of a worker has got, and which blocks the
worker holds, as ghost state of its thread; what every run of the code owes of
them (`OpGuar`); and how the ghost state is related to the requests in flight
and to the semaphores (`Linked`): a submission that was accepted and not waited
for has either its request in flight or its semaphore posted.
-/

namespace QatDcSample
open EventProgram Prog BlockMemory CpaStatus Transition

/-- `idle`: not initialised; `ready`: initialised; then the outcome of the
submission, and `waited` after a successful `COMPLETION_WAIT`. -/
inductive Submission where
  | idle | ready | rejected | accepted | waited
  deriving DecidableEq

structure OpGhost where
  stage : Completion → Submission
  owned : List BlockId

namespace OpGhost

def start : OpGhost := ⟨fun _ => .idle, []⟩

def setStage (g : OpGhost) (k : Completion) (st : Submission) : OpGhost :=
  { g with stage := Function.update g.stage k st }

def hold (g : OpGhost) (b : BlockId) : OpGhost := { g with owned := b :: g.owned }

def drop (g : OpGhost) (b : BlockId) : OpGhost := { g with owned := g.owned.filter (· ≠ b) }

def next (g : OpGhost) : (c : Call) → c.Resp → OpGhost
  | .completionInit k, _ => g.setStage k .ready
  | .cpaDcCompressData2 _ _ _ _ _ k, (st : CpaStatus) =>
      g.setStage k (if st = success then .accepted else .rejected)
  | .completionWait k, ok => if ok = true then g.setStage k .waited else g
  | .memAlloc _ _, some (b, _) => g.hold b
  | .enterFrame, (b, _) => g.hold b
  | .memFree _ b, _ => g.drop b
  | .leaveFrame b, _ => g.drop b
  | _, _ => g

def Settled (g : OpGhost) : Prop := ∀ k, g.stage k ≠ .accepted

@[simp] theorem setStage_same (g : OpGhost) (k : Completion) (st : Submission) :
    (g.setStage k st).stage k = st := by
  simp [setStage]

theorem setStage_other (g : OpGhost) {k k' : Completion} (st : Submission) (h : k' ≠ k) :
    (g.setStage k st).stage k' = g.stage k' := by
  simp [setStage, h]

theorem mem_drop {g : OpGhost} {b b' : BlockId} :
    b' ∈ (g.drop b).owned ↔ b' ∈ g.owned ∧ b' ≠ b := by
  simp [drop]

end OpGhost

def requestOf (i inst : ℕ) (session : Ptr) (src dst : CpaBufferList) (frame : BlockId)
    (tag : Completion) : Request := ⟨i, inst, session, src, dst, frame, tag⟩

/-- What every worker owes: each completion is initialised once and used by one
submission, and a submission hands over blocks that the worker holds. -/
def OpGuar (g : OpGhost) : Call → Prop
  | .completionInit k => g.stage k = .idle
  | .cpaDcCompressData2 inst session src dst frame k =>
      g.stage k = .ready ∧ ∀ b ∈ (requestOf 0 inst session src dst frame k).blocks, b ∈ g.owned
  | _ => True

@[reducible] def opProtocol (rely : OpGhost → (c : Call) → c.Resp → Prop)
    (guar : OpGhost → Call → Prop) : Protocol Call Call.Resp where
  σ := OpGhost
  next := OpGhost.next
  rely := rely
  guar := guar

/-! ### Allocations -/

section specs
variable {rely : OpGhost → (c : Call) → c.Resp → Prop} {guar : OpGhost → Call → Prop}

def FreeAllocs (guar : OpGhost → Call → Prop) : Prop := ∀ g a n, guar g (.memAlloc a n)

def Allocated (g : OpGhost) (status : CpaStatus) (p : Ptr) (g' : OpGhost) : Prop :=
  g'.stage = g.stage ∧ (∀ b ∈ g.owned, b ∈ g'.owned) ∧
    (status = success → ∃ b, p = some b ∧ b ∈ g'.owned)

theorem meets_memAlloc (hg : FreeAllocs guar) (a : Allocator) (n : ℕ) (g : OpGhost) :
    Meets (opProtocol rely guar) (memAlloc a n) (fun r g' => Allocated g r.1 r.2 g') g := by
  refine meets_call (hg g a n) fun r hr => ?_
  cases r with
  | none => exact ⟨rfl, fun b hb => hb, fun h => absurd h resource_ne_success⟩
  | some b =>
    obtain ⟨b, base⟩ := b
    exact ⟨rfl, fun b' hb' => List.mem_cons_of_mem _ hb', fun _ => ⟨b, rfl, List.mem_cons_self⟩⟩

theorem meets_whenOkAlloc (hg : FreeAllocs guar) (status : CpaStatus) (a : Allocator) (n : ℕ)
    (g : OpGhost) :
    Meets (opProtocol rely guar) (whenOkSet status none (memAlloc a n))
      (fun r g' => Allocated g r.1 r.2 g' ∧ (r.1 = success → status = success)) g := by
  unfold whenOkSet
  split
  · next h => exact meets_mono (meets_memAlloc hg a n g) fun r g' hr => ⟨hr, fun _ => h⟩
  · next h => exact ⟨⟨rfl, fun b hb => hb, fun h' => absurd h' h⟩, fun h' => absurd h' h⟩

def OpBuffers.Held (b : OpBuffers) (g : OpGhost) : Prop :=
  ∀ p ∈ [b.pBufferMetaSrc, b.pBufferListSrc, b.pSrcBuffer, b.pBufferMetaDst, b.pBufferListDst,
    b.pDstBuffer], ∃ x, p = some x ∧ x ∈ g.owned

theorem meets_allocOpBuffers (hg : FreeAllocs guar) (n m : ℕ) (g : OpGhost) :
    Meets (opProtocol rely guar) (allocOpBuffers n m)
      (fun r g' => g'.stage = g.stage ∧ (∀ b ∈ g.owned, b ∈ g'.owned) ∧
        (r.1 = success → r.2.Held g')) g := by
  refine meets_seq (meets_memAlloc hg .contig n g) fun r₁ g₁ h₁ => ?_
  refine meets_seq (meets_whenOkAlloc hg r₁.1 .os bufferListMemSize g₁) fun r₂ g₂ h₂ => ?_
  refine meets_seq (meets_whenOkAlloc hg r₂.1 .contig sampleMaxBuff g₂) fun r₃ g₃ h₃ => ?_
  refine meets_seq (meets_whenOkAlloc hg r₃.1 .contig n g₃) fun r₄ g₄ h₄ => ?_
  refine meets_seq (meets_whenOkAlloc hg r₄.1 .os bufferListMemSize g₄) fun r₅ g₅ h₅ => ?_
  refine meets_seq (meets_whenOkAlloc hg r₅.1 .contig m g₅) fun r₆ g₆ h₆ => ?_
  obtain ⟨e₁, o₁, p₁⟩ := h₁
  obtain ⟨⟨e₂, o₂, p₂⟩, s₂⟩ := h₂
  obtain ⟨⟨e₃, o₃, p₃⟩, s₃⟩ := h₃
  obtain ⟨⟨e₄, o₄, p₄⟩, s₄⟩ := h₄
  obtain ⟨⟨e₅, o₅, p₅⟩, s₅⟩ := h₅
  obtain ⟨⟨e₆, o₆, p₆⟩, s₆⟩ := h₆
  have k₅ : ∀ b ∈ g₅.owned, b ∈ g₆.owned := o₆
  have k₄ : ∀ b ∈ g₄.owned, b ∈ g₆.owned := fun b hb => k₅ b (o₅ b hb)
  have k₃ : ∀ b ∈ g₃.owned, b ∈ g₆.owned := fun b hb => k₄ b (o₄ b hb)
  have k₂ : ∀ b ∈ g₂.owned, b ∈ g₆.owned := fun b hb => k₃ b (o₃ b hb)
  have k₁ : ∀ b ∈ g₁.owned, b ∈ g₆.owned := fun b hb => k₂ b (o₂ b hb)
  have weaken : ∀ {p : Ptr} {g' : OpGhost}, (∀ b ∈ g'.owned, b ∈ g₆.owned) →
      (∃ x, p = some x ∧ x ∈ g'.owned) → ∃ x, p = some x ∧ x ∈ g₆.owned :=
    fun hk ⟨x, hp, hx⟩ => ⟨x, hp, hk x hx⟩
  refine ⟨by rw [e₆, e₅, e₄, e₃, e₂, e₁], fun b hb => k₁ b (o₁ b hb), fun hs₆ => ?_⟩
  have hs₅ := s₆ hs₆
  have hs₄ := s₅ hs₅
  have hs₃ := s₄ hs₄
  have hs₂ := s₃ hs₃
  have hs₁ := s₂ hs₂
  intro p hp
  simp only [List.mem_cons, List.not_mem_nil, or_false] at hp
  rcases hp with rfl | rfl | rfl | rfl | rfl | rfl
  · exact weaken k₁ (p₁ hs₁)
  · exact weaken k₂ (p₂ hs₂)
  · exact weaken k₃ (p₃ hs₃)
  · exact weaken k₄ (p₄ hs₄)
  · exact weaken k₅ (p₅ hs₅)
  · exact p₆ hs₆

theorem OpBuffers.Held.blocks {b : OpBuffers} {g : OpGhost} (h : b.Held g) {n x frame : ℕ}
    (hx : x ∈ g.owned) (hf : frame ∈ g.owned) (inst : ℕ) (k : Completion) :
    ∀ y ∈ (requestOf 0 inst (some x) b.src (b.dst n) frame k).blocks, y ∈ g.owned := by
  obtain ⟨x₁, e₁, h₁⟩ := h b.pBufferMetaSrc (by simp)
  obtain ⟨x₂, e₂, h₂⟩ := h b.pBufferListSrc (by simp)
  obtain ⟨x₃, e₃, h₃⟩ := h b.pSrcBuffer (by simp)
  obtain ⟨x₄, e₄, h₄⟩ := h b.pBufferMetaDst (by simp)
  obtain ⟨x₅, e₅, h₅⟩ := h b.pBufferListDst (by simp)
  obtain ⟨x₆, e₆, h₆⟩ := h b.pDstBuffer (by simp)
  intro y hy
  simp only [Request.blocks, requestOf, OpBuffers.src, OpBuffers.dst, e₁, e₂, e₃, e₄, e₅, e₆,
    List.filterMap_cons, id_eq, List.filterMap_nil, List.mem_cons, List.not_mem_nil,
    or_false] at hy
  rcases hy with rfl | rfl | rfl | rfl | rfl | rfl | rfl | rfl <;> assumption

end specs

/-! ### The operation and the worker around it -/

namespace Call

/-- Calls that neither concern a completion nor release memory. -/
def Plain : Call → Prop
  | completionInit _ => False
  | completionWait _ => False
  | cpaDcCompressData2 _ _ _ _ _ _ => False
  | memFree _ _ => False
  | leaveFrame _ => False
  | _ => True

end Call

def AllIdle (stage : Completion → Submission) : Prop := ∀ k, stage k = .idle

def Ready (inst : ℕ) (session : Ptr) (src dst : CpaBufferList) (frame : BlockId)
    (g : OpGhost) : Prop :=
  ∀ k, ∀ b ∈ (requestOf 0 inst session src dst frame k).blocks, b ∈ g.owned

/-- What is to be shown of a protocol over the operation: what it asks of the
submissions and waits, and an assertion `R` on the submissions under which memory
may be released. -/
structure OpRule (rely : OpGhost → (c : Call) → c.Resp → Prop) (guar : OpGhost → Call → Prop)
    (R : (Completion → Submission) → Prop) : Prop where
  plain : ∀ g c, c.Plain → guar g c
  free : ∀ g a b, R g.stage → guar g (.memFree a b)
  leave : ∀ g b, R g.stage → guar g (.leaveFrame b)
  idle : ∀ stage, AllIdle stage → R stage
  perform : ∀ inst session src dst frame g, AllIdle g.stage →
    Ready inst session src dst frame g →
    Meets (opProtocol rely guar) (performOp inst session src dst frame)
      (fun _ g' => R g'.stage) g

section rule
variable {rely : OpGhost → (c : Call) → c.Resp → Prop} {guar : OpGhost → Call → Prop}
variable {R : (Completion → Submission) → Prop}

theorem OpRule.meets_memFree (h : OpRule rely guar R) (a : Allocator) (p : Ptr) {g : OpGhost}
    (hg : R g.stage) :
    Meets (opProtocol rely guar) (memFree a p) (fun _ g' => R g'.stage) g := by
  cases p with
  | none => exact hg
  | some b => exact ⟨h.free g a b hg, fun _ _ => hg⟩

theorem OpRule.meets_freeOpBuffers (h : OpRule rely guar R) (b : OpBuffers) {g : OpGhost}
    (hg : R g.stage) :
    Meets (opProtocol rely guar) (freeOpBuffers b) (fun _ g' => R g'.stage) g := by
  refine meets_seq (h.meets_memFree _ _ hg) fun _ g₁ h₁ => ?_
  refine meets_seq (h.meets_memFree _ _ h₁) fun _ g₂ h₂ => ?_
  refine meets_seq (h.meets_memFree _ _ h₂) fun _ g₃ h₃ => ?_
  refine meets_seq (h.meets_memFree _ _ h₃) fun _ g₄ h₄ => ?_
  refine meets_seq (h.meets_memFree _ _ h₄) fun _ g₅ h₅ => ?_
  exact h.meets_memFree _ _ h₅

theorem OpRule.meets_compPerformOp (h : OpRule rely guar R) (inst x : ℕ) {g : OpGhost}
    (hi : AllIdle g.stage) (hx : x ∈ g.owned) :
    Meets (opProtocol rely guar) (compPerformOp inst (some x)) (fun _ g' => R g'.stage) g := by
  have hallocs : FreeAllocs guar := fun g a n => h.plain g _ trivial
  refine meets_call (h.plain g _ trivial) fun frame _ => ?_
  obtain ⟨frame, base⟩ := frame
  refine meets_call (h.plain _ _ trivial) fun r _ => ?_
  obtain ⟨st₀, n⟩ := r
  refine meets_call (h.plain _ _ trivial) fun r _ => ?_
  obtain ⟨st, m⟩ := r
  have hgx : x ∈ (g.hold frame).owned := List.mem_cons_of_mem _ hx
  have hgf : frame ∈ (g.hold frame).owned := List.mem_cons_self
  show Meets (opProtocol rely guar) (if st ≠ success then _ else _) _ (g.hold frame)
  split
  · refine meets_call (h.leave _ _ (h.idle _ hi)) fun _ _ => ?_
    exact h.idle _ hi
  refine meets_seq (meets_allocOpBuffers hallocs n m (g.hold frame)) fun r g₁ h₁ => ?_
  obtain ⟨st, b⟩ := r
  obtain ⟨e₁, o₁, p₁⟩ := h₁
  have hi₁ : AllIdle g₁.stage := by rw [e₁]; exact hi
  dsimp only
  refine meets_seq (P := opProtocol rely guar) (M := fun _ g' => R g'.stage) ?_ fun st g₂ h₂ => ?_
  · unfold whenOk
    split
    · next hst =>
      exact h.perform inst _ _ _ frame g₁ hi₁
        fun k => (p₁ hst).blocks (o₁ x hgx) (o₁ frame hgf) inst k
    · exact h.idle _ hi₁
  refine meets_seq (h.meets_freeOpBuffers b h₂) fun _ g₃ h₃ => ?_
  refine meets_call (h.plain _ _ trivial) fun _ _ => ?_
  refine meets_call (h.plain _ _ trivial) fun _ _ => ?_
  refine meets_call (h.plain _ _ trivial) fun _ _ => ?_
  exact meets_call (h.leave _ _ h₃) fun _ _ => h₃

theorem next_before_stage (g : OpGhost) {c : Call} (hc : c.Before) (r : c.Resp) :
    (g.next c r).stage = g.stage := by
  cases c <;> first | exact hc.elim | rfl | skip
  case memAlloc a n =>
    cases r with
    | none => rfl
    | some b => rfl

theorem next_before_owned (g : OpGhost) {c : Call} (hc : c.Before) (r : c.Resp) {b : BlockId}
    (hb : b ∈ g.owned) : b ∈ (g.next c r).owned := by
  cases c <;> first | exact hc.elim | exact hb | skip
  case memAlloc a n =>
    cases r with
    | none => exact hb
    | some x => exact List.mem_cons_of_mem _ hb

theorem before_plain {c : Call} (hc : c.Before) : c.Plain := by
  cases c <;> first | exact hc.elim | trivial

theorem OpRule.meets_worker (h : OpRule rely guar R) (i : ℕ) :
    Meets (opProtocol rely guar) (enqueueQATWork i) (fun _ g' => R g'.stage) OpGhost.start := by
  refine meets_enqueueQATWork (P := opProtocol rely guar) (T := fun g => AllIdle g.stage)
    (S := fun b g => b ∈ g.owned) (U := fun g => R g.stage) ?_ ?_ ?_ ?_ ?_ ?_ i ?_
  · intro g c hc hg
    refine ⟨h.plain g c (before_plain hc), fun r _ => ?_⟩
    show AllIdle (g.next c r).stage
    rw [next_before_stage g hc r]
    exact hg
  · rintro b g c hc ⟨hg, hb⟩
    refine ⟨h.plain g c (before_plain hc), fun r _ => ⟨?_, next_before_owned g hc r hb⟩⟩
    show AllIdle (g.next c r).stage
    rw [next_before_stage g hc r]
    exact hg
  · intro g n b base _ _
    exact List.mem_cons_self
  · exact fun inst b g hg hb => h.meets_compPerformOp inst b hg hb
  · intro g c hc hg
    cases c <;> first | exact hc.elim | exact ⟨h.plain g _ trivial, fun _ _ => hg⟩ | skip
    case memFree a b => exact ⟨h.free g a b hg, fun _ _ => hg⟩
  · exact fun g hg => h.idle _ hg
  · exact fun k => rfl

end rule

/-! ### The submissions -/

def outcome (st : CpaStatus) : Submission := if st = success then .accepted else .rejected

def submitted (s₁ s₂ s₃ : CpaStatus) : Completion → Submission
  | .complete1 => outcome s₁
  | .complete2 => outcome s₂
  | .complete3 => outcome s₃

section submit
variable {rely : OpGhost → (c : Call) → c.Resp → Prop} {guar : OpGhost → Call → Prop}

/-- Initialisations and submissions owe no more than every run gives: the third
submission is the last. -/
def SubmitsFreely (guar : OpGhost → Call → Prop) : Prop :=
  (∀ g k, OpGuar g (.completionInit k) → guar g (.completionInit k)) ∧
  ∀ g inst session src dst frame k, g.stage .complete3 = .ready →
    OpGuar g (.cpaDcCompressData2 inst session src dst frame k) →
      guar g (.cpaDcCompressData2 inst session src dst frame k)

theorem meets_submitAll (hguar : SubmitsFreely guar) (inst : ℕ) (session : Ptr)
    (src dst : CpaBufferList) (frame : BlockId) {g : OpGhost} (hi : AllIdle g.stage)
    (hb : Ready inst session src dst frame g) :
    Meets (opProtocol rely guar) (submitAll inst session src dst frame)
      (fun s₃ g' => ∃ s₁ s₂, g'.stage = submitted s₁ s₂ s₃ ∧
        ∃ g₂ : OpGhost, g₂.stage .complete1 = outcome s₁ ∧ g₂.stage .complete2 = outcome s₂ ∧
          rely g₂ (.cpaDcCompressData2 inst session src dst frame .complete3) s₃) g := by
  obtain ⟨hinit, hsub⟩ := hguar
  refine meets_call (hinit _ _ (hi _)) fun _ _ => ?_
  refine meets_call (hinit _ _ ?_) fun _ _ => ?_
  · exact (g.setStage_other _ (by decide)).trans (hi _)
  refine meets_call (hinit _ _ ?_) fun _ _ => ?_
  · exact (OpGhost.setStage_other _ _ (by decide)).trans
      ((g.setStage_other _ (by decide)).trans (hi _))
  let g₃ : OpGhost := ((g.setStage .complete1 .ready).setStage .complete2 .ready).setStage
    .complete3 .ready
  have hready : ∀ k, g₃.stage k = .ready := by
    intro k
    cases k <;> rfl
  have hready₁ : ∀ (st : Submission) k, k ≠ .complete1 → (g₃.setStage .complete1 st).stage k = .ready :=
    fun st k hk => (g₃.setStage_other st hk).trans (hready k)
  have hready₂ : ∀ st st' : Submission, ((g₃.setStage .complete1 st).setStage .complete2 st').stage
      .complete3 = .ready :=
    fun st st' => (OpGhost.setStage_other _ st' (by decide)).trans (hready₁ st _ (by decide))
  refine meets_call (hsub _ _ _ _ _ _ _ (hready _) ⟨hready _, hb _⟩) fun s₁ _ => ?_
  refine meets_call (hsub _ _ _ _ _ _ _ (hready₁ _ _ (by decide))
    ⟨hready₁ _ _ (by decide), hb _⟩) fun s₂ _ => ?_
  refine ⟨hsub _ _ _ _ _ _ _ (hready₂ _ _) ⟨hready₂ _ _, hb _⟩,
    fun s₃ h₃ => ⟨s₁, s₂, ?_, _, ?_, ?_, h₃⟩⟩
  · funext k
    cases k <;> rfl
  · rfl
  · rfl

end submit

/-! ### What every run owes -/

theorem opGuar_rule : OpRule (fun _ _ _ => True) OpGuar (fun _ => True) where
  plain g c hc := by
    cases c <;> first | exact hc.elim | trivial
  free _ _ _ _ := trivial
  leave _ _ _ := trivial
  idle _ _ := trivial
  perform inst session src dst frame g hi hb := by
    refine meets_call trivial fun _ _ => ?_
    refine meets_seq (meets_submitAll ⟨fun _ _ h => h, fun _ _ _ _ _ _ _ _ h => h⟩ inst session
      src dst frame hi hb) fun s₃ g₁ _ => ?_
    have hwaits : Only (fun c => ∀ g, OpGuar g c) (do
        let status ← waitAll s₃
        whenOk status checkResults) := by
      have hwait : ∀ k, Only (fun c => ∀ g, OpGuar g c) (waitFor k) := fun k =>
        only_bind ((only_perform _ _).mpr fun _ => trivial) fun ok => by
          split <;> trivial
      refine only_bind (only_bind (only_whenOk (hwait _)) fun st =>
        only_bind (only_whenOk (hwait _)) fun st => only_whenOk (hwait _)) fun st => ?_
      refine only_whenOk (only_bind ((only_perform _ _).mpr fun _ => trivial) fun r => ?_)
      split <;> trivial
    exact meets_of_only (fun _ => True) (fun g c hc _ => ⟨hc g, fun _ _ => trivial⟩) hwaits
      trivial

end QatDcSample
