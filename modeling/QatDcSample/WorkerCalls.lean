import QatDcSample.Threads

/-!
# Which calls the parts of a worker make

`enqueueQATWork` around its use of `compPerformOp`: the calls before it, those
after it, and the rule that carries an assertion through the parts around the
operation (`meets_enqueueQATWork`).
-/

namespace QatDcSample
open EventProgram Prog CpaStatus Transition

namespace Call

/-- Calls made before `compPerformOp` is entered, without the start. -/
def Prepare : Call → Prop
  | api f _ => f ≠ .cpaDcRemoveSession ∧ f ≠ .cpaDcGetStats
  | apiSize f _ => f ≠ .cpaDcDeflateCompressBound
  | cpaDcQueryCapabilities _ => True
  | cpaDcInstanceGetInfo2 _ => True
  | memAlloc a _ => a = .contig
  | load _ _ => True
  | store _ _ _ => True
  | readDcInstHandle _ => True
  | readSample _ _ => True
  | pthreadCreatePoller _ => True
  | pthreadDetach => True
  | _ => False

/-- Those of them that have nothing to do with a poller or with the frame of
`dcStatelessSample`. -/
def Build : Call → Prop
  | readSample _ _ => False
  | cpaDcInstanceGetInfo2 _ => False
  | pthreadCreatePoller _ => False
  | pthreadDetach => False
  | c => c.Prepare

theorem Build.prepare {c : Call} (h : c.Build) : c.Prepare := by
  cases c <;> first | exact h | exact h.elim

def Before : Call → Prop
  | cpaDcStartInstance _ _ _ => True
  | c => c.Prepare

theorem Prepare.before {c : Call} (h : c.Prepare) : c.Before := by
  cases c <;> first | exact h | trivial

/-- Calls made after `compPerformOp` has returned, or instead of it. -/
def After : Call → Prop
  | api f _ => f = .cpaDcRemoveSession ∨ f = .cpaDcGetStats
  | memFree a _ => a = .contig
  | load _ _ => True
  | store _ _ _ => True
  | readDcInstHandle _ => True
  | _ => False

/-- Calls of the clean-up: `NULL` is all that is stored. -/
def Clearing : Call → Prop
  | memFree a _ => a = .contig
  | load _ _ => True
  | store _ _ v => v = none
  | _ => False

theorem Clearing.after {c : Call} (h : c.Clearing) : c.After := by
  cases c <;> first | exact h | trivial

/-- Calls that leave memory, the completions and the frame of `dcStatelessSample`
alone, except for the number of intermediate buffers. -/
def Silent : Call → Prop
  | api _ _ => True
  | apiSize f _ => f ≠ .cpaDcGetNumIntermediateBuffers
  | cpaDcQueryCapabilities _ => True
  | cpaDcInstanceGetInfo2 _ => True
  | cpaDcStartInstance _ _ _ => True
  | cpaDcCompressData2 _ _ _ _ _ _ => True
  | completionWait _ => True
  | readResultsStatus => True
  | readDcInstHandle _ => True
  | memcpyInput => True
  | pthreadCreatePoller _ => True
  | pthreadDetach => True
  | _ => False

def InOp : Call → Prop
  | apiSize _ _ => True
  | cpaDcCompressData2 _ _ _ _ _ _ => True
  | memAlloc _ _ => True
  | memFree _ _ => True
  | enterFrame => True
  | leaveFrame _ => True
  | completionInit _ => True
  | completionWait _ => True
  | completionDestroy _ => True
  | readResultsStatus => True
  | memcpyInput => True
  | _ => False

def OfWorker : Call → Prop
  | cpaDcStopInstance _ => False
  | icpSalDcPollInstance _ => False
  | pollReturn _ => False
  | setPollingDc _ => False
  | readPollingDc => False
  | osSleep _ => False
  | setup _ => False
  | teardown _ => False
  | pthreadCreateWorker _ => False
  | pthreadJoin _ => False
  | fopen _ => False
  | fread _ => False
  | fclose _ => False
  | storeTraceTime _ _ _ => False
  | print _ => False
  | returnSample _ => False
  | _ => True

theorem Before.ofWorker {c : Call} (h : c.Before) : c.OfWorker := by
  cases c <;> trivial

theorem InOp.ofWorker {c : Call} (h : c.InOp) : c.OfWorker := by
  cases c <;> trivial

theorem After.ofWorker {c : Call} (h : c.After) : c.OfWorker := by
  cases c <;> trivial

end Call

/-! ### Guards -/

@[simp] theorem whenOk_success (p : Code CpaStatus) : whenOk success p = p := if_pos rfl

theorem whenOk_ne {status : CpaStatus} (h : status ≠ success) (p : Code CpaStatus) :
    whenOk status p = .ret status := if_neg h

theorem whenOkSet_ne {α : Type} {status : CpaStatus} (h : status ≠ success) (old : α)
    (p : Code (CpaStatus × α)) : whenOkSet status old p = .ret (status, old) := if_neg h

theorem waitAll_ne {status : CpaStatus} (h : status ≠ success) : waitAll status = .ret status := by
  simp only [waitAll, whenOk_ne h, ret_bind]

theorem only_whenOk {C : Call → Prop} {status : CpaStatus} {p : Code CpaStatus}
    (hp : Only C p) : Only C (whenOk status p) := by
  unfold whenOk
  split
  · exact hp
  · trivial

theorem only_whenOkSet {C : Call → Prop} {α : Type} {status : CpaStatus} {old : α}
    {p : Code (CpaStatus × α)} (hp : Only C p) : Only C (whenOkSet status old p) := by
  unfold whenOkSet
  split
  · exact hp
  · trivial

theorem only_memAlloc {C : Call → Prop} {a : Allocator} {n : ℕ} (h : C (.memAlloc a n)) :
    Only C (memAlloc a n) := by
  refine only_bind ((only_perform C _).mpr h) fun r => ?_
  cases r with
  | none => trivial
  | some b => trivial

theorem only_memFree {C : Call → Prop} {a : Allocator} {p : Ptr} (h : ∀ b, C (.memFree a b)) :
    Only C (memFree a p) := by
  cases p with
  | none => trivial
  | some b => exact (only_perform C _).mpr (h b)

/-! ### Before the operation -/

theorem build_allocField (p : Ptr) (f : Field) (n : ℕ) :
    Only Call.Build (physContigAllocField p f n) := by
  refine only_bind (only_memAlloc rfl) fun r => ?_
  exact only_bind ((only_perform _ _).mpr trivial) fun _ => trivial

theorem build_allocInterBuffer (arr : Ptr) (n k : ℕ) (status : CpaStatus) :
    Only Call.Build (allocInterBuffer arr n k status) := by
  have hload : ∀ (p : Ptr) (f : Field), Only Call.Build (invoke (.load p f)) :=
    fun p f => (only_perform _ _).mpr trivial
  refine only_bind (only_whenOk (build_allocField _ _ _)) fun _ => ?_
  refine only_bind (only_whenOk (only_bind (hload _ _) fun _ => build_allocField _ _ _)) fun _ => ?_
  refine only_bind (only_whenOk (only_bind (hload _ _) fun _ => build_allocField _ _ _)) fun _ => ?_
  exact only_whenOk (only_bind (hload _ _) fun _ => only_bind (hload _ _) fun _ =>
    build_allocField _ _ _)

theorem build_allocInterLoop (arr : Ptr) (n m : ℕ) :
    ∀ k status, Only Call.Build (allocInterLoop arr n m k status) := by
  induction m with
  | zero => exact fun k status => trivial
  | succ m ih =>
    exact fun k status => only_bind (build_allocInterBuffer arr n k status) fun st => ih (k + 1) st

theorem build_dcInstHandle (i : ℕ) : Only Call.Build (dcInstHandle i) :=
  (only_perform _ _).mpr trivial

theorem build_allocInterBuffers (i : ℕ) : Only Call.Build (allocInterBuffers i) := by
  refine only_bind (build_dcInstHandle i) fun inst => ?_
  refine only_bind ((only_perform _ _).mpr (by simp [Call.Build, Call.Prepare])) fun r => ?_
  refine only_bind (only_whenOkSet (only_bind (build_dcInstHandle i) fun inst =>
    (only_perform _ _).mpr (by simp [Call.Build, Call.Prepare]))) fun r' => ?_
  refine only_bind ?_ fun r'' => only_bind (build_allocInterLoop _ _ _ _ _) fun _ => trivial
  unfold allocInterArray
  split
  · exact only_memAlloc rfl
  · trivial

theorem build_interBuffers (i : ℕ) (cap : CpaDcInstanceCapabilities) (status : CpaStatus) :
    Only Call.Build (interBuffers i cap status) := by
  unfold interBuffers
  split
  · exact build_allocInterBuffers i
  · trivial

theorem prepare_sampleDcStartPolling (inst : ℕ) : Only Call.Prepare (sampleDcStartPolling inst) := by
  refine only_bind ((only_perform _ _).mpr trivial) fun r => ?_
  dsimp only
  split
  · refine only_bind (only_bind ((only_perform _ _).mpr trivial) fun r => ?_) fun _ => trivial
    dsimp only
    split
    · exact only_bind ((only_perform _ _).mpr trivial) fun _ => trivial
    · trivial
  · trivial

theorem prepare_startPolling (i : ℕ) :
    Only Call.Prepare (do
      let inst ← dcInstHandle i
      sampleDcStartPolling inst
      let inst ← dcInstHandle i
      invoke (.apiSize .cpaDcGetSessionSize inst)) := by
  have hhandle : Only Call.Prepare (dcInstHandle i) :=
    only_mono (fun _ hc => hc.prepare) (build_dcInstHandle i)
  refine only_bind hhandle fun inst => ?_
  refine only_bind (prepare_sampleDcStartPolling inst) fun _ => ?_
  refine only_bind hhandle fun inst => ?_
  exact (only_perform _ _).mpr (by simp [Call.Prepare])

theorem before_of_prepare {α : Type} {p : Code α} (h : Only Call.Prepare p) : Only Call.Before p :=
  only_mono (fun _ hc => hc.before) h

theorem before_of_build {α : Type} {p : Code α} (h : Only Call.Build p) : Only Call.Before p :=
  only_mono (fun _ hc => hc.prepare.before) h

theorem build_setAddressTranslation (i : ℕ) (status : CpaStatus) :
    Only Call.Build (whenOk status (do
      let inst ← dcInstHandle i
      invoke (.api .cpaDcSetAddressTranslation inst))) :=
  only_whenOk (only_bind (build_dcInstHandle i) fun inst =>
    (only_perform _ _).mpr (by simp [Call.Build, Call.Prepare]))

theorem before_startInstance (i : ℕ) (status : CpaStatus) (n : ℕ) (arr : Ptr) :
    Only Call.Before (startInstance i status n arr) := by
  refine only_bind (before_of_build (build_setAddressTranslation i status)) fun st => ?_
  exact only_whenOk (only_bind (before_of_build (build_dcInstHandle i)) fun inst =>
    (only_perform _ _).mpr trivial)

/-! ### After it -/

theorem clearing_freeField (p : Ptr) (f : Field) : Only Call.Clearing (physContigFreeField p f) := by
  refine only_bind ((only_perform _ _).mpr trivial) fun v => ?_
  cases v with
  | none => trivial
  | some b =>
    exact only_bind ((only_perform _ _).mpr rfl) fun _ => (only_perform _ _).mpr rfl

theorem clearing_freeInterBuffer (arr : Ptr) (k : ℕ) :
    Only Call.Clearing (freeInterBuffer arr k) := by
  have hload : ∀ (p : Ptr) (f : Field), Only Call.Clearing (invoke (.load p f)) :=
    fun p f => (only_perform _ _).mpr trivial
  refine only_bind (hload _ _) fun list => only_bind (hload _ _) fun flat => ?_
  refine only_bind (clearing_freeField _ _) fun _ => only_bind (hload _ _) fun list => ?_
  refine only_bind (clearing_freeField _ _) fun _ => only_bind (hload _ _) fun list => ?_
  exact only_bind (clearing_freeField _ _) fun _ => clearing_freeField _ _

theorem clearing_freeInterLoop (arr : Ptr) (m : ℕ) :
    ∀ k, Only Call.Clearing (freeInterLoop arr m k) := by
  induction m with
  | zero => exact fun k => trivial
  | succ m ih => exact fun k => only_bind (clearing_freeInterBuffer arr k) fun _ => ih (k + 1)

theorem after_freeInterLoop (arr : Ptr) (m k : ℕ) : Only Call.After (freeInterLoop arr m k) :=
  only_mono (fun _ hc => hc.after) (clearing_freeInterLoop arr m k)

theorem after_cleanUp (session arr : Ptr) (n : ℕ) : Only Call.After (cleanUp session arr n) := by
  refine only_bind (only_memFree fun _ => rfl) fun _ => ?_
  split
  · trivial
  · exact only_bind (after_freeInterLoop _ _ _) fun _ => only_memFree fun _ => rfl

theorem after_getStats (i : ℕ) (status : CpaStatus) :
    Only Call.After (whenOk status (do
      let inst ← dcInstHandle i
      invoke (.api .cpaDcGetStats inst))) :=
  only_whenOk (only_bind ((only_perform _ _).mpr trivial) fun _ =>
    (only_perform _ _).mpr (.inr rfl))

/-! ### Around it -/

theorem silent_dcInstHandle (i : ℕ) : Only Call.Silent (dcInstHandle i) :=
  (only_perform _ _).mpr trivial

theorem silent_startInstance (i : ℕ) (status : CpaStatus) (n : ℕ) (arr : Ptr) :
    Only Call.Silent (startInstance i status n arr) := by
  refine only_bind (only_whenOk (only_bind (silent_dcInstHandle i) fun inst => ?_)) fun st => ?_
  · exact (only_perform _ _).mpr trivial
  · exact only_whenOk (only_bind (silent_dcInstHandle i) fun _ => (only_perform _ _).mpr trivial)

theorem silent_startPolling (i : ℕ) :
    Only Call.Silent (do
      let inst ← dcInstHandle i
      sampleDcStartPolling inst
      let inst ← dcInstHandle i
      invoke (.apiSize .cpaDcGetSessionSize inst)) := by
  refine only_bind (silent_dcInstHandle i) fun inst => only_bind ?_ fun _ => ?_
  · refine only_bind ((only_perform _ _).mpr trivial) fun r => ?_
    dsimp only
    split
    · refine only_bind (only_bind ((only_perform _ _).mpr trivial) fun r => ?_) fun _ => trivial
      dsimp only
      split
      · exact only_bind ((only_perform _ _).mpr trivial) fun _ => trivial
      · trivial
    · trivial
  · refine only_bind (silent_dcInstHandle i) fun inst => ?_
    exact (only_perform _ _).mpr (by simp [Call.Silent])

theorem silent_apiWhenOk (i : ℕ) (status : CpaStatus) (f : StatusFn) :
    Only Call.Silent (whenOk status (do
      let inst ← dcInstHandle i
      invoke (.api f inst))) :=
  only_whenOk (only_bind (silent_dcInstHandle i) fun _ => (only_perform _ _).mpr trivial)

/-! ### The whole worker -/

section rule
variable {P : Protocol Call Call.Resp}

/-- The calls of class `C` keep the assertion `T`. -/
def Keeps (P : Protocol Call Call.Resp) (C : Call → Prop) (T : P.σ → Prop) : Prop :=
  ∀ g c, C c → T g → P.guar g c ∧ ∀ r, P.rely g c r → T (P.next g c r)

theorem Keeps.meets {C : Call → Prop} {T : P.σ → Prop} (h : Keeps P C T) {α : Type}
    {p : Code α} (hp : Only C p) {g : P.σ} (hg : T g) : Meets P p (fun _ g' => T g') g :=
  meets_of_only T h hp hg

theorem Keeps.invoke {C : Call → Prop} {T : P.σ → Prop} (h : Keeps P C T) {c : Call}
    (hc : C c) {g : P.σ} (hg : T g) : Meets P (invoke c) (fun _ g' => T g') g :=
  h.meets ((only_perform C c).mpr hc) hg

variable {T : P.σ → Prop} {S : ℕ → P.σ → Prop} {U : P.σ → Prop}

/-- The session memory: `S b` holds once block `b` was allocated for it. -/
theorem meets_initSession (hT : Keeps P Call.Before T)
    (hS : ∀ b, Keeps P Call.Before (fun g => T g ∧ S b g))
    (hnew : ∀ g n b base, T g → P.rely g (.memAlloc .contig n) (some (b, base)) →
      S b (P.next g (.memAlloc .contig n) (some (b, base))))
    (i : ℕ) (status : CpaStatus) {g : P.σ} (hg : T g) :
    Meets P (initSession i status)
      (fun r g' => T g' ∧ (r.1 = success → ∃ b, r.2 = some b ∧ S b g')) g := by
  refine meets_seq (M := fun _ g' => T g') ?_ fun r g₁ h₁ => ?_
  · refine hT.meets (only_whenOkSet ?_) hg
    exact before_of_prepare (prepare_startPolling i)
  obtain ⟨st, sessSize⟩ := r
  dsimp only
  refine meets_seq
    (M := fun r g' => T g' ∧ (r.1 = success → ∃ b, r.2 = some b ∧ S b g')) ?_ ?_
  · unfold whenOkSet
    split
    · refine (meets_bind _ _ _ _).mpr ?_
      refine ⟨(hT g₁ (.memAlloc .contig sessSize) rfl h₁).1, fun r hr => ?_⟩
      have ht := (hT g₁ (.memAlloc .contig sessSize) rfl h₁).2 r hr
      cases r with
      | none => exact ⟨ht, fun h => absurd h resource_ne_success⟩
      | some b =>
        obtain ⟨b, base⟩ := b
        exact ⟨ht, fun _ => ⟨b, rfl, hnew g₁ sessSize b base h₁ hr⟩⟩
    · next hst => exact ⟨h₁, fun h => absurd h hst⟩
  · rintro ⟨st₂, p⟩ g₂ ⟨ht, hs⟩
    dsimp only at hs ⊢
    have hinit : Only Call.Before (do
        let inst ← dcInstHandle i
        QatDcSample.invoke (.api .cpaDcInitSession inst)) :=
      before_of_build (only_bind (build_dcInstHandle i) fun inst =>
        (only_perform _ _).mpr (by simp [Call.Build, Call.Prepare]))
    by_cases hst : st₂ = success
    · obtain ⟨b, rfl, hb⟩ := hs hst
      refine meets_seq ((hS b).meets (only_whenOk hinit) ⟨ht, hb⟩) fun st₃ g₃ h₃ => ?_
      exact ⟨h₃.1, fun _ => ⟨b, rfl, h₃.2⟩⟩
    · refine meets_seq (M := fun r g' => T g' ∧ r = st₂) ?_ fun st₃ g₃ h₃ => ?_
      · unfold whenOk
        simp only [hst, if_false]
        exact ⟨ht, rfl⟩
      · exact ⟨h₃.1, fun h => absurd (h₃.2 ▸ h) hst⟩

theorem meets_runSession (hS : ∀ b, Keeps P Call.Before (fun g => T g ∧ S b g))
    (hU : Keeps P Call.After U)
    (hop : ∀ inst b g, T g → S b g → Meets P (compPerformOp inst (some b)) (fun _ g' => U g') g)
    (i b : ℕ) {g : P.σ} (hg : T g) (hb : S b g) :
    Meets P (runSession i (some b)) (fun _ g' => U g') g := by
  refine meets_seq ((hS b).invoke (c := .readSample i .bufPtr) trivial ⟨hg, hb⟩) fun _ g₁ h₁ => ?_
  refine meets_seq ((hS b).meets (before_of_build (build_dcInstHandle i)) h₁) fun inst g₂ h₂ => ?_
  refine meets_seq (hop inst b g₂ h₂.1 h₂.2) fun st g₃ h₃ => ?_
  refine meets_seq (hU.invoke (c := .readDcInstHandle i) trivial h₃) fun inst g₄ h₄ => ?_
  refine meets_seq (hU.invoke (c := .api .cpaDcRemoveSession inst) (.inl rfl) h₄) fun st' g₅ h₅ => ?_
  split
  · exact h₅
  · exact h₅

/-- `T` before the operation, `S b` for its session block `b`, `U` afterwards. -/
theorem meets_enqueueQATWork (hT : Keeps P Call.Before T)
    (hS : ∀ b, Keeps P Call.Before (fun g => T g ∧ S b g))
    (hnew : ∀ g n b base, T g → P.rely g (.memAlloc .contig n) (some (b, base)) →
      S b (P.next g (.memAlloc .contig n) (some (b, base))))
    (hop : ∀ inst b g, T g → S b g → Meets P (compPerformOp inst (some b)) (fun _ g' => U g') g)
    (hU : Keeps P Call.After U) (hTU : ∀ g, T g → U g) (i : ℕ) {g : P.σ} (hg : T g) :
    Meets P (enqueueQATWork i) (fun _ g' => U g') g := by
  refine meets_seq (hT.invoke (c := .readSample i (.interval 1)) trivial hg) fun _ g₁ h₁ => ?_
  refine meets_seq (hT.meets (before_of_build (build_dcInstHandle i)) h₁) fun inst g₂ h₂ => ?_
  refine meets_seq (hT.invoke (c := .cpaDcQueryCapabilities inst) trivial h₂) fun r g₃ h₃ => ?_
  obtain ⟨st, cap⟩ := r
  dsimp only
  split
  · exact hTU g₃ h₃
  refine meets_seq (hT.meets (before_of_build (build_interBuffers i cap st)) h₃) fun r g₄ h₄ => ?_
  obtain ⟨st, num, arr⟩ := r
  dsimp only
  refine meets_seq (hT.meets (before_startInstance i st num arr) h₄) fun st g₅ h₅ => ?_
  refine meets_seq (meets_initSession hT hS hnew i st h₅) fun r g₆ h₆ => ?_
  obtain ⟨st, session⟩ := r
  dsimp only
  refine meets_seq (M := fun _ g' => U g') ?_ fun st g₇ h₇ => ?_
  · unfold whenOk
    split
    · next hst =>
      obtain ⟨b, hb, hbs⟩ := h₆.2 hst
      dsimp only at hb
      subst hb
      exact meets_runSession hS hU hop i b h₆.1 hbs
    · exact hTU g₆ h₆.1
  refine meets_seq (hU.meets (after_getStats i st) h₇) fun st g₈ h₈ => ?_
  exact meets_seq (hU.meets (after_cleanUp session arr num) h₈) fun _ g₉ h₉ => h₉

end rule

/-! ### All calls of a worker -/

theorem inOp_allocOpBuffers (n m : ℕ) : Only Call.InOp (allocOpBuffers n m) := by
  have halloc : ∀ (a : Allocator) (n : ℕ), Only Call.InOp (memAlloc a n) :=
    fun a n => only_memAlloc trivial
  refine only_bind (halloc _ _) fun _ => only_bind (only_whenOkSet (halloc _ _)) fun _ => ?_
  refine only_bind (only_whenOkSet (halloc _ _)) fun _ => ?_
  refine only_bind (only_whenOkSet (halloc _ _)) fun _ => ?_
  refine only_bind (only_whenOkSet (halloc _ _)) fun _ => ?_
  exact only_bind (only_whenOkSet (halloc _ _)) fun _ => trivial

theorem inOp_performOp (inst : ℕ) (session : Ptr) (src dst : CpaBufferList)
    (frame : BlockId) : Only Call.InOp (performOp inst session src dst frame) := by
  have hcall : ∀ c : Call, c.InOp → Only Call.InOp (invoke c) :=
    fun c hc => (only_perform _ c).mpr hc
  have hwait : ∀ k, Only Call.InOp (waitFor k) := fun k =>
    only_bind (hcall _ trivial) fun ok => by split <;> trivial
  refine only_bind (hcall _ trivial) fun _ => only_bind ?_ fun st => only_bind ?_ fun st => ?_
  · refine only_bind (hcall _ trivial) fun _ => only_bind (hcall _ trivial) fun _ => ?_
    refine only_bind (hcall _ trivial) fun _ => only_bind (hcall _ trivial) fun _ => ?_
    exact only_bind (hcall _ trivial) fun _ => hcall _ trivial
  · refine only_bind (only_whenOk (hwait _)) fun st => ?_
    exact only_bind (only_whenOk (hwait _)) fun st => only_whenOk (hwait _)
  · exact only_whenOk (only_bind (hcall _ trivial) fun r => by split <;> trivial)

theorem inOp_freeOpBuffers (b : OpBuffers) : Only Call.InOp (freeOpBuffers b) := by
  have hfree : ∀ (a : Allocator) (p : Ptr), Only Call.InOp (memFree a p) :=
    fun a p => only_memFree fun _ => trivial
  refine only_bind (hfree _ _) fun _ => only_bind (hfree _ _) fun _ => ?_
  refine only_bind (hfree _ _) fun _ => only_bind (hfree _ _) fun _ => ?_
  exact only_bind (hfree _ _) fun _ => hfree _ _

theorem inOp_compPerformOp (inst : ℕ) (session : Ptr) :
    Only Call.InOp (compPerformOp inst session) := by
  have hcall : ∀ c : Call, c.InOp → Only Call.InOp (invoke c) :=
    fun c hc => (only_perform _ c).mpr hc
  refine only_bind (hcall _ trivial) fun frame => only_bind (hcall _ trivial) fun r => ?_
  refine only_bind (hcall _ trivial) fun r => ?_
  dsimp only
  split
  · exact only_bind (hcall _ trivial) fun _ => trivial
  refine only_bind (inOp_allocOpBuffers _ _) fun r => ?_
  refine only_bind (only_whenOk (inOp_performOp _ _ _ _ _)) fun st => ?_
  refine only_bind (inOp_freeOpBuffers _) fun _ => only_bind (hcall _ trivial) fun _ => ?_
  refine only_bind (hcall _ trivial) fun _ => only_bind (hcall _ trivial) fun _ => ?_
  exact only_bind (hcall _ trivial) fun _ => trivial

theorem meets_worker_calls (i : ℕ) :
    Meets (onlyProtocol Call.OfWorker) (enqueueQATWork i) (fun _ _ => True) () := by
  refine meets_enqueueQATWork (T := fun _ => True) (S := fun _ _ => True) (U := fun _ => True)
    ?_ ?_ ?_ ?_ ?_ ?_ i trivial
  · exact fun _ c hc _ => ⟨hc.ofWorker, fun _ _ => trivial⟩
  · exact fun _ _ c hc _ => ⟨hc.ofWorker, fun _ _ => ⟨trivial, trivial⟩⟩
  · exact fun _ _ _ _ _ _ => trivial
  · exact fun inst b _ _ _ => meets_onlyProtocol
      (only_mono (fun _ hc => hc.ofWorker) (inOp_compPerformOp inst (some b)))
  · exact fun _ c hc _ => ⟨hc.ofWorker, fun _ _ => trivial⟩
  · exact fun _ _ => trivial

theorem ofWorker_reached {cfg : Cfg} {ok : State → Entry → Prop} {s : State}
    (hr : ReachVia (Step cfg) ok (initial cfg) s) {i : ℕ} {c : Call} {k : c.Resp → Code CpaStatus}
    (hw : s.worker i = some (.call c k)) : c.OfWorker :=
  ((worker_meets_always (fun _ _ _ => trivial)
    (workerMeets_initial cfg (meets_worker_calls i)) hr).left _ hw).1

namespace Call

def OfPoller : Call → Prop
  | setPollingDc v => v = true
  | readPollingDc => True
  | icpSalDcPollInstance _ => True
  | pollReturn _ => True
  | osSleep _ => True
  | _ => False

end Call

theorem ofPoller_next {p : Poller} {c : Call} {k : c.Resp → Poller} (h : p.next = some ⟨c, k⟩) :
    c.OfPoller := by
  obtain ⟨inst, pc⟩ := p
  cases pc <;> cases h <;> trivial

theorem memAfter_poller (t : Tid) (m : Mem) {c : Call} (hc : c.OfPoller) (r : c.Resp) :
    memAfter t m c r = m := by
  cases c <;> first | rfl | exact hc.elim

end QatDcSample
