import QatDcSample.WorkerLifetime

/-!
# What the run reports

A worker's local status at its end tells whether a call whose failure
`enqueueQATWork` looks at has failed. It is dropped there (`return NULL`, and
`pthread_join(threads[i], NULL)`), and the status of the run tells about the main
thread's own calls only.
-/

namespace QatDcSample
open EventProgram Prog CpaStatus Transition

/-- The answer is a failure that the worker looks at. Inside `compPerformOp` it
does not look at the metadata size; nowhere at the first two submissions, and not
at what happens in `sampleDcStartPolling`. -/
def Call.noticed (inOp : Bool) : (c : Call) → c.Resp → Bool
  | .api _ _, (st : CpaStatus) => st ≠ success
  | .apiSize .cpaDcBufferListGetMetaSize _, r => !inOp && r.1 ≠ success
  | .apiSize _ _, r => r.1 ≠ success
  | .cpaDcQueryCapabilities _, r => r.1 ≠ success
  | .cpaDcStartInstance _ _ _, (st : CpaStatus) => st ≠ success
  | .cpaDcCompressData2 _ _ _ _ _ .complete3, (st : CpaStatus) => st ≠ success
  | .memAlloc _ _, r => r.isNone
  | .completionWait _, ok => !ok
  | .readResultsStatus, st => st ≠ .ok
  | _, _ => false

/-- `inOp` inside `compPerformOp`; `failed` once a failure was noticed. -/
structure WorkGhost where
  inOp : Bool
  failed : Bool

namespace WorkGhost

def start : WorkGhost := ⟨false, false⟩

def inOpAfter (b : Bool) : Call → Bool
  | .enterFrame => true
  | .leaveFrame _ => false
  | _ => b

def next (g : WorkGhost) (c : Call) (r : c.Resp) : WorkGhost :=
  ⟨inOpAfter g.inOp c, g.failed || c.noticed g.inOp r⟩

end WorkGhost

@[reducible] def workProtocol : Protocol Call Call.Resp where
  σ := WorkGhost
  next := WorkGhost.next
  rely := fun _ _ _ => True
  guar := fun _ _ => True

/-- The status tells whether a failure was noticed. -/
def Tracks (inOp : Bool) (status : CpaStatus) (g : WorkGhost) : Prop :=
  g.inOp = inOp ∧ (status = success ↔ g.failed = false)

variable {b : Bool} {status : CpaStatus} {g : WorkGhost}

theorem tracks_next (h : Tracks b success g) {c : Call} {r : c.Resp} {st : CpaStatus}
    (hn : c.noticed b r = decide (st ≠ success)) (b' : Bool)
    (hb : WorkGhost.inOpAfter b c = b') : Tracks b' st (g.next c r) := by
  obtain ⟨hin, hst⟩ := h
  have hf : g.failed = false := hst.mp rfl
  refine ⟨by rw [WorkGhost.next, hin]; exact hb, ?_⟩
  simp [WorkGhost.next, hin, hn, hf]

theorem tracks_quiet (h : Tracks b status g) {c : Call} {r : c.Resp} (hn : c.noticed b r = false)
    (b' : Bool) (hb : WorkGhost.inOpAfter b c = b') : Tracks b' status (g.next c r) := by
  obtain ⟨hin, hst⟩ := h
  refine ⟨by rw [WorkGhost.next, hin]; exact hb, ?_⟩
  simpa [WorkGhost.next, hin, hn] using hst

theorem tracks_whenOk {p : Code CpaStatus} (h : Tracks b status g)
    (hp : Tracks b success g → Meets workProtocol p (Tracks b) g) :
    Meets workProtocol (whenOk status p) (Tracks b) g := by
  by_cases hst : status = success
  · subst hst
    rw [whenOk_success]
    exact hp h
  · rw [whenOk_ne hst]
    exact h

theorem tracks_whenOkSet {α : Type} {old : α} {p : Code (CpaStatus × α)} (h : Tracks b status g)
    (hp : Tracks b success g → Meets workProtocol p (fun r g' => Tracks b r.1 g') g) :
    Meets workProtocol (whenOkSet status old p) (fun r g' => Tracks b r.1 g') g := by
  unfold whenOkSet
  split
  · next hst =>
    subst hst
    exact hp h
  · exact h

theorem tracks_memAlloc (h : Tracks b success g) (a : Allocator) (n : ℕ) :
    Meets workProtocol (memAlloc a n) (fun r g' => Tracks b r.1 g') g := by
  refine meets_call trivial fun r _ => ?_
  cases r with
  | none => exact tracks_next h rfl b rfl
  | some x => exact tracks_next h rfl b rfl

theorem tracks_neutral {α : Type} {C : Call → Prop} {p : Code α}
    (hC : ∀ c, C c → Neutral workProtocol c) (hp : Only C p) (g : WorkGhost) :
    Meets workProtocol p (fun _ g' => g' = g) g :=
  meets_neutral (P := workProtocol) (only_mono hC hp) g

theorem neutral_of_quiet {c : Call} (hn : ∀ inOp r, c.noticed inOp r = false)
    (hb : ∀ b, WorkGhost.inOpAfter b c = b) : Neutral workProtocol c :=
  fun g => ⟨trivial, fun r => by simp [WorkGhost.next, hn, hb]⟩

theorem neutral_memFree (a : Allocator) (x : BlockId) : Neutral workProtocol (.memFree a x) :=
  neutral_of_quiet (fun _ _ => rfl) fun _ => rfl

/-! ### compPerformOp -/

theorem tracks_allocOpBuffers (h : Tracks b success g) (n m : ℕ) :
    Meets workProtocol (allocOpBuffers n m) (fun r g' => Tracks b r.1 g') g := by
  have halloc : ∀ (a : Allocator) (n : ℕ) {st : CpaStatus} {g : WorkGhost}, Tracks b st g →
      Meets workProtocol (whenOkSet st none (memAlloc a n)) (fun r g' => Tracks b r.1 g') g :=
    fun a n _ _ h => tracks_whenOkSet h fun h => tracks_memAlloc h a n
  refine meets_seq (tracks_memAlloc h .contig n) fun r₁ g₁ h₁ => ?_
  refine meets_seq (halloc .os bufferListMemSize h₁) fun r₂ g₂ h₂ => ?_
  refine meets_seq (halloc .contig sampleMaxBuff h₂) fun r₃ g₃ h₃ => ?_
  refine meets_seq (halloc .contig n h₃) fun r₄ g₄ h₄ => ?_
  refine meets_seq (halloc .os bufferListMemSize h₄) fun r₅ g₅ h₅ => ?_
  exact meets_seq (halloc .contig m h₅) fun r₆ g₆ h₆ => h₆

theorem tracks_waitFor (k : Completion) (h : Tracks b success g) :
    Meets workProtocol (waitFor k) (Tracks b) g := by
  refine meets_call trivial fun ok _ => ?_
  cases ok with
  | false => exact tracks_next h rfl b rfl
  | true => exact tracks_next h rfl b rfl

theorem tracks_performOp (inst : ℕ) (session : Ptr) (src dst : CpaBufferList) (frame : BlockId)
    (h : Tracks b success g) :
    Meets workProtocol (performOp inst session src dst frame) (Tracks b) g := by
  refine meets_call trivial fun _ _ => ?_
  have h₀ := tracks_quiet h (c := .memcpyInput) (r := ()) rfl b rfl
  refine meets_seq (M := Tracks b) ?_ fun st g' h' => ?_
  · refine meets_call trivial fun _ _ => ?_
    refine meets_call trivial fun _ _ => ?_
    refine meets_call trivial fun _ _ => ?_
    refine meets_call trivial fun s₁ _ => ?_
    refine meets_call trivial fun s₂ _ => ⟨trivial, fun s₃ _ => ?_⟩
    refine tracks_next ?_ rfl b rfl
    -- the statuses of the first two submissions are overwritten
    refine tracks_quiet (tracks_quiet ?_ rfl b rfl) rfl b rfl
    exact tracks_quiet (tracks_quiet (tracks_quiet h₀ rfl b rfl) rfl b rfl) rfl b rfl
  · refine meets_seq (M := Tracks b) ?_ fun st g' h' => ?_
    · refine meets_seq (tracks_whenOk h' (tracks_waitFor .complete1)) fun st₁ g₁ h₁ => ?_
      refine meets_seq (tracks_whenOk h₁ (tracks_waitFor .complete2)) fun st₂ g₂ h₂ => ?_
      exact tracks_whenOk h₂ (tracks_waitFor .complete3)
    · refine tracks_whenOk h' fun h' => meets_call trivial fun res _ => ?_
      show Meets workProtocol (if res = .ok then pure success else pure fail) _ _
      by_cases hres : res = .ok
      · rw [if_pos hres]
        exact tracks_next h' (by simp [Call.noticed, hres]) b rfl
      · rw [if_neg hres]
        exact tracks_next h' (by simp [Call.noticed, hres]) b rfl

theorem tracks_compPerformOp (inst : ℕ) (session : Ptr) (h : Tracks false success g) :
    Meets workProtocol (compPerformOp inst session) (Tracks false) g := by
  refine meets_call trivial fun frame _ => ?_
  refine meets_call trivial fun r₀ _ => ?_
  refine meets_call trivial fun r _ => ?_
  have h₁ : Tracks true success (g.next .enterFrame frame) := tracks_quiet h rfl true rfl
  have h₂ := tracks_quiet h₁ (c := .apiSize .cpaDcBufferListGetMetaSize inst) (r := r₀) rfl true rfl
  have h₃ : Tracks true r.1 (WorkGhost.next _ (.apiSize .cpaDcDeflateCompressBound inst) r) :=
    tracks_next h₂ rfl true rfl
  obtain ⟨st, n⟩ := r
  show Meets workProtocol (if st ≠ success then _ else _) _ _
  split
  · next hst =>
    refine meets_call trivial fun _ _ => ?_
    have h₄ := tracks_quiet h₃ (c := .leaveFrame frame.1) (r := ()) rfl false rfl
    exact ⟨h₄.1, (iff_of_false fail_ne_success (mt h₄.2.mpr hst))⟩
  next hst =>
  rw [not_not] at hst
  subst hst
  refine meets_seq (tracks_allocOpBuffers h₃ _ n) ?_
  rintro ⟨st, bufs⟩ g₄ h₄
  refine meets_seq (tracks_whenOk h₄ (tracks_performOp inst session _ _ frame.1)) fun st g₅ h₅ => ?_
  have hfree : Only (Neutral workProtocol) (freeOpBuffers bufs) := by
    have hf : ∀ (a : Allocator) (p : Ptr), Only (Neutral workProtocol) (memFree a p) :=
      fun a p => only_memFree fun x => neutral_memFree a x
    refine only_bind (hf _ _) fun _ => only_bind (hf _ _) fun _ => only_bind (hf _ _) fun _ => ?_
    exact only_bind (hf _ _) fun _ => only_bind (hf _ _) fun _ => hf _ _
  refine meets_seq (tracks_neutral (fun _ hc => hc) hfree g₅) ?_
  rintro - g₆ rfl
  refine meets_call trivial fun _ _ => ?_
  refine meets_call trivial fun _ _ => ?_
  refine meets_call trivial fun _ _ => ?_
  refine meets_call trivial fun _ _ => ?_
  refine tracks_quiet (b := true) ?_ rfl false rfl
  exact tracks_quiet (tracks_quiet (tracks_quiet h₅ rfl true rfl) rfl true rfl) rfl true rfl

/-! ### enqueueQATWork -/

theorem neutral_readDcInstHandle (i : ℕ) : Neutral workProtocol (.readDcInstHandle i) :=
  neutral_of_quiet (fun _ _ => rfl) fun _ => rfl

theorem tracks_onInstance {β : Type} {Q : β → WorkGhost → Prop} (i : ℕ) {p : ℕ → Code β}
    (hp : ∀ inst, Meets workProtocol (p inst) Q g) :
    Meets workProtocol (do let inst ← dcInstHandle i; p inst) Q g := by
  refine meets_call trivial fun inst _ => ?_
  rw [(neutral_readDcInstHandle i g).2 inst]
  exact hp inst

theorem tracks_api (f : StatusFn) (inst : ℕ) (h : Tracks b success g) :
    Meets workProtocol (invoke (.api f inst)) (Tracks b) g :=
  ⟨trivial, fun _ _ => tracks_next h rfl b rfl⟩

theorem tracks_apiSize (f : SizeFn) (inst : ℕ) (h : Tracks false success g) :
    Meets workProtocol (invoke (.apiSize f inst)) (fun r g' => Tracks false r.1 g') g := by
  refine ⟨trivial, fun r _ => ?_⟩
  cases f <;> exact tracks_next h rfl false rfl

theorem tracks_allocField (p : Ptr) (f : Field) (n : ℕ) (h : Tracks b success g) :
    Meets workProtocol (physContigAllocField p f n) (Tracks b) g := by
  refine meets_seq (tracks_memAlloc h .contig n) fun r g' h' => ?_
  exact meets_call trivial fun _ _ => tracks_quiet h' rfl b rfl

theorem neutral_load (p : Ptr) (f : Field) : Neutral workProtocol (.load p f) :=
  neutral_of_quiet (fun _ _ => rfl) fun _ => rfl

theorem tracks_afterLoad {Q : CpaStatus → WorkGhost → Prop} (p : Ptr) (f : Field)
    {q : Ptr → Code CpaStatus} (hq : ∀ v, Meets workProtocol (q v) Q g) :
    Meets workProtocol (do let v ← invoke (.load p f); q v) Q g := by
  refine meets_call trivial fun v _ => ?_
  rw [(neutral_load p f g).2 v]
  exact hq v

theorem tracks_allocInterBuffer (arr : Ptr) (n k : ℕ) (h : Tracks b status g) :
    Meets workProtocol (allocInterBuffer arr n k status) (Tracks b) g := by
  refine meets_seq (tracks_whenOk h fun h => tracks_allocField _ _ _ h) fun st₁ g₁ h₁ => ?_
  refine meets_seq (tracks_whenOk h₁ fun h => tracks_afterLoad _ _ fun _ =>
    tracks_allocField _ _ _ h) fun st₂ g₂ h₂ => ?_
  refine meets_seq (tracks_whenOk h₂ fun h => tracks_afterLoad _ _ fun _ =>
    tracks_allocField _ _ _ h) fun st₃ g₃ h₃ => ?_
  exact tracks_whenOk h₃ fun h => tracks_afterLoad _ _ fun _ => tracks_afterLoad _ _ fun _ =>
    tracks_allocField _ _ _ h

theorem tracks_allocInterLoop (arr : Ptr) (n m : ℕ) : ∀ (k : ℕ) {status : CpaStatus}
    {g : WorkGhost}, Tracks b status g →
    Meets workProtocol (allocInterLoop arr n m k status) (Tracks b) g := by
  induction m with
  | zero => exact fun k _ _ h => h
  | succ m ih =>
    exact fun k _ _ h => meets_seq (tracks_allocInterBuffer arr n k h) fun st g' h' => ih (k + 1) h'

theorem tracks_allocInterBuffers (i : ℕ) (h : Tracks false success g) :
    Meets workProtocol (allocInterBuffers i) (fun r g' => Tracks false r.1 g') g := by
  refine tracks_onInstance i fun inst => ?_
  refine meets_seq (tracks_apiSize _ inst h) ?_
  rintro ⟨st, n⟩ g₁ h₁
  refine meets_seq (tracks_whenOkSet h₁ fun h => tracks_onInstance i fun inst =>
    tracks_apiSize _ inst h) ?_
  rintro ⟨st, m⟩ g₂ h₂
  refine meets_seq (M := fun r g' => Tracks false r.1 g') ?_ ?_
  · unfold allocInterArray
    split
    · next hst =>
      obtain ⟨hst, -⟩ := hst
      dsimp only at hst h₂
      subst hst
      exact tracks_memAlloc h₂ _ _
    · exact h₂
  · rintro ⟨st, arr⟩ g₃ h₃
    exact meets_seq (tracks_allocInterLoop arr n m 0 h₃) fun st g₄ h₄ => h₄

theorem tracks_startInstance (i n : ℕ) (arr : Ptr) (h : Tracks false status g) :
    Meets workProtocol (startInstance i status n arr) (Tracks false) g := by
  refine meets_seq (tracks_whenOk h fun h => tracks_onInstance i fun inst =>
    tracks_api _ inst h) fun st g₁ h₁ => ?_
  exact tracks_whenOk h₁ fun h => tracks_onInstance i fun inst =>
    ⟨trivial, fun _ _ => tracks_next h rfl false rfl⟩

theorem neutral_sampleDcStartPolling (inst : ℕ) :
    Only (Neutral workProtocol) (sampleDcStartPolling inst) := by
  refine only_bind ((only_perform _ _).mpr (neutral_of_quiet (fun _ _ => rfl) fun _ => rfl))
    fun r => ?_
  dsimp only
  split
  · refine only_bind (only_bind ((only_perform _ _).mpr
      (neutral_of_quiet (fun _ _ => rfl) fun _ => rfl)) fun r => ?_) fun _ => trivial
    dsimp only
    split
    · exact only_bind ((only_perform _ _).mpr (neutral_of_quiet (fun _ _ => rfl) fun _ => rfl))
        fun _ => trivial
    · trivial
  · trivial

theorem tracks_initSession (i : ℕ) (h : Tracks false status g) :
    Meets workProtocol (initSession i status) (fun r g' => Tracks false r.1 g') g := by
  refine meets_seq (tracks_whenOkSet h fun h => tracks_onInstance i fun inst => ?_) ?_
  · refine meets_seq (tracks_neutral (fun _ hc => hc) (neutral_sampleDcStartPolling inst) g) ?_
    rintro - g' rfl
    exact tracks_onInstance i fun inst => tracks_apiSize _ inst h
  rintro ⟨st, n⟩ g₁ h₁
  refine meets_seq (tracks_whenOkSet h₁ fun h => tracks_memAlloc h _ _) ?_
  rintro ⟨st, session⟩ g₂ h₂
  exact meets_seq (tracks_whenOk h₂ fun h => tracks_onInstance i fun inst =>
    tracks_api _ inst h) fun st g₃ h₃ => h₃

theorem tracks_runSession (i : ℕ) (session : Ptr) (h : Tracks false success g) :
    Meets workProtocol (runSession i session) (Tracks false) g := by
  refine meets_call trivial fun _ _ => ?_
  have h₀ := tracks_quiet h (c := .readSample i .bufPtr) (r := ()) rfl false rfl
  refine tracks_onInstance i fun inst => ?_
  refine meets_seq (tracks_compPerformOp inst session h₀) fun st g₁ h₁ => ?_
  refine tracks_onInstance i fun inst => meets_call trivial fun st' _ => ?_
  show Meets workProtocol (if st = success then pure st' else pure st) _ _
  by_cases hst : st = success
  · subst hst
    rw [if_pos rfl]
    exact tracks_next h₁ rfl false rfl
  · -- the operation has failed: the status of the removal is dropped
    rw [if_neg hst]
    have hf : g₁.failed = true := by
      by_contra hf
      exact hst (h₁.2.mpr (by simpa using hf))
    refine ⟨h₁.1, iff_of_false hst ?_⟩
    simp [WorkGhost.next, hf]

theorem neutral_cleanUp (session arr : Ptr) (n : ℕ) :
    Only (Neutral workProtocol) (cleanUp session arr n) := by
  have hfree : ∀ p : Ptr, Only (Neutral workProtocol) (memFree .contig p) :=
    fun p => only_memFree fun x => neutral_memFree .contig x
  have hload : ∀ (p : Ptr) (f : Field), Only (Neutral workProtocol) (invoke (.load p f)) :=
    fun p f => (only_perform _ _).mpr (neutral_load p f)
  have hfield : ∀ (p : Ptr) (f : Field), Only (Neutral workProtocol) (physContigFreeField p f) := by
    intro p f
    refine only_bind (hload p f) fun v => ?_
    cases v with
    | none => trivial
    | some x =>
      exact only_bind ((only_perform _ _).mpr (neutral_memFree .contig x)) fun _ =>
        (only_perform _ _).mpr (neutral_of_quiet (fun _ _ => rfl) fun _ => rfl)
  have hloop : ∀ m k, Only (Neutral workProtocol) (freeInterLoop arr m k) := by
    intro m
    induction m with
    | zero => exact fun k => trivial
    | succ m ih =>
      refine fun k => only_bind ?_ fun _ => ih (k + 1)
      refine only_bind (hload _ _) fun list => only_bind (hload _ _) fun flat => ?_
      refine only_bind (hfield _ _) fun _ => only_bind (hload _ _) fun list => ?_
      refine only_bind (hfield _ _) fun _ => only_bind (hload _ _) fun list => ?_
      exact only_bind (hfield _ _) fun _ => hfield _ _
  refine only_bind (hfree _) fun _ => ?_
  split
  · trivial
  · exact only_bind (hloop _ _) fun _ => hfree _

theorem tracks_enqueueQATWork (i : ℕ) :
    Meets workProtocol (enqueueQATWork i) (Tracks false) WorkGhost.start := by
  have h : Tracks false success WorkGhost.start := ⟨rfl, iff_of_true rfl rfl⟩
  refine meets_call trivial fun _ _ => ?_
  have h₀ := tracks_quiet h (c := .readSample i (.interval 1)) (r := ()) rfl false rfl
  refine tracks_onInstance i fun inst => meets_call trivial fun r _ => ?_
  have h₁ : Tracks false r.1 (WorkGhost.next _ (.cpaDcQueryCapabilities inst) r) :=
    tracks_next h₀ rfl false rfl
  obtain ⟨st, cap⟩ := r
  show Meets workProtocol (if st ≠ success then _ else _) _ _
  split
  · exact h₁
  next hst =>
  rw [not_not] at hst
  subst hst
  refine meets_seq (M := fun r g' => Tracks false r.1 g') ?_ ?_
  · unfold interBuffers
    split
    · exact tracks_allocInterBuffers i h₁
    · exact h₁
  rintro ⟨st, num, arr⟩ g₂ h₂
  refine meets_seq (tracks_startInstance i num arr h₂) fun st g₃ h₃ => ?_
  refine meets_seq (tracks_initSession i h₃) ?_
  rintro ⟨st, session⟩ g₄ h₄
  refine meets_seq (tracks_whenOk h₄ (tracks_runSession i session)) fun st g₅ h₅ => ?_
  refine meets_seq (tracks_whenOk h₅ fun h => tracks_onInstance i fun inst =>
    tracks_api _ inst h) fun st g₆ h₆ => ?_
  refine meets_seq (tracks_neutral (fun _ hc => hc) (neutral_cleanUp session arr num) g₆) ?_
  rintro - g₇ rfl
  exact h₆

/-! ### The result of the run -/

def workerFailed (i : ℕ) (l : List Entry) : Bool :=
  (ghost workProtocol WorkGhost.start (.worker i) l).failed

theorem worker_returned {cfg : Cfg} {s : State} (hr : Reach (Step cfg) (initial cfg) s) {i : ℕ}
    {st : CpaStatus} (hw : s.worker i = some (.ret st)) :
    st = success ↔ workerFailed i s.log = false := by
  have hmeets := worker_meets_always (fun _ _ _ => trivial)
    (workerMeets_initial cfg (tracks_enqueueQATWork i)) hr
  have ht : Tracks false st (ghost workProtocol WorkGhost.start (.worker i) s.log) :=
    hmeets.left _ hw
  exact ht.2

theorem worker_ended {cfg : Cfg} {s : State} (hr : Reach (Step cfg) (initial cfg) s)
    {st : CpaStatus} (hret : s.main = some (.ret st)) (hc : (mainGhost s.log).Complete cfg) {i : ℕ}
    (hi : i ∈ cfg.instances) : ∃ st', s.worker i = some (.ret st') := by
  have hrun : MainRun cfg st (mainGhost s.log) := main_meets_reached hr hret
  have hfin := (mainLinked_reached hr).joined i (hrun.2 hc i (hc.2.1 i hi))
  revert hfin
  cases hw : s.worker i with
  | none => exact fun h => by cases h
  | some p =>
    cases p with
    | ret st' => exact fun _ => ⟨st', rfl⟩
    | call c k => exact fun h => by cases h

section result
variable {cfg : Cfg} {s : State} {st : CpaStatus}

theorem worker_success_iff (hr : Reach (Step cfg) (initial cfg) s) (hret : s.main = some (.ret st))
    (hc : (mainGhost s.log).Complete cfg) {i : ℕ} (hi : i ∈ cfg.instances) :
    s.worker i = some (.ret success) ↔ workerFailed i s.log = false := by
  obtain ⟨st', hw⟩ := worker_ended hr hret hc hi
  rw [← worker_returned hr hw, hw]
  exact ⟨fun h => by cases h; rfl, fun h => by rw [h]⟩

/-- What tells that the main thread's own calls went well tells that all went well
exactly where no worker failed. -/
theorem reports_all_iff {R : Prop} (hr : Reach (Step cfg) (initial cfg) s)
    (hret : s.main = some (.ret st)) (hR : R ↔ (mainGhost s.log).Complete cfg) :
    (R ↔ (mainGhost s.log).Complete cfg ∧
      ∀ i ∈ cfg.instances, s.worker i = some (.ret success)) ↔
    ((mainGhost s.log).Complete cfg → ∀ i ∈ cfg.instances, workerFailed i s.log = false) := by
  rw [hR]
  constructor
  · intro hiff hc i hi
    exact (worker_success_iff hr hret hc hi).mp ((hiff.mp hc).2 i hi)
  · intro hcond
    exact ⟨fun hc => ⟨hc, fun i hi => (worker_success_iff hr hret hc hi).mpr (hcond hc i hi)⟩,
      fun h => h.1⟩

end result

/-- The exit code is `CPA_STATUS_SUCCESS` exactly if all went well, in just those
runs in which no worker failed when set-up, creations and stops succeeded. -/
theorem result_reports_failures (cfg : Cfg) (s : State) (st : CpaStatus)
    (hr : Reach (Step cfg) (initial cfg) s) (hret : s.main = some (.ret st)) :
    (st = success ↔ (mainGhost s.log).Complete cfg ∧
      ∀ i ∈ cfg.instances, s.worker i = some (.ret success)) ↔
    ((mainGhost s.log).Complete cfg → ∀ i ∈ cfg.instances, workerFailed i s.log = false) := by
  have hrun : MainRun cfg st (mainGhost s.log) := main_meets_reached hr hret
  exact reports_all_iff hr hret hrun.1

set_option maxRecDepth 20000 in
theorem result_reports_failures_run :
    ∃ s : State, s.main = some (.ret success) ∧
      ((success = success ↔ (mainGhost s.log).Complete oneUnpolled ∧
        ∀ i ∈ oneUnpolled.instances, s.worker i = some (.ret success)) ↔
      ((mainGhost s.log).Complete oneUnpolled → ∀ i ∈ oneUnpolled.instances,
        workerFailed i s.log = false)) := by
  have hrun : (replay oneUnpolled (allGood oneUnpolled) (fun _ _ => true) (initial oneUnpolled)
      (createMoves ++ workerMoves 0 ++ finishMoves ++ exitMoves)).any
      (fun s => returnedWith s.main = some success) = true := by decide +kernel
  obtain ⟨s, hr, hret⟩ := exists_reached hrun
  have hm := eq_of_returnedWith (of_decide_eq_true hret)
  exact ⟨s, hm, result_reports_failures oneUnpolled s success hr.reach hm⟩

/-! ### The message -/

def printed (msg : String) (l : List Entry) : Bool :=
  l.any fun
    | .call .main (.print m) _ => m = msg
    | _ => false

/-- Whether the main thread has printed that all went well. -/
@[reducible] def messageProtocol : Protocol Call Call.Resp where
  σ := Bool
  next
    | b, .print m, _ => decide (m = "Sample code ran successfully\n") || b
    | b, _, _ => b
  rely := fun _ _ _ => True
  guar := fun _ _ => True

theorem printed_eq_ghost (l : List Entry) :
    printed "Sample code ran successfully\n" l = ghost messageProtocol false .main l := by
  induction l with
  | nil => rfl
  | cons e l ih =>
    cases e with
    | callback q st => exact ih
    | call t c r =>
      cases t with
      | main =>
        rw [ghost_own, ← ih]
        cases c <;> rfl
      | worker i =>
        rw [ghost_other _ _ (by simp)]
        exact ih
      | poller i =>
        rw [ghost_other _ _ (by simp)]
        exact ih

/-- A section before the message: nothing is printed, and a `return` is not with
`CPA_STATUS_SUCCESS`. -/
def Unreported {α : Type} (r : Except CpaStatus α) (b : Bool) : Prop :=
  r ≠ .error success ∧ b = false

section message
variable {cfg : Cfg}

theorem message_infoLoop (is : List ℕ) (status : CpaStatus) :
    Meets messageProtocol (infoLoop is status) Unreported false := by
  induction is generalizing status with
  | nil => exact ⟨by simp, rfl⟩
  | cons i is ih =>
    refine meets_call trivial fun r _ => ?_
    obtain ⟨st, polled⟩ := r
    show Meets messageProtocol (if st ≠ success then _ else _) _ false
    split
    · next hst => exact ⟨by simpa using hst, rfl⟩
    · exact ih st

theorem message_readDataFile : Meets messageProtocol readDataFile Unreported false := by
  have hfail : Unreported (α := BlockId) (.error statusOne) false :=
    ⟨by simp, rfl⟩
  refine meets_call trivial fun r _ => ?_
  cases r with
  | none => exact hfail
  | some b =>
    refine meets_call trivial fun opened _ => ?_
    cases opened with
    | false => exact meets_call trivial fun _ _ => hfail
    | true =>
      refine meets_call trivial fun ok _ => ?_
      cases ok with
      | false => exact meets_call trivial fun _ _ => meets_call trivial fun _ _ => hfail
      | true => exact meets_call trivial fun _ _ => ⟨by simp, rfl⟩

theorem message_storeTrace (row : ℕ) (records : List (Int × Int)) (line : ℕ) :
    Meets messageProtocol (storeTrace row records line) (fun _ b => b = false) false := by
  induction records generalizing line with
  | nil => rfl
  | cons record records ih => exact meets_call trivial fun _ _ => ih (line + 1)

theorem message_traceLoop (buffer : BlockId) (is : List ℕ) :
    Meets messageProtocol (traceLoop cfg buffer is) Unreported false := by
  induction is with
  | nil => exact ⟨by simp, rfl⟩
  | cons i is ih =>
    refine meets_call trivial fun ok _ => ?_
    cases ok with
    | false =>
      exact meets_call trivial fun _ _ => meets_call trivial fun _ _ =>
        ⟨by simp, rfl⟩
    | true =>
      refine meets_seq (message_storeTrace i (cfg.trace i) 0) ?_
      rintro - b rfl
      exact meets_call trivial fun _ _ => ih

theorem message_createLoop (is : List ℕ) :
    Meets messageProtocol (createLoop is) Unreported false := by
  induction is with
  | nil => exact ⟨by simp, rfl⟩
  | cons i is ih =>
    refine meets_call trivial fun ok _ => ?_
    cases ok with
    | false => exact ⟨by simp, rfl⟩
    | true => exact ih

theorem message_joinLoop (is : List ℕ) :
    Meets messageProtocol (joinLoop is) (fun _ b => b = false) false := by
  induction is with
  | nil => rfl
  | cons i is ih => exact meets_call trivial fun _ _ => ih

theorem message_stopLoop (is : List ℕ) (status : CpaStatus) :
    Meets messageProtocol (stopLoop is status) Unreported false := by
  induction is generalizing status with
  | nil => exact ⟨by simp, rfl⟩
  | cons i is ih =>
    refine meets_call trivial fun st _ => ?_
    show Meets messageProtocol (if st ≠ success then _ else _) _ false
    split
    · next hst => exact ⟨by simpa using hst, rfl⟩
    · exact ih st

/-- The status and the message say the same. -/
def Told (st : CpaStatus) (b : Bool) : Prop := b = true ↔ st = success

theorem told_of_ne {st : CpaStatus} (h : st ≠ success) : Told st false :=
  ⟨fun hb => (by cases hb), fun hst => absurd hst h⟩

/-- A section with a `return` in it, and what follows it. -/
theorem message_section {α : Type} {p : Code (Except CpaStatus α)}
    {f : Except CpaStatus α → Code CpaStatus} (hp : Meets messageProtocol p Unreported false)
    (herror : ∀ e, f (.error e) = pure e)
    (hok : ∀ a, Meets messageProtocol (f (.ok a)) Told false) :
    Meets messageProtocol (p >>= f) Told false := by
  refine meets_seq hp ?_
  rintro r b ⟨hr, rfl⟩
  cases r with
  | error e =>
    rw [herror]
    exact told_of_ne fun he => hr (he ▸ rfl)
  | ok a => exact hok a

theorem message_finishSample (buffer : BlockId) (status : CpaStatus) :
    Meets messageProtocol (finishSample buffer status) Told false := by
  refine meets_call trivial fun _ _ => ?_
  by_cases hst : status = success
  · subst hst
    exact meets_call trivial fun _ _ => ⟨fun _ => rfl, fun _ => by simp⟩
  · rw [if_neg hst]
    refine meets_call trivial fun _ _ => ?_
    exact ⟨fun hb => absurd hb (by simp), fun h => absurd h hst⟩

theorem message_runWorkers (buffer : BlockId) (status : CpaStatus) :
    Meets messageProtocol (runWorkers cfg buffer status) Told false := by
  refine message_section (message_createLoop cfg.instances) (fun _ => rfl) fun _ => ?_
  refine meets_seq (message_joinLoop cfg.instances) ?_
  rintro - b rfl
  refine meets_call trivial fun _ _ => meets_call trivial fun _ _ => ?_
  exact message_section (message_stopLoop cfg.instances status) (fun _ => rfl)
    (message_finishSample buffer)

theorem message_sampleBody : Meets messageProtocol (sampleBody cfg) Told false := by
  refine meets_call trivial fun st _ => ?_
  show Meets messageProtocol (if st ≠ success then _ else _) _ false
  split
  · next hst => exact told_of_ne hst
  refine message_section (message_infoLoop cfg.instances st) (fun _ => rfl) fun status => ?_
  refine message_section message_readDataFile (fun _ => rfl) fun buffer => ?_
  exact message_section (message_traceLoop buffer cfg.instances) (fun _ => rfl)
    fun _ => message_runWorkers buffer status

theorem message_mainThread : Meets messageProtocol (mainThread cfg) Told false := by
  refine meets_call trivial fun st _ => ?_
  show Meets messageProtocol (if st ≠ success then _ else _) _ false
  split
  · next hst => exact told_of_ne hst
  refine meets_call trivial fun st _ => ?_
  show Meets messageProtocol (if st ≠ success then _ else _) _ false
  split
  · next hst => exact meets_call trivial fun _ _ => told_of_ne hst
  refine meets_seq (M := Told) ?_ fun st b h => ?_
  · exact meets_seq message_sampleBody fun st b h => meets_call trivial fun _ _ => h
  · exact meets_call trivial fun _ _ => meets_call trivial fun _ _ => h

end message

theorem printed_iff_success {cfg : Cfg} {s : State} {st : CpaStatus}
    (hr : Reach (Step cfg) (initial cfg) s) (hret : s.main = some (.ret st)) :
    printed "Sample code ran successfully\n" s.log = true ↔ st = success := by
  rw [printed_eq_ghost]
  exact main_meets (mainMeets_initial message_mainThread) (fun _ _ _ _ _ _ _ _ _ => trivial) hr
    _ hret

/-- The message that all went well is printed exactly if it did, in the same runs. -/
theorem message_reports_failures {cfg : Cfg} {s : State} {st : CpaStatus}
    (hr : Reach (Step cfg) (initial cfg) s) (hret : s.main = some (.ret st)) :
    (printed "Sample code ran successfully\n" s.log = true ↔ (mainGhost s.log).Complete cfg ∧
      ∀ i ∈ cfg.instances, s.worker i = some (.ret success)) ↔
    ((mainGhost s.log).Complete cfg → ∀ i ∈ cfg.instances, workerFailed i s.log = false) := by
  have hrun : MainRun cfg st (mainGhost s.log) := main_meets_reached hr hret
  exact reports_all_iff hr hret ((printed_iff_success hr hret).trans hrun.1)

def queryFails (cfg : Cfg) (s : State) : (c : Call) → c.Resp
  | .cpaDcQueryCapabilities _ => (fail, ⟨false, false⟩)
  | c => allGood cfg s c

set_option maxRecDepth 20000 in
/-- The worker's capability query fails; the message and the exit code say
success. -/
theorem worker_failure_unreported :
    ∃ s, Reach (Step oneUnpolled) (initial oneUnpolled) s ∧ s.main = some (.ret success) ∧
      printed "Sample code ran successfully\n" s.log = true ∧
      ¬ (success = success ↔ (mainGhost s.log).Complete oneUnpolled ∧
        ∀ i ∈ oneUnpolled.instances, s.worker i = some (.ret success)) := by
  have hrun : (replay oneUnpolled (queryFails oneUnpolled) (fun _ _ => true) (initial oneUnpolled)
      (createMoves ++ List.replicate 3 (.worker 0) ++ finishMoves ++ exitMoves)).any
      (fun s => returnedWith s.main = some success ∧ returnedWith (s.worker 0) = some fail ∧
        printed "Sample code ran successfully\n" s.log) = true := by decide +kernel
  obtain ⟨s, hr, hT⟩ := exists_reached hrun
  obtain ⟨hmain, hworker, hmsg⟩ := of_decide_eq_true hT
  refine ⟨s, hr.reach, eq_of_returnedWith hmain, hmsg, fun hiff => ?_⟩
  have hok := (hiff.mp rfl).2 0 (Cfg.mem_instances.mpr oneUnpolled.pos)
  rw [eq_of_returnedWith hworker] at hok
  exact absurd (Prog.ret.inj (Option.some.inj hok)) fail_ne_success

end QatDcSample
