import QatDcSample.Blocks
import QatDcSample.StartStop

/-!
# The intermediate buffers of a started instance

A worker hands its intermediate buffers to `cpaDcStartInstance` and frees them at
its end; the main thread stops the instance after it has joined the worker. An
instance that was started with buffers therefore outlives them.
-/

namespace QatDcSample
open EventProgram Prog BlockMemory CpaStatus Transition

/-- Everything the driver holds on to in a started instance is alive. -/
def InterMemoryLive (s : State) : Prop :=
  ∀ inst, ∀ b ∈ s.world.interMem inst, s.world.mem.Live b

/-! ### What a worker hands over and frees -/

/-- Blocks the worker allocated, the array of a successful start with buffers, and
those of the allocated blocks that it freed. -/
structure InterGhost where
  allocated : List BlockId
  handed : Ptr
  freed : List BlockId

namespace InterGhost

def start : InterGhost := ⟨[], none, []⟩

def next (g : InterGhost) : (c : Call) → c.Resp → InterGhost
  | .memAlloc _ _, some (b, _) => { g with allocated := b :: g.allocated }
  | .memFree _ b, _ => if b ∈ g.allocated then { g with freed := b :: g.freed } else g
  | .cpaDcStartInstance _ num arr, (st : CpaStatus) =>
      if st = success ∧ num ≠ 0 ∧ arr ≠ none then { g with handed := arr } else g
  | _, _ => g

def Holds (arr : Ptr) (g : InterGhost) : Prop :=
  (∀ a, arr = some a → a ∈ g.allocated) ∧ (g.handed = none ∨ g.handed = arr)

def HandedFreed (g : InterGhost) : Prop := ∀ a, g.handed = some a → a ∈ g.freed

theorem mem_next_allocated {g : InterGhost} (c : Call) (r : c.Resp) {b : BlockId}
    (h : b ∈ g.allocated) : b ∈ (g.next c r).allocated := by
  cases c <;> try exact h
  case memAlloc a n =>
    cases r with
    | none => exact h
    | some x => exact List.mem_cons_of_mem _ h
  case memFree a b' =>
    simp only [next]
    split <;> exact h
  case cpaDcStartInstance inst num arr =>
    simp only [next]
    split <;> exact h

theorem next_handed {g : InterGhost} {c : Call} (hc : c.NoStart) (r : c.Resp) :
    (g.next c r).handed = g.handed := by
  cases c <;> try rfl
  case memAlloc a n => cases r <;> rfl
  case memFree a b =>
    simp only [next]
    split <;> rfl
  case cpaDcStartInstance inst num arr => exact absurd rfl (hc inst num arr)

end InterGhost

@[reducible] def interProtocol : Protocol Call Call.Resp where
  σ := InterGhost
  next := InterGhost.next
  rely := fun _ _ _ => True
  guar
    | g, .cpaDcStartInstance _ _ arr => ∀ a, arr = some a → a ∈ g.allocated
    | _, _ => True

theorem keeps_holds (arr : Ptr) :
    Keeps interProtocol Call.NoStart (fun g : InterGhost => g.Holds arr) := by
  intro g c hc hg
  refine ⟨?_, fun r _ => ⟨fun a ha => InterGhost.mem_next_allocated c r (hg.1 a ha), ?_⟩⟩
  · cases c <;> first | trivial | exact absurd rfl (hc _ _ _)
  · show (g.next c r).handed = none ∨ (g.next c r).handed = arr
    rw [InterGhost.next_handed hc r]
    exact hg.2

theorem holds_meets {arr : Ptr} {α : Type} {C : Call → Prop} {p : Code α} {g : InterGhost}
    (hC : ∀ c, C c → c.NoStart) (hp : Only C p) (hg : g.Holds arr) :
    Meets interProtocol p (fun _ g' => InterGhost.Holds arr g') g :=
  (keeps_holds arr).meets (only_mono hC hp) hg

theorem meets_allocInterArray (status : CpaStatus) (n : ℕ) {g : InterGhost}
    (hg : g.Holds none) :
    Meets interProtocol (allocInterArray status n) (fun r g' => InterGhost.Holds r.2 g') g := by
  have hnone : g.handed = none := hg.2.elim id id
  unfold allocInterArray
  split
  · refine meets_call trivial fun r _ => ?_
    cases r with
    | none => exact hg
    | some x =>
      refine ⟨fun a ha => ?_, .inl hnone⟩
      cases ha
      exact List.mem_cons_self
  · exact hg

theorem meets_interBuffers (i : ℕ) (cap : CpaDcInstanceCapabilities) (status : CpaStatus)
    {g : InterGhost} (hg : g.Holds none) :
    Meets interProtocol (interBuffers i cap status) (fun r g' => InterGhost.Holds r.2.2 g') g := by
  have hhandle : ∀ (f : SizeFn), Only Call.NoStart (do
      let inst ← dcInstHandle i
      invoke (.apiSize f inst)) := fun f =>
    only_bind (only_mono (fun _ hc => hc.prepare.noStart) (build_dcInstHandle i)) fun inst =>
      (only_perform _ _).mpr (by simp [Call.NoStart])
  unfold interBuffers
  split
  · refine meets_seq (holds_meets (fun _ hc => hc.prepare.noStart) (build_dcInstHandle i) hg)
      fun inst g₁ h₁ => ?_
    refine meets_seq ((keeps_holds none).invoke (c := .apiSize .cpaDcBufferListGetMetaSize inst)
      (by simp [Call.NoStart]) h₁) fun r g₂ h₂ => ?_
    obtain ⟨st, size⟩ := r
    dsimp only
    refine meets_seq (holds_meets (fun _ hc => hc)
      (only_whenOkSet (hhandle .cpaDcGetNumIntermediateBuffers)) h₂) fun r g₃ h₃ => ?_
    obtain ⟨st, n⟩ := r
    dsimp only
    refine meets_seq (meets_allocInterArray st n h₃) fun r g₄ h₄ => ?_
    obtain ⟨st, arr⟩ := r
    dsimp only
    exact meets_seq (holds_meets (fun _ hc => hc.prepare.noStart)
      (build_allocInterLoop arr size n 0 st) h₄) fun st g₅ h₅ => h₅
  · exact hg

theorem meets_startInstance (i : ℕ) (status : CpaStatus) (num : ℕ) (arr : Ptr) {g : InterGhost}
    (hg : g.Holds arr) :
    Meets interProtocol (startInstance i status num arr) (fun _ g' => InterGhost.Holds arr g') g := by
  refine meets_seq (holds_meets (fun _ hc => hc.prepare.noStart)
      (build_setAddressTranslation i status) hg) fun st g₁ h₁ => ?_
  unfold whenOk
  split
  · refine meets_seq (holds_meets (fun _ hc => hc.prepare.noStart) (build_dcInstHandle i) h₁)
      fun inst g₂ h₂ => ⟨h₂.1, fun r _ => ?_⟩
    show InterGhost.Holds arr (g₂.next (.cpaDcStartInstance inst num arr) r)
    simp only [InterGhost.next]
    split
    · exact ⟨h₂.1, .inr rfl⟩
    · exact h₂
  · exact h₁

theorem meets_cleanUp (session arr : Ptr) (num : ℕ) {g : InterGhost} (hg : g.Holds arr) :
    Meets interProtocol (cleanUp session arr num) (fun _ g' => InterGhost.HandedFreed g') g := by
  refine meets_seq (holds_meets (C := Call.After) (fun _ hc => hc.noStart)
    (only_memFree fun _ => rfl) hg) fun _ g₁ h₁ => ?_
  cases arr with
  | none =>
    intro a ha
    rcases h₁.2 with h | h <;> cases h.symm.trans ha
  | some arr =>
    rw [if_neg (by simp)]
    refine meets_seq (holds_meets (fun _ hc => hc.noStart) (after_freeInterLoop (some arr) num 0) h₁)
      fun _ g₂ h₂ => ⟨trivial, fun _ _ a ha => ?_⟩
    have hmem : arr ∈ g₂.allocated := h₂.1 arr rfl
    have hnext : g₂.next (.memFree .contig arr) () = { g₂ with freed := arr :: g₂.freed } :=
      if_pos hmem
    have ha' : g₂.handed = some a := by
      rw [← InterGhost.next_handed (c := .memFree .contig arr) (by simp [Call.NoStart]) ()]
      exact ha
    obtain rfl : arr = a := by
      rcases h₂.2 with h | h
      · cases h.symm.trans ha'
      · exact Option.some.inj (h.symm.trans ha')
    show arr ∈ (g₂.next (.memFree .contig arr) ()).freed
    rw [hnext]
    exact List.mem_cons_self

theorem meets_enqueueQATWork_inter (i : ℕ) :
    Meets interProtocol (enqueueQATWork i) (fun _ g => InterGhost.HandedFreed g)
      InterGhost.start := by
  have hstart : InterGhost.start.Holds none := ⟨fun _ h => (by cases h), .inl rfl⟩
  have hnone : ∀ {g : InterGhost}, g.Holds none → g.HandedFreed := fun hg a ha => by
    rcases hg.2 with h | h <;> cases h.symm.trans ha
  refine meets_call trivial fun _ _ => ?_
  refine meets_call trivial fun inst _ => ?_
  refine meets_call trivial fun r _ => ?_
  obtain ⟨st, cap⟩ := r
  show Meets interProtocol (if st ≠ success then _ else _) _ InterGhost.start
  split
  · exact hnone hstart
  refine meets_seq (meets_interBuffers i cap st hstart) fun r g₁ h₁ => ?_
  obtain ⟨st, num, arr⟩ := r
  dsimp only at h₁ ⊢
  refine meets_seq (meets_startInstance i st num arr h₁) fun st g₂ h₂ => ?_
  refine meets_seq (holds_meets (fun _ hc => hc) (noStart_initSession i st) h₂) fun r g₃ h₃ => ?_
  obtain ⟨st, session⟩ := r
  dsimp only
  refine meets_seq (holds_meets (fun _ hc => hc) (only_whenOk (noStart_runSession i session)) h₃)
    fun st g₄ h₄ => ?_
  refine meets_seq (holds_meets (fun _ hc => hc.noStart) (after_getStats i st) h₄) fun st g₅ h₅ => ?_
  exact meets_seq (meets_cleanUp session arr num h₅) fun _ g₆ h₆ => h₆

/-! ### The invariant -/

def interGhost (i : ℕ) (l : List Entry) : InterGhost :=
  ghost interProtocol InterGhost.start (.worker i) l

@[simp] theorem interGhost_own (i : ℕ) (c : Call) (r : c.Resp) (l : List Entry) :
    interGhost i (.call (.worker i) c r :: l) = (interGhost i l).next c r :=
  ghost_own interProtocol InterGhost.start _ c r l

theorem interGhost_other {i : ℕ} {t : Tid} (h : t ≠ .worker i) (c : Call) (r : c.Resp)
    (l : List Entry) : interGhost i (.call t c r :: l) = interGhost i l :=
  ghost_other _ _ h c r l

/-- What worker `i` freed is not alive, and what the driver records of instance `i`
contains what the worker handed over. -/
structure InterLinked (i : ℕ) (w : World) (g : InterGhost) : Prop where
  named : ∀ b ∈ g.allocated, b < w.mem.next
  dead : ∀ b ∈ g.freed, b < w.mem.next ∧ ¬ w.mem.Live b
  recorded : w.interMem i ≠ [] → ∃ a ∈ w.interMem i, g.handed = some a

theorem interLinked_initial (cfg : Cfg) (i : ℕ) :
    InterLinked i (World.initial cfg) InterGhost.start :=
  ⟨fun _ h => absurd h List.not_mem_nil, fun _ h => absurd h List.not_mem_nil,
    fun h => absurd rfl h⟩

theorem InterLinked.other {cfg : Cfg} {i : ℕ} {w : World} {g : InterGhost} (h : InterLinked i w g)
    (t : Tid) {c : Call} (r : c.Resp) (hc : ∀ num arr, c ≠ .cpaDcStartInstance i num arr) :
    InterLinked i (w.after cfg t c r) g := by
  refine ⟨fun b hb => (block_memAfter t c r (h.named b hb)).1, fun b hb => ?_, ?_⟩
  · exact ⟨(block_memAfter t c r (h.dead b hb).1).1,
      not_live_memAfter (h.dead b hb).1 (h.dead b hb).2⟩
  · show interMemAfter w.mem w.interMem c r i ≠ [] → ∃ a ∈ interMemAfter w.mem w.interMem c r i, _
    cases c <;> try exact h.recorded
    case cpaDcStartInstance inst num arr =>
      have hne : i ≠ inst := by
        rintro rfl
        exact hc num arr rfl
      simp only [interMemAfter]
      split
      · rw [Function.update_of_ne hne]
        exact h.recorded
      · exact h.recorded
    case cpaDcStopInstance inst =>
      simp only [interMemAfter]
      by_cases hi : i = inst
      · subst hi
        rw [Function.update_self]
        exact fun hnil => absurd rfl hnil
      · rw [Function.update_of_ne hi]
        exact h.recorded

theorem InterLinked.own {cfg : Cfg} {s : State} {i : ℕ} {g : InterGhost} {c : Call} {r : c.Resp}
    (h : InterLinked i s.world g) (ha : Allowed cfg s (.worker i) c r)
    (hc : ∀ inst num arr, c = .cpaDcStartInstance inst num arr → inst = i) :
    InterLinked i (s.world.after cfg (.worker i) c r) (g.next c r) := by
  by_cases hstart : c.NoStart
  · have hkeep : InterLinked i (s.world.after cfg (.worker i) c r) g :=
      h.other (.worker i) r fun num arr => hstart i num arr
    cases c <;> try exact hkeep
    case memAlloc a n =>
      cases r with
      | none => exact hkeep
      | some x =>
        obtain ⟨x, base⟩ := x
        refine ⟨fun b hb => ?_, hkeep.dead, hkeep.recorded⟩
        rcases List.mem_cons.mp hb with rfl | hb
        · obtain rfl := ha.1
          exact Nat.lt_succ_self _
        · exact hkeep.named b hb
    case memFree a b' =>
      simp only [InterGhost.next]
      split
      · next hmem =>
        refine ⟨hkeep.named, fun b hb => ?_, hkeep.recorded⟩
        rcases List.mem_cons.mp hb with rfl | hb
        · exact ⟨h.named b hmem, fun hl => ((s.world.mem.live_free b b).mp hl).2 rfl⟩
        · exact hkeep.dead b hb
      · exact hkeep
    case cpaDcStartInstance inst num arr => exact absurd rfl (hstart inst num arr)
  · simp only [Call.NoStart, not_forall, not_not] at hstart
    obtain ⟨inst, num, arr, rfl⟩ := hstart
    obtain rfl := hc inst num arr rfl
    by_cases hgiven : r = success ∧ num ≠ 0 ∧ arr ≠ none
    · have hnext : g.next (.cpaDcStartInstance inst num arr) r = { g with handed := arr } :=
        if_pos hgiven
      obtain ⟨a, rfl⟩ := Option.ne_none_iff_exists'.mp hgiven.2.2
      rw [hnext]
      refine ⟨h.named, h.dead, fun _ => ⟨a, ?_, rfl⟩⟩
      show a ∈ interMemAfter s.world.mem s.world.interMem _ r inst
      simp only [interMemAfter, if_pos hgiven, Function.update_self]
      exact List.mem_append_left _ (by simp)
    · have hnext : g.next (.cpaDcStartInstance inst num arr) r = g := if_neg hgiven
      rw [hnext]
      refine ⟨h.named, h.dead, ?_⟩
      show interMemAfter s.world.mem s.world.interMem _ r inst ≠ [] → _
      simp only [World.after, interMemAfter, if_neg hgiven]
      exact h.recorded

theorem interLinked_reached {cfg : Cfg} {s : State}
    (hr : ReachVia (Step cfg) (fun s _ => s.world.sampleFrame = true) (initial cfg) s) (i : ℕ) :
    InterLinked i s.world (interGhost i s.log) := by
  refine ReachVia.invariant (I := fun s => InterLinked i s.world (interGhost i s.log))
    (interLinked_initial cfg i) ?_ hr
  intro s e s' hreach h hst hframe
  cases hst with
  | @main c k r hm ha =>
    show InterLinked i _ (interGhost i (.call .main c r :: s.log))
    rw [interGhost_other (by simp)]
    refine h.other .main r ?_
    rintro num arr rfl
    exact main_guar hreach hm
  | @worker j c k r hrun hw ha =>
    have hown : ∀ inst num arr, c = .cpaDcStartInstance inst num arr → inst = j := by
      rintro inst num arr rfl
      exact (((workerMeets_start hreach j).left _ hw).1).2
    by_cases hij : j = i
    · subst hij
      show InterLinked j _ (interGhost j (.call (.worker j) c r :: s.log))
      rw [interGhost_own]
      exact h.own ha hown
    · show InterLinked i _ (interGhost i (.call (.worker j) c r :: s.log))
      rw [interGhost_other fun he => hij (Tid.worker.inj he)]
      exact h.other (.worker j) r fun num arr hc => hij (hown i num arr hc).symm
  | @poller j p c k r hrun hp hn ha =>
    show InterLinked i _ (interGhost i (.call (.poller j) c r :: s.log))
    rw [interGhost_other (by simp)]
    refine h.other (.poller j) r ?_
    rintro num arr rfl
    exact ofPoller_next hn
  | callback hrun hq hresp => exact ⟨h.named, h.dead, h.recorded⟩

theorem InterLinked.freed {i : ℕ} {w : World} {g : InterGhost} (h : InterLinked i w g)
    (hf : g.HandedFreed) (hne : w.interMem i ≠ []) : ∃ b ∈ w.interMem i, ¬ w.mem.Live b := by
  obtain ⟨a, ha, hhanded⟩ := h.recorded hne
  exact ⟨a, ha, (h.dead a (hf a hhanded)).2⟩

/-! ### Starts without buffers -/

def startsWithout (_ : State) : Entry → Bool
  | .call _ (.cpaDcStartInstance _ num _) (st : CpaStatus) => st ≠ success || num = 0
  | _ => true

def StartsWithout (s : State) (e : Entry) : Prop := startsWithout s e = true

theorem interMemAfter_nil {m : Mem} {im : ℕ → List BlockId} {c : Call} {r : c.Resp} {inst : ℕ}
    (h : im inst = []) (hc : ∀ i num arr, c = .cpaDcStartInstance i num arr → HEq r success →
      num = 0) : interMemAfter m im c r inst = [] := by
  cases c <;> try exact h
  case cpaDcStartInstance i num arr =>
    simp only [interMemAfter]
    split
    · next hs => exact absurd (hc i num arr rfl (heq_of_eq hs.1)) hs.2.1
    · exact h
  case cpaDcStopInstance i =>
    by_cases hi : inst = i
    · subst hi
      exact Function.update_self ..
    · exact (Function.update_of_ne hi ..).trans h

theorem interMem_nil {cfg : Cfg} {s : State}
    (hr : ReachVia (Step cfg) StartsWithout (initial cfg) s) (inst : ℕ) :
    s.world.interMem inst = [] := by
  refine ReachVia.invariant (I := fun s => s.world.interMem inst = []) rfl ?_ hr
  intro s e s' _ h hst ho
  have hnum : ∀ {t : Tid} {c : Call} {r : c.Resp}, StartsWithout s (.call t c r) →
      ∀ i num arr, c = .cpaDcStartInstance i num arr → HEq r success → num = 0 := by
    rintro t c r ho i num arr rfl hr
    obtain rfl := eq_of_heq hr
    simpa [StartsWithout, startsWithout] using ho
  cases hst with
  | main hm ha => exact interMemAfter_nil h (hnum ho)
  | worker hrun hw ha => exact interMemAfter_nil h (hnum ho)
  | poller hrun hp hn ha => exact interMemAfter_nil h (hnum ho)
  | callback hrun hq hresp => exact h

/-- If no successful start hands over intermediate buffers, none is freed too early;
and of an instance whose worker has returned while `dcStatelessSample` runs they are
all alive only if the driver holds on to none. -/
theorem inter_memory_live_iff (cfg : Cfg) (s : State) (hr : Reach (Step cfg) (initial cfg) s) :
    (ReachVia (Step cfg) StartsWithout (initial cfg) s → InterMemoryLive s) ∧
    (s.world.sampleFrame = true → ∀ i, finished (s.worker i) = true →
      ((∀ b ∈ s.world.interMem i, s.world.mem.Live b) ↔ s.world.interMem i = [])) := by
  refine ⟨fun hw inst b hb => ?_, fun hframe i hfin => ⟨fun hlive => ?_, fun hnil b hb => ?_⟩⟩
  · rw [interMem_nil hw inst] at hb
    cases hb
  · by_contra hne
    have hreach := frame_alive_before hr hframe
    have hmeets : WorkerMeets i interProtocol InterGhost.start
        (fun _ g => InterGhost.HandedFreed g) s :=
      worker_meets_always (fun _ _ _ => trivial)
        (workerMeets_initial cfg (meets_enqueueQATWork_inter i)) hr
    have hfreed : (interGhost i s.log).HandedFreed := by
      cases hp : s.worker i with
      | none =>
        rw [hp] at hfin
        cases hfin
      | some p =>
        cases p with
        | ret st => exact hmeets.left _ hp
        | call c k =>
          rw [hp] at hfin
          cases hfin
    obtain ⟨b, hb, hdead⟩ := (interLinked_reached hreach i).freed hfreed hne
    exact hdead (hlive b hb)
  · rw [hnil] at hb
    cases hb

def bufferMoves : List Move :=
  createMoves ++ List.replicate 49 (.worker 0) ++
    [.callback 2 .ok none, .callback 1 .ok none, .callback 0 .ok none] ++
    List.replicate 36 (.worker 0)

set_option maxRecDepth 20000 in
theorem inter_memory_live_iff_run :
    (∃ s : State, finished (s.worker 0) = true ∧ InterMemoryLive s) ∧
    ∃ s : State, finished (s.worker 0) = true ∧
      ¬ ∀ b ∈ s.world.interMem 0, s.world.mem.Live b := by
  constructor
  · have hrun : (replay oneUnpolled (allGood oneUnpolled) startsWithout (initial oneUnpolled)
        (createMoves ++ workerMoves 0)).any (fun s => finished (s.worker 0)) = true := by
      decide +kernel
    obtain ⟨s, hr, hT⟩ := exists_reached hrun
    exact ⟨s, hT, (inter_memory_live_iff oneUnpolled s hr.reach).1 hr⟩
  · have hrun : (replay oneUnpolled (requiresBuffers oneUnpolled) (fun _ _ => true)
        (initial oneUnpolled) bufferMoves).any (fun s => s.world.sampleFrame ∧
          finished (s.worker 0) ∧ s.world.interMem 0 ≠ []) = true := by decide +kernel
    obtain ⟨s, hr, hT⟩ := exists_reached hrun
    obtain ⟨hframe, hfin, hne⟩ := of_decide_eq_true hT
    refine ⟨s, hfin, fun hlive => hne ?_⟩
    exact ((inter_memory_live_iff oneUnpolled s hr.reach).2 hframe 0 hfin).mp hlive

set_option maxRecDepth 20000 in
/-- The worker has returned, and its instance is still started with the list. -/
theorem inter_memory_freed_before_stop :
    ∃ s, Reach (Step oneUnpolled) (initial oneUnpolled) s ∧ stoppedOn s.log = [] ∧
      ¬ InterMemoryLive s := by
  have hrun : (replay oneUnpolled (requiresBuffers oneUnpolled) (fun _ _ => true)
      (initial oneUnpolled) bufferMoves).any (fun s => stoppedOn s.log = [] ∧
        ¬ ∀ b ∈ s.world.interMem 0, s.world.mem.Live b) = true := by decide +kernel
  obtain ⟨s, hr, hT⟩ := exists_reached hrun
  obtain ⟨hstop, hdead⟩ := of_decide_eq_true hT
  exact ⟨s, hr.reach, hstop, fun hlive => hdead fun b hb => hlive 0 b hb⟩

end QatDcSample
