import QatDcSample.Lib.Ledger
import QatDcSample.WorkerLifetime

/-!
# Files and the input buffer

What the main thread opened, allocated, closed and freed. `dcStatelessSample`
returns without the release of its input buffer from the create loop and from the
stop loop (`dc_qat_funcs.c:678-682`, `:704-709`), and where a trace file does not
open it closes `NULL` (`:655-659`).
-/

namespace QatDcSample
open EventProgram Prog CpaStatus Transition

structure Resources where
  files : Ledger FileName
  buffers : Ledger BlockId
  closedNull : Bool
  /-- A trace file did not open, a worker was not created or an instance was not
  stopped. -/
  refused : Bool

namespace Resources

def start : Resources := ⟨.empty, .empty, false, false⟩

def refuseIf (r : Resources) (refused : Bool) : Resources :=
  { r with refused := r.refused || refused }

def next (r : Resources) : (c : Call) → c.Resp → Resources
  | .memAlloc _ _, some (b, _) => { r with buffers := r.buffers.acquire b }
  | .memFree _ b, _ => { r with buffers := r.buffers.release b }
  | .fopen f, true => { r with files := r.files.acquire f }
  | .fopen (.traceVm _), false => r.refuseIf true
  | .fclose (some f), _ => { r with files := r.files.release f }
  | .fclose none, _ => { r with closedNull := true }
  | .pthreadCreateWorker _, ok => r.refuseIf (!ok)
  | .cpaDcStopInstance _, (st : CpaStatus) => r.refuseIf (st ≠ success)
  | _, _ => r

/-- Every file opened was closed once, every block allocated was freed once, and
nothing else was closed or freed. -/
def Released (r : Resources) : Prop :=
  r.files.Exact ∧ r.closedNull = false ∧ r.buffers.Exact

instance (r : Resources) : Decidable r.Released :=
  inferInstanceAs (Decidable (_ ∧ _ ∧ _))

/-- No refusal so far; these files are open and these blocks allocated. -/
structure Holds (r : Resources) (files : List FileName) (blocks : List BlockId) : Prop where
  files : r.files.Owes files
  blocks : r.buffers.Owes blocks
  closedNull : r.closedNull = false
  granted : r.refused = false

/-- The released resources are right just in case nothing was refused. -/
def Settled (r : Resources) : Prop := r.Released ↔ r.refused = false

theorem holds_start : start.Holds [] [] := ⟨Ledger.owes_empty, Ledger.owes_empty, rfl, rfl⟩

variable {r : Resources} {files : List FileName} {blocks : List BlockId}

theorem Holds.settled (h : r.Holds [] []) : r.Settled :=
  ⟨fun _ => h.granted, fun _ => ⟨h.files.exact_iff.mpr rfl, h.closedNull, h.blocks.exact_iff.mpr rfl⟩⟩

theorem settled_of_not_released (h : ¬ r.Released) (hr : r.refused = true) : r.Settled :=
  iff_of_false h fun hf => absurd (hr.symm.trans hf) (by decide)

theorem Holds.settled_of_refused {b : BlockId} (h : r.Holds files (b :: blocks)) :
    (r.refuseIf true).Settled := by
  refine settled_of_not_released (fun hreleased => ?_) (Bool.or_true _)
  have hnil : b :: blocks = [] := h.blocks.exact_iff.mp hreleased.2.2
  cases hnil

theorem refuseIf_false (r : Resources) : r.refuseIf false = r := by
  simp [refuseIf]

end Resources

/-- The input buffer is freed before the first worker is created or after the
pollers were told to stop. -/
@[reducible] def resourceProtocol : Protocol Call Call.Resp where
  σ := MainGhost × Resources
  next := fun g c r => (g.1.next c r, g.2.next c r)
  rely := fun _ _ _ => True
  guar := fun g c =>
    match c with
    | .memFree _ _ => g.1.created = [] ∨ g.1.phase = .stopped
    | .returnSample _ => g.2.Settled
    | _ => True

variable {g : MainGhost × Resources} {b : BlockId}

/-- A section returns with the resources as they should be, or goes on in `A`. -/
def Section {α : Type} (A : α → MainGhost × Resources → Prop) (r : Except CpaStatus α)
    (g : MainGhost × Resources) : Prop :=
  match r with
  | .error _ => g.2.Settled
  | .ok a => A a g

/-- Only the input buffer is held, and no worker was created. -/
def Prepared (b : BlockId) (g : MainGhost × Resources) : Prop :=
  g.1.created = [] ∧ g.2.Holds [] [b]

/-! ### Set-up -/

theorem resources_infoLoop (is : List ℕ) (st : CpaStatus) : ∀ (g : MainGhost × Resources),
    g.1.created = [] → g.2 = .start →
    Meets resourceProtocol (infoLoop is st)
      (Section fun _ g => g.1.created = [] ∧ g.2 = .start) g := by
  induction is generalizing st with
  | nil => exact fun g hc hr => ⟨hc, hr⟩
  | cons i is ih =>
    intro g hc hr
    refine meets_call trivial fun r _ => ?_
    show Meets resourceProtocol (if r.1 ≠ success then _ else _) _ _
    split
    · show g.2.Settled
      rw [hr]
      exact Resources.holds_start.settled
    · exact ih r.1 _ hc hr

theorem resources_readDataFile (hc : g.1.created = []) (hr : g.2 = .start) :
    Meets resourceProtocol readDataFile
      (Section fun b g => Prepared b g ∧ g.2.files.acquired = [.silesia]) g := by
  obtain ⟨m, r⟩ := g
  obtain rfl : r = _ := hr
  have hbuffer : ∀ b : BlockId, (Ledger.empty.acquire b).Owes [b] := fun b =>
    Ledger.owes_empty.acquire List.not_mem_nil
  have hfile : ((Ledger.empty.acquire FileName.silesia).release .silesia).Owes [] :=
    (Ledger.owes_empty.acquire List.not_mem_nil).release
  refine meets_call trivial fun r _ => ?_
  cases r with
  | none => exact Resources.holds_start.settled
  | some x =>
    obtain ⟨b, base⟩ := x
    refine meets_call trivial fun ok _ => ?_
    cases ok with
    | false =>
      refine meets_call (.inl hc) fun _ _ => ?_
      exact Resources.Holds.settled ⟨Ledger.owes_empty, (hbuffer b).release, rfl, rfl⟩
    | true =>
      refine meets_call trivial fun ok _ => ?_
      cases ok with
      | false =>
        refine meets_call (.inl hc) fun _ _ => ?_
        refine meets_call trivial fun _ _ => ?_
        exact Resources.Holds.settled ⟨hfile, (hbuffer b).release, rfl, rfl⟩
      | true =>
        refine meets_call trivial fun _ _ => ?_
        exact ⟨⟨hc, hfile, hbuffer b, rfl, rfl⟩, rfl⟩

theorem resources_storeTrace (row : ℕ) (records : List (Int × Int)) :
    ∀ (line : ℕ) (g : MainGhost × Resources),
      Meets resourceProtocol (storeTrace row records line) (fun _ g' => g' = g) g := by
  induction records with
  | nil => exact fun _ _ => rfl
  | cons record records ih =>
    exact fun line g => meets_call trivial fun _ _ => ih (line + 1) g

theorem resources_traceLoop (cfg : Cfg) (is : List ℕ) : ∀ (g : MainGhost × Resources),
    Prepared b g → is.Nodup → (∀ i ∈ is, FileName.traceVm (i + 1) ∉ g.2.files.acquired) →
    Meets resourceProtocol (traceLoop cfg b is) (Section fun _ g => Prepared b g) g := by
  induction is with
  | nil => exact fun g h _ _ => h
  | cons i is ih =>
    intro g ⟨hc, h⟩ hnd hnew
    obtain ⟨hi, hnd⟩ := List.nodup_cons.mp hnd
    refine meets_call trivial fun ok _ => ?_
    cases ok with
    | false =>
      refine meets_call (.inl hc) fun _ _ => ?_
      refine meets_call trivial fun _ _ => ?_
      -- `fclose(NULL)`
      exact Resources.settled_of_not_released (fun hreleased => Bool.noConfusion hreleased.2.1)
        (Bool.or_true _)
    | true =>
      have hopen := h.files.acquire (hnew i List.mem_cons_self)
      refine meets_seq (resources_storeTrace i (cfg.trace i) 0 _) ?_
      rintro - g' rfl
      refine meets_call trivial fun _ _ => ?_
      refine ih _ ⟨hc, hopen.release, h.blocks, h.closedNull, h.granted⟩ hnd fun j hj hmem => ?_
      rcases List.mem_cons.mp hmem with he | hmem
      · have hji : j = i := by simpa using he
        exact hi (hji ▸ hj)
      · exact hnew j (List.mem_cons_of_mem _ hj) hmem

/-! ### Creating, joining, stopping -/

theorem resources_createLoop (is : List ℕ) : ∀ (g : MainGhost × Resources), g.2.Holds [] [b] →
    Meets resourceProtocol (createLoop is) (Section fun _ g => g.2.Holds [] [b]) g := by
  induction is with
  | nil => exact fun g h => h
  | cons i is ih =>
    intro g h
    refine meets_call trivial fun ok _ => ?_
    cases ok with
    -- the return without `free(buffer)`
    | false => exact h.settled_of_refused
    | true =>
      refine ih _ ?_
      show (g.2.refuseIf false).Holds [] [b]
      rw [Resources.refuseIf_false]
      exact h

theorem resources_joinLoop (is : List ℕ) : ∀ (g : MainGhost × Resources), g.2.Holds [] [b] →
    Meets resourceProtocol (joinLoop is) (fun _ g => g.2.Holds [] [b]) g := by
  induction is with
  | nil => exact fun g h => h
  | cons i is ih =>
    exact fun g h => meets_call trivial fun _ _ => ih _ h

/-- The pollers were told to stop, and the input buffer is still held. -/
def BeforeFree (b : BlockId) (g : MainGhost × Resources) : Prop :=
  g.1.phase = .stopped ∧ g.2.Holds [] [b]

theorem resources_stopLoop (is : List ℕ) (st : CpaStatus) : ∀ (g : MainGhost × Resources),
    BeforeFree b g → Meets resourceProtocol (stopLoop is st) (Section fun _ g => BeforeFree b g) g := by
  induction is generalizing st with
  | nil => exact fun g h => h
  | cons i is ih =>
    intro g ⟨hp, h⟩
    refine meets_call trivial fun st _ => ?_
    show Meets resourceProtocol (if st ≠ success then _ else _) _ _
    split
    · next hst =>
      show (g.2.refuseIf (st ≠ success)).Settled
      rw [decide_eq_true hst]
      exact h.settled_of_refused
    · next hst =>
      refine ih st _ ⟨hp, ?_⟩
      show (g.2.refuseIf (st ≠ success)).Holds [] [b]
      rw [decide_eq_false hst, Resources.refuseIf_false]
      exact h

theorem resources_finishSample (h : BeforeFree b g) (st : CpaStatus) :
    Meets resourceProtocol (finishSample b st) (fun _ g => g.2.Settled) g := by
  refine meets_call (.inr h.1) fun _ _ => ?_
  have hnone : (g.2.next (.memFree .os b) ()).Settled :=
    Resources.Holds.settled ⟨h.2.files, h.2.blocks.release, h.2.closedNull, h.2.granted⟩
  show Meets resourceProtocol (if st = success then _ else _) _ _
  split
  · exact meets_call trivial fun _ _ => hnone
  · exact meets_call trivial fun _ _ => hnone

theorem resources_runWorkers (cfg : Cfg) (h : Prepared b g) (st : CpaStatus) :
    Meets resourceProtocol (runWorkers cfg b st) (fun _ g => g.2.Settled) g := by
  refine meets_seq (resources_createLoop cfg.instances g h.2) fun r g₁ h₁ => ?_
  cases r with
  | error e => exact h₁
  | ok u =>
    refine meets_seq (resources_joinLoop cfg.instances g₁ h₁) fun _ g₂ h₂ => ?_
    refine (meets_bind _ _ _ _).mpr (meets_call trivial fun _ _ => ?_)
    refine ⟨trivial, fun _ _ => ?_⟩
    refine meets_seq (resources_stopLoop cfg.instances st _ ⟨rfl, h₂⟩) fun r g₃ h₃ => ?_
    cases r with
    | error e => exact h₃
    | ok st => exact resources_finishSample h₃ st

/-! ### dcStatelessSample and main -/

theorem resources_sampleBody (cfg : Cfg) (hc : g.1.created = []) (hr : g.2 = .start) :
    Meets resourceProtocol (sampleBody cfg) (fun _ g => g.2.Settled) g := by
  have hstart : ∀ g : MainGhost × Resources, g.2 = .start → g.2.Settled := by
    intro g hg
    rw [hg]
    exact Resources.holds_start.settled
  refine meets_call trivial fun st _ => ?_
  show Meets resourceProtocol (if st ≠ success then _ else _) _ _
  split
  · exact hstart _ hr
  refine meets_seq (resources_infoLoop cfg.instances st _ hc hr) fun r g₁ h₁ => ?_
  cases r with
  | error e => exact h₁
  | ok st =>
    refine meets_seq (resources_readDataFile h₁.1 h₁.2) fun r g₂ h₂ => ?_
    cases r with
    | error e => exact h₂
    | ok b =>
      obtain ⟨hprep, hopened⟩ := h₂
      have hnew : ∀ i ∈ cfg.instances, FileName.traceVm (i + 1) ∉ g₂.2.files.acquired := by
        intro i _
        simp [hopened]
      refine meets_seq (resources_traceLoop cfg cfg.instances g₂ hprep List.nodup_range hnew) ?_
      intro r g₃ h₃
      cases r with
      | error e => exact h₃
      | ok u => exact resources_runWorkers cfg h₃ st

theorem resources_mainThread (cfg : Cfg) :
    Meets resourceProtocol (mainThread cfg) (fun _ _ => True) (MainGhost.start, .start) := by
  refine meets_process (T := fun g : MainGhost × Resources => g.1.created = [] ∧ g.2 = .start)
    (U := fun g : MainGhost × Resources => g.2.Settled) ?_ ?_ ?_ ?_ ⟨rfl, rfl⟩
  · exact fun g f hg => ⟨trivial, fun _ _ => hg⟩
  · exact fun g hg => resources_sampleBody cfg hg.1 hg.2
  · exact fun g st hg => hg
  · exact fun g f => trivial

/-! ### Every run -/

def resources (l : List Entry) : Resources :=
  ghost ⟨Resources, Resources.next, fun _ _ _ => True, fun _ _ => True⟩ .start .main l

theorem resources_guar {cfg : Cfg} {ok : State → Entry → Prop} {s : State}
    (hr : ReachVia (Step cfg) ok (initial cfg) s) {c : Call} {k : c.Resp → Code CpaStatus}
    (hm : s.main = some (.call c k)) :
    resourceProtocol.guar (mainGhost s.log, resources s.log) c := by
  have hmeets := main_meets (mainMeets_initial (resources_mainThread cfg))
    (fun _ _ _ _ _ _ _ _ _ => trivial) hr _ hm
  have hpair := ghost_pair MainGhost.next Resources.next (fun _ _ _ => True)
    (fun _ _ _ => True) (fun _ _ _ => True) resourceProtocol.guar (fun _ _ => True)
    (fun _ _ => True) MainGhost.start .start .main s.log
  exact hpair ▸ hmeets.1

theorem gone_at_free {cfg : Cfg} {ok : State → Entry → Prop} {s : State}
    (hr : ReachVia (Step cfg) ok (initial cfg) s) {a : Allocator} {b : BlockId}
    {k : (Call.memFree a b).Resp → Code CpaStatus} (hm : s.main = some (.call (.memFree a b) k)) :
    WorkersGone s := by
  have hlink := mainLinked_reached hr
  have hfree : (mainGhost s.log).created = [] ∨ (mainGhost s.log).phase = .stopped :=
    resources_guar hr hm
  rcases hfree with hnone | hstopped
  · exact hlink.gone_of_none hnone
  · exact hlink.gone (.inr hstopped)

/-- Wherever the main thread was about to free a block, no worker was left. -/
def FreesAlone (cfg : Cfg) (s : State) : Prop :=
  ∀ s₀, Reach (Step cfg) (initial cfg) s₀ → Reach (Step cfg) s₀ s →
    ∀ a b k, s₀.main = some (.call (.memFree a b) k) → WorkersGone s₀

/-- When `dcStatelessSample` returns, every file it opened was closed once, `NULL`
was not closed, and the input buffer was freed once and not under a running worker,
exactly if no trace file failed to open, no worker failed to be created and no
instance failed to be stopped. -/
theorem resources_released_iff (cfg : Cfg) (s : State) (st : CpaStatus)
    (k : (Call.returnSample st).Resp → Code CpaStatus)
    (hr : Reach (Step cfg) (initial cfg) s) (hm : s.main = some (.call (.returnSample st) k)) :
    ((resources s.log).Released ∧ FreesAlone cfg s) ↔ (resources s.log).refused = false := by
  have hsettled : (resources s.log).Settled := resources_guar hr hm
  constructor
  · intro h
    exact hsettled.mp h.1
  · intro hgranted
    refine ⟨hsettled.mpr hgranted, ?_⟩
    intro s₀ hr₀ _ a b k₀ hfree
    exact gone_at_free hr₀ hfree

set_option maxRecDepth 20000 in
theorem resources_released_iff_run :
    ∃ s : State, (resources s.log).files.released = [.traceVm 1, .silesia] ∧
      (resources s.log).buffers.released = [0] ∧
      (resources s.log).Released ∧ FreesAlone oneUnpolled s := by
  have hrun : (replay oneUnpolled (allGood oneUnpolled) (fun _ _ => true) (initial oneUnpolled)
      (createMoves ++ workerMoves 0 ++ finishMoves)).any
      (fun s => returning s ∧ (resources s.log).files.released = [.traceVm 1, .silesia] ∧
        (resources s.log).buffers.released = [0] ∧ (resources s.log).refused = false) = true := by
    decide +kernel
  obtain ⟨s, hr, hT⟩ := exists_reached hrun
  obtain ⟨hret, hfiles, hbuffers, hgranted⟩ := of_decide_eq_true hT
  obtain ⟨st, k, hm⟩ := exists_of_returning hret
  exact ⟨s, hfiles, hbuffers, (resources_released_iff oneUnpolled s st k hr.reach hm).mpr hgranted⟩

def traceMissing (cfg : Cfg) (s : State) : (c : Call) → c.Resp
  | .fopen (.traceVm _) => false
  | c => allGood cfg s c

set_option maxRecDepth 20000 in
/-- The trace file does not open: the buffer is freed, and `NULL` is closed. -/
theorem null_closed :
    ∃ s, Reach (Step oneUnpolled) (initial oneUnpolled) s ∧ returning s = true ∧
      ¬ (resources s.log).Released := by
  have hrun : (replay oneUnpolled (traceMissing oneUnpolled) (fun _ _ => true)
      (initial oneUnpolled) (List.replicate 11 .main)).any
      (fun s => returning s ∧ ¬ (resources s.log).Released) = true := by decide +kernel
  obtain ⟨s, hr, hT⟩ := exists_reached hrun
  obtain ⟨hret, hnot⟩ := of_decide_eq_true hT
  exact ⟨s, hr.reach, hret, hnot⟩

end QatDcSample
