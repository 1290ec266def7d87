import QatDcSample.WorkerCalls

/-!
# The main thread

How far the main thread has got, as ghost state computed from its calls, what
every run of its code owes of it, and its result: `CPA_STATUS_SUCCESS` exactly
if no set-up call failed, every worker was created and every stop succeeded.
-/

namespace QatDcSample
open EventProgram Prog CpaStatus Transition

/-- `starting` up to the last join; the create loop is left early in
`createFailed`; the flag is cleared in `stopping`, the sleep over in `stopped`. -/
inductive Phase where
  | starting | createFailed | stopping | stopped | returned
  deriving DecidableEq

/-- Workers created and joined and the outcomes of the stops, newest first. -/
structure MainGhost where
  phase : Phase
  setupFailed : Bool
  created : List ℕ
  joined : List ℕ
  stops : List (ℕ × CpaStatus)

namespace MainGhost

def start : MainGhost := ⟨.starting, false, [], [], []⟩

def failIf (g : MainGhost) (failed : Bool) : MainGhost :=
  { g with setupFailed := g.setupFailed || failed }

def next (g : MainGhost) : (c : Call) → c.Resp → MainGhost
  | .setup _, (st : CpaStatus) => g.failIf (st ≠ success)
  | .cpaDcInstanceGetInfo2 _, r => g.failIf (r.1 ≠ success)
  | .memAlloc _ _, r => g.failIf r.isNone
  | .fopen _, ok => g.failIf (!ok)
  | .fread _, ok => g.failIf (!ok)
  | .pthreadCreateWorker i, ok =>
      if ok = true then { g with created := i :: g.created } else { g with phase := .createFailed }
  | .pthreadJoin i, _ => { g with joined := i :: g.joined }
  | .setPollingDc _, _ => { g with phase := .stopping }
  | .osSleep _, _ => { g with phase := .stopped }
  | .cpaDcStopInstance i, (st : CpaStatus) => { g with stops := (i, st) :: g.stops }
  | .returnSample _, _ => { g with phase := .returned }
  | _, _ => g

def AllJoined (g : MainGhost) : Prop := ∀ i ∈ g.created, i ∈ g.joined

def AllCreated (g : MainGhost) (cfg : Cfg) : Prop := ∀ i ∈ cfg.instances, i ∈ g.created

def Complete (g : MainGhost) (cfg : Cfg) : Prop :=
  g.setupFailed = false ∧ g.AllCreated cfg ∧ ∀ i ∈ cfg.instances, (i, success) ∈ g.stops

def StopsInOrder (g : MainGhost) (cfg : Cfg) : Prop :=
  ∀ i ∈ cfg.instances, i ∈ g.stops.map Prod.fst ↔ ∀ j < i, (j, success) ∈ g.stops

/-- `dcStatelessSample` returns: before it created a worker, out of the create loop,
or after it joined all workers and stopped the instances. -/
def Returns (g : MainGhost) (cfg : Cfg) : Prop :=
  (¬ g.AllCreated cfg ∧ g.stops = [] ∧
      (g.phase = .createFailed ∨ g.phase = .starting ∧ g.created = [])) ∨
    (g.AllCreated cfg ∧ g.AllJoined ∧ g.StopsInOrder cfg ∧ g.phase = .stopped)

/-- Workers are created one after the other before anything is joined; all are
joined before the pollers are told to stop; instances are stopped after that, and
each at most once. -/
def Guar (cfg : Cfg) (g : MainGhost) : Call → Prop
  | .pthreadCreateWorker i => g.phase = .starting ∧ i ∉ g.created ∧ i ∈ cfg.instances
  | .pthreadJoin i => g.phase = .starting ∧ i ∈ g.created
  | .setPollingDc v => v = false ∧ g.phase = .starting ∧ g.AllJoined
  | .osSleep _ => g.phase = .stopping
  | .cpaDcStopInstance i =>
      g.phase = .stopped ∧ i ∉ g.stops.map Prod.fst ∧ i ∈ cfg.instances
  | .returnSample _ => g.Returns cfg
  | .teardown f => g.phase = .returned ∨ (f = .qaeMemDestroy ∧ g.created = [])
  | .cpaDcStartInstance _ _ _ => False
  | .pthreadCreatePoller _ => False
  | _ => True

end MainGhost

@[reducible] def mainProtocol (cfg : Cfg) : Protocol Call Call.Resp where
  σ := MainGhost
  next := MainGhost.next
  rely := fun _ _ _ => True
  guar := MainGhost.Guar cfg

variable {cfg : Cfg}

/-! ### Set-up -/

/-- A section of the set-up: it fails, or leaves the ghost state as it was. -/
def SetupRun {α : Type} (g : MainGhost) (r : Except CpaStatus α) (g' : MainGhost) : Prop :=
  match r with
  | .error e => e ≠ success ∧ g' = { g with setupFailed := true }
  | .ok _ => g' = g

theorem failIf_true (g : MainGhost) : g.failIf true = { g with setupFailed := true } := by
  simp [MainGhost.failIf]

theorem failIf_false (g : MainGhost) : g.failIf false = g := by
  simp [MainGhost.failIf]

theorem next_setup_ok (g : MainGhost) (f : SetupFn) : g.next (.setup f) success = g := by
  simp [MainGhost.next, failIf_false]

theorem next_setup_fail (g : MainGhost) (f : SetupFn) {st : CpaStatus} (h : st ≠ success) :
    g.next (.setup f) st = { g with setupFailed := true } := by
  simp [MainGhost.next, h, failIf_true]

theorem meets_infoLoop (g : MainGhost) (is : List ℕ) :
    Meets (mainProtocol cfg) (infoLoop is success)
      (fun r g' => SetupRun g r g' ∧ ∀ st, r = .ok st → st = success) g := by
  induction is with
  | nil => exact ⟨rfl, fun st h => by cases h; rfl⟩
  | cons i is ih =>
    refine meets_call trivial fun r _ => ?_
    obtain ⟨st, polled⟩ := r
    show Meets (mainProtocol cfg) (if st ≠ success then _ else _) _ (g.failIf (st ≠ success))
    by_cases hst : st = success
    · subst hst
      simpa [failIf_false] using ih
    · rw [if_pos hst]
      refine ⟨⟨hst, ?_⟩, fun _ h => by cases h⟩
      simp [hst, failIf_true]

theorem meets_readDataFile (g : MainGhost) :
    Meets (mainProtocol cfg) readDataFile (SetupRun g) g := by
  refine meets_call trivial fun r _ => ?_
  cases r with
  | none => exact ⟨statusOne_ne_success, failIf_true g⟩
  | some b =>
    show Meets (mainProtocol cfg) _ _ (g.failIf false)
    rw [failIf_false]
    refine meets_call trivial fun ok _ => ?_
    cases ok with
    | false =>
      exact meets_call trivial fun _ _ => ⟨statusOne_ne_success, failIf_true g⟩
    | true =>
      show Meets (mainProtocol cfg) _ _ (g.failIf false)
      rw [failIf_false]
      refine meets_call trivial fun ok _ => ?_
      cases ok with
      | false =>
        refine meets_call trivial fun _ _ => ?_
        exact meets_call trivial fun _ _ => ⟨statusOne_ne_success, failIf_true g⟩
      | true => exact meets_call trivial fun _ _ => failIf_false g

theorem meets_storeTrace (row : ℕ) (records : List (Int × Int)) :
    ∀ (line : ℕ) (g : MainGhost),
      Meets (mainProtocol cfg) (storeTrace row records line) (fun _ g' => g' = g) g := by
  induction records with
  | nil => exact fun _ _ => rfl
  | cons record records ih =>
    exact fun line g => meets_call trivial fun _ _ => ih (line + 1) g

theorem meets_traceLoop (buffer : BlockId) (is : List ℕ) (g : MainGhost) :
    Meets (mainProtocol cfg) (traceLoop cfg buffer is) (SetupRun g) g := by
  induction is with
  | nil => rfl
  | cons i is ih =>
    refine meets_call trivial fun ok _ => ?_
    cases ok with
    | false =>
      refine meets_call trivial fun _ _ => ?_
      exact meets_call trivial fun _ _ => ⟨statusOne_ne_success, failIf_true g⟩
    | true =>
      show Meets (mainProtocol cfg) _ _ (g.failIf false)
      rw [failIf_false]
      refine meets_seq (meets_storeTrace i (cfg.trace i) 0 g) ?_
      rintro - g' rfl
      exact meets_call trivial fun _ _ => ih

/-! ### Creating, joining, stopping -/

def CreateRun (g : MainGhost) (is : List ℕ) (r : Except CpaStatus Unit) (g' : MainGhost) : Prop :=
  match r with
  | .ok _ => g' = { g with created := is.reverse ++ g.created }
  | .error e => e ≠ success ∧ ∃ pre i post, is = pre ++ i :: post ∧
      g' = { g with created := pre.reverse ++ g.created, phase := .createFailed }

theorem meets_createLoop (is : List ℕ) : ∀ (g : MainGhost), g.phase = .starting → is.Nodup →
    (∀ i ∈ is, i ∉ g.created ∧ i ∈ cfg.instances) →
    Meets (mainProtocol cfg) (createLoop is) (CreateRun g is) g := by
  induction is with
  | nil => exact fun g _ _ _ => rfl
  | cons i is ih =>
    intro g hp hnd hnew
    refine meets_call ⟨hp, hnew i List.mem_cons_self⟩ fun ok _ => ?_
    cases ok with
    | false => exact ⟨fail_ne_success, [], i, is, rfl, rfl⟩
    | true =>
      obtain ⟨hi, hnd⟩ := List.nodup_cons.mp hnd
      show Meets (mainProtocol cfg) (createLoop is) _ _
      refine meets_mono (ih { g with created := i :: g.created } hp hnd fun j hj => ?_) ?_
      · obtain ⟨hjc, hjn⟩ := hnew j (List.mem_cons_of_mem _ hj)
        refine ⟨fun hmem => ?_, hjn⟩
        rcases List.mem_cons.mp hmem with rfl | hmem
        · exact hi hj
        · exact hjc hmem
      · intro r g' h
        cases r with
        | ok u =>
          obtain rfl : g' = _ := h
          simp [CreateRun]
        | error e =>
          obtain ⟨he, pre, j, post, rfl, rfl⟩ := h
          exact ⟨he, i :: pre, j, post, rfl, by simp⟩

theorem meets_joinLoop (is : List ℕ) : ∀ (g : MainGhost), g.phase = .starting →
    (∀ i ∈ is, i ∈ g.created) → Meets (mainProtocol cfg) (joinLoop is)
      (fun _ g' => g' = { g with joined := is.reverse ++ g.joined }) g := by
  induction is with
  | nil => exact fun g _ _ => rfl
  | cons i is ih =>
    intro g hp hc
    refine meets_call ⟨hp, hc i List.mem_cons_self⟩ fun _ _ => ?_
    show Meets (mainProtocol cfg) (joinLoop is) _ _
    refine meets_mono (ih { g with joined := i :: g.joined } hp
      fun j hj => hc j (List.mem_cons_of_mem _ hj)) ?_
    rintro - g' rfl
    simp

def StopRun (g : MainGhost) (is : List ℕ) (r : Except CpaStatus CpaStatus) (g' : MainGhost) : Prop :=
  match r with
  | .ok st => st = success ∧ g' = { g with stops := (is.map (·, success)).reverse ++ g.stops }
  | .error e => e ≠ success ∧ ∃ pre i post, is = pre ++ i :: post ∧
      g' = { g with stops := (i, e) :: ((pre.map (·, success)).reverse ++ g.stops) }

theorem meets_stopLoop (is : List ℕ) : ∀ (g : MainGhost), g.phase = .stopped → is.Nodup →
    (∀ i ∈ is, i ∉ g.stops.map Prod.fst ∧ i ∈ cfg.instances) →
    Meets (mainProtocol cfg) (stopLoop is success) (StopRun g is) g := by
  induction is with
  | nil => exact fun g _ _ _ => ⟨rfl, rfl⟩
  | cons i is ih =>
    intro g hp hnd hnew
    refine meets_call ⟨hp, hnew i List.mem_cons_self⟩ fun st _ => ?_
    show Meets (mainProtocol cfg) (if st ≠ success then _ else _) _ _
    by_cases hst : st = success
    · subst hst
      obtain ⟨hi, hnd⟩ := List.nodup_cons.mp hnd
      refine meets_mono (ih { g with stops := (i, success) :: g.stops } hp hnd fun j hj => ?_) ?_
      · obtain ⟨hjc, hjn⟩ := hnew j (List.mem_cons_of_mem _ hj)
        refine ⟨fun hmem => ?_, hjn⟩
        rcases List.mem_cons.mp hmem with rfl | hmem
        · exact hi hj
        · exact hjc hmem
      · intro r g' h
        cases r with
        | ok u =>
          obtain ⟨hu, rfl⟩ := h
          exact ⟨hu, by simp⟩
        | error e =>
          obtain ⟨he, pre, j, post, rfl, rfl⟩ := h
          exact ⟨he, i :: pre, j, post, rfl, by simp⟩
    · rw [if_pos hst]
      exact ⟨hst, [], i, is, rfl, rfl⟩

/-! ### dcStatelessSample and main -/

def SampleRun (cfg : Cfg) (status : CpaStatus) (g : MainGhost) : Prop :=
  (status = success ↔ g.Complete cfg) ∧ g.Returns cfg

theorem Cfg.mem_instances {i : ℕ} : i ∈ cfg.instances ↔ i < cfg.numInstances := List.mem_range

theorem not_allCreated_nil {g : MainGhost} (h : g.created = []) : ¬ g.AllCreated cfg := by
  intro hall
  have hmem := hall 0 (Cfg.mem_instances.mpr cfg.pos)
  rw [h] at hmem
  cases hmem

theorem sampleRun_setupFailed {e : CpaStatus} (he : e ≠ success) :
    SampleRun cfg e { MainGhost.start with setupFailed := true } :=
  ⟨⟨fun h => absurd h he, fun h => by cases h.1⟩,
    .inl ⟨not_allCreated_nil rfl, rfl, .inr ⟨rfl, rfl⟩⟩⟩

theorem range_eq_append {n i : ℕ} {pre post : List ℕ} (h : List.range n = pre ++ i :: post) :
    pre = List.range i := by
  have hlen : pre.length < n := by
    have hl := congrArg List.length h
    simp only [List.length_range, List.length_append, List.length_cons] at hl
    omega
  have hpre : pre = List.range pre.length := by
    have ht := congrArg (List.take pre.length) h
    rw [List.take_left, List.take_range, Nat.min_eq_left (Nat.le_of_lt hlen)] at ht
    exact ht.symm
  have hi : i = pre.length := by
    have hg := congrArg (fun l : List ℕ => l[pre.length]?) h
    simp only [List.getElem?_range hlen, List.getElem?_append_right (Nat.le_refl _),
      Nat.sub_self, List.getElem?_cons_zero, Option.some.injEq] at hg
    exact hg.symm
  rw [hi]
  exact hpre

theorem stopsInOrder_all {g : MainGhost}
    (h : g.stops = (cfg.instances.map (·, success)).reverse) :
    g.StopsInOrder cfg ∧ ∀ i ∈ cfg.instances, (i, success) ∈ g.stops := by
  have hmem : ∀ i ∈ cfg.instances, (i, success) ∈ g.stops := by
    intro i hi
    simp [h, hi]
  refine ⟨fun i hi => ⟨fun _ j hj => hmem j ?_, fun _ => ?_⟩, hmem⟩
  · exact Cfg.mem_instances.mpr (Nat.lt_trans hj (Cfg.mem_instances.mp hi))
  · exact List.mem_map_of_mem (hmem i hi)

theorem stopsInOrder_failed {g : MainGhost} {k : ℕ} {e : CpaStatus} (he : e ≠ success)
    (h : g.stops = (k, e) :: ((List.range k).map (·, success)).reverse) :
    g.StopsInOrder cfg ∧ (k, success) ∉ g.stops := by
  have hok : ∀ j, (j, success) ∈ g.stops ↔ j < k := by
    intro j
    simp [h, Ne.symm he]
  constructor
  · intro i _
    have hcalled : i ∈ g.stops.map Prod.fst ↔ i ≤ k := by
      simp only [h, List.map_cons, List.map_reverse, List.map_map, List.mem_cons,
        List.mem_reverse, List.mem_map, List.mem_range, Function.comp_apply, exists_eq_right]
      omega
    rw [hcalled]
    constructor
    · intro hik j hj
      exact (hok j).mpr (by omega)
    · intro hall
      by_contra hik
      have hlt := (hok k).mp (hall k (by omega))
      omega
  · intro hmem
    exact absurd ((hok k).mp hmem) (Nat.lt_irrefl k)

theorem meets_runWorkers (buffer : BlockId) :
    Meets (mainProtocol cfg) (runWorkers cfg buffer success) (SampleRun cfg) MainGhost.start := by
  have hnd : cfg.instances.Nodup := List.nodup_range
  refine meets_seq (meets_createLoop cfg.instances MainGhost.start rfl hnd
    fun _ hi => ⟨List.not_mem_nil, hi⟩) ?_
  rintro (e | u) g hg
  · obtain ⟨he, pre, i, post, his, rfl⟩ := hg
    -- the worker whose creation failed is not among those created
    have hnot : ¬ ∀ j ∈ cfg.instances, j ∈ pre.reverse ++ [] := by
      intro hall
      have hi := hall i (by rw [his]; simp)
      rw [range_eq_append his] at hi
      simp at hi
    exact ⟨⟨fun h => absurd h he, fun h => absurd h.2.1 hnot⟩, .inl ⟨hnot, rfl, .inl rfl⟩⟩
  obtain rfl : g = _ := hg
  have hall : ∀ i ∈ cfg.instances, i ∈ cfg.instances.reverse ++ [] := fun i hi => by simpa using hi
  refine meets_seq (meets_joinLoop cfg.instances _ rfl hall) ?_
  rintro - g rfl
  refine (meets_bind _ _ _ _).mpr (meets_call ⟨rfl, rfl, fun _ hi => hi⟩ fun _ _ => ?_)
  refine ⟨rfl, fun _ _ => ?_⟩
  refine meets_seq (meets_stopLoop cfg.instances _ rfl hnd
    fun _ hi => ⟨List.not_mem_nil, hi⟩) ?_
  rintro (e | st) g hg
  · obtain ⟨he, pre, i, post, his, rfl⟩ := hg
    obtain rfl := range_eq_append his
    have hi : i ∈ cfg.instances := by rw [his]; simp
    have hstops : ∀ g : MainGhost, g.stops = (i, e) :: (((List.range i).map (·, success)).reverse ++
        []) → g.StopsInOrder cfg ∧ (i, success) ∉ g.stops :=
      fun g hg => stopsInOrder_failed he (by rw [hg, List.append_nil])
    exact ⟨⟨fun h => absurd h he, fun h => absurd (h.2.2 i hi) (hstops _ rfl).2⟩,
      .inr ⟨hall, fun _ hi => hi, (hstops _ rfl).1, rfl⟩⟩
  · obtain ⟨rfl, rfl⟩ := hg
    refine meets_call trivial fun _ _ => ?_
    refine meets_call trivial fun _ _ => ?_
    have hstops := fun g h => @stopsInOrder_all cfg g h
    exact ⟨⟨fun _ => ⟨rfl, hall, (hstops _ (List.append_nil _)).2⟩, fun _ => rfl⟩,
      .inr ⟨hall, fun _ hi => hi, (hstops _ (List.append_nil _)).1, rfl⟩⟩

theorem meets_sampleBody :
    Meets (mainProtocol cfg) (sampleBody cfg) (SampleRun cfg) MainGhost.start := by
  refine meets_call trivial fun st _ => ?_
  show Meets (mainProtocol cfg) (if st ≠ success then _ else _) _
    (MainGhost.start.next (.setup _) st)
  by_cases hst : st = success
  · subst hst
    rw [if_neg (by simp), next_setup_ok]
    refine meets_seq (meets_infoLoop MainGhost.start cfg.instances) ?_
    rintro (e | st) g ⟨hg, hok⟩
    · obtain ⟨he, rfl⟩ := hg
      exact sampleRun_setupFailed he
    obtain rfl := hok st rfl
    obtain rfl : g = MainGhost.start := hg
    refine meets_seq (meets_readDataFile MainGhost.start) ?_
    rintro (e | buffer) g hg
    · obtain ⟨he, rfl⟩ := hg
      exact sampleRun_setupFailed he
    obtain rfl : g = MainGhost.start := hg
    refine meets_seq (meets_traceLoop buffer cfg.instances MainGhost.start) ?_
    rintro (e | u) g hg
    · obtain ⟨he, rfl⟩ := hg
      exact sampleRun_setupFailed he
    obtain rfl : g = MainGhost.start := hg
    exact meets_runWorkers buffer
  · rw [if_pos hst, next_setup_fail _ _ hst]
    exact sampleRun_setupFailed hst

def MainRun (cfg : Cfg) (status : CpaStatus) (g : MainGhost) : Prop :=
  (status = success ↔ g.Complete cfg) ∧ (g.Complete cfg → g.AllJoined)

theorem SampleRun.mainRun {st : CpaStatus} {g : MainGhost} (h : SampleRun cfg st g) :
    MainRun cfg st g := by
  refine ⟨h.1, fun hc => ?_⟩
  rcases h.2 with ⟨hnot, -, -⟩ | ⟨-, hjoin, -, -⟩
  · exact absurd hc.2.1 hnot
  · exact hjoin

theorem meets_mainThread (cfg : Cfg) :
    Meets (mainProtocol cfg) (mainThread cfg) (MainRun cfg) MainGhost.start := by
  have hfailed : ∀ {st : CpaStatus} {g : MainGhost}, st ≠ success → g.setupFailed = true →
      MainRun cfg st g :=
    fun hst hf => ⟨⟨fun h => absurd h hst, fun h => absurd (hf.symm.trans h.1) (by decide)⟩,
      fun h => absurd (hf.symm.trans h.1) (by decide)⟩
  refine meets_call trivial fun st _ => ?_
  show Meets (mainProtocol cfg) (if st ≠ success then _ else _) _
    (MainGhost.start.next (.setup _) st)
  by_cases hst : st = success
  · subst hst
    rw [if_neg (by simp), next_setup_ok]
    refine meets_call trivial fun st _ => ?_
    show Meets (mainProtocol cfg) (if st ≠ success then _ else _) _
      (MainGhost.start.next (.setup _) st)
    by_cases hst : st = success
    · subst hst
      rw [if_neg (by simp), next_setup_ok]
      refine meets_seq (P := mainProtocol cfg)
        (M := fun st (g : MainGhost) => MainRun cfg st g ∧ g.phase = .returned)
        ?_ fun st g h => ?_
      · refine meets_seq meets_sampleBody fun st g h => ?_
        exact meets_call h.2 fun _ _ => ⟨h.mainRun, rfl⟩
      · refine meets_call (.inl h.2) fun _ _ => ?_
        exact meets_call (.inl h.2) fun _ _ => h.1
    · rw [if_pos hst, next_setup_fail _ _ hst]
      exact meets_call (.inr ⟨rfl, rfl⟩) fun _ _ => hfailed hst rfl
  · rw [if_pos hst, next_setup_fail _ _ hst]
    exact hfailed hst rfl

/-! ### The process around dcStatelessSample -/

/-- `T` up to the sample, `U` when it returns. -/
theorem meets_process {P : Protocol Call Call.Resp} {T U : P.σ → Prop}
    (hsetup : ∀ g f, T g → P.guar g (.setup f) ∧
      ∀ r, P.rely g (.setup f) r → T (P.next g (.setup f) r))
    (hbody : ∀ g, T g → Meets P (sampleBody cfg) (fun _ g' => U g') g)
    (hreturn : ∀ g st, U g → P.guar g (.returnSample st))
    (hteardown : ∀ g f, P.guar g (.teardown f)) {g : P.σ} (hg : T g) :
    Meets P (mainThread cfg) (fun _ _ => True) g := by
  have hsample : ∀ g, T g → Meets P (dcStatelessSample cfg) (fun _ _ => True) g := by
    intro g hg
    refine meets_seq (hbody g hg) fun st g₁ h₁ => ?_
    exact meets_call (hreturn g₁ st h₁) fun _ _ => trivial
  refine meets_call ((hsetup g _ hg).1) fun st hst => ?_
  have hg₁ := (hsetup g _ hg).2 st hst
  show Meets P (if st ≠ success then _ else _) _ _
  split
  · trivial
  refine meets_call ((hsetup _ _ hg₁).1) fun st hst => ?_
  have hg₂ := (hsetup _ _ hg₁).2 st hst
  show Meets P (if st ≠ success then _ else _) _ _
  split
  · exact meets_call (hteardown _ _) fun _ _ => trivial
  refine meets_seq (hsample _ hg₂) fun st g₃ _ => ?_
  refine meets_call (hteardown _ _) fun _ _ => ?_
  exact meets_call (hteardown _ _) fun _ _ => trivial

end QatDcSample
