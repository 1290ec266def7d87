import QatDcSample.WorkerLifetime

/-!
# Reading the traces

`trace_time[numInstances][NUM_LINES_PER_FILE]` is one block of memory, its rows one
behind the other; the reading loop of `dcStatelessSample` stores a line for every
record of a file (`dc_qat_funcs.c:650-669`), and worker `i` reads entry 1 of row `i`.
-/

namespace QatDcSample
open EventProgram Prog CpaStatus Transition

/-- `NUM_LINES_PER_FILE`. -/
def numLinesPerFile : ℕ := 1000

/-- The position of `trace_time[row][line]` in the block. -/
def cell (row line : ℕ) : ℕ := row * numLinesPerFile + line

theorem cell_inj {row row' line line' : ℕ} (h : line < numLinesPerFile)
    (h' : line' < numLinesPerFile) (he : cell row line = cell row' line') :
    row = row' ∧ line = line' := by
  unfold cell numLinesPerFile at *
  omega

/-- What was stored in `trace_time`, and the trace files read to their end. -/
structure Reading where
  traceTime : ℕ → Option UInt32
  closed : List ℕ

namespace Reading

def start : Reading := ⟨fun _ => none, []⟩

def next (g : Reading) : (c : Call) → c.Resp → Reading
  | .storeTraceTime row line interval, _ =>
      { g with
        traceTime := Function.update g.traceTime (cell row line) (some (UInt32.ofInt interval)) }
  | .fclose (some (.traceVm i)), _ => { g with closed := i :: g.closed }
  | _, _ => g

/-- `trace_time[row][line]` is the interval of that record of the row's file. -/
def Holds (cfg : Cfg) (g : Reading) (row line : ℕ) : Prop :=
  ∀ record ∈ (cfg.trace row)[line]?,
    g.traceTime (cell row line) = some (UInt32.ofInt record.2)

def RowRead (cfg : Cfg) (g : Reading) (row n : ℕ) : Prop := ∀ line < n, g.Holds cfg row line

def Done (cfg : Cfg) (g : Reading) : Prop := ∀ i ∈ cfg.instances, i + 1 ∈ g.closed

def Guar (cfg : Cfg) (g : Reading) : Call → Prop
  | .storeTraceTime row line _ => row + 1 ∉ g.closed ∧ line < numLinesPerFile
  | .fclose (some (.traceVm n)) => ∀ i, n = i + 1 → g.RowRead cfg i numLinesPerFile
  | .pthreadCreateWorker _ => g.Done cfg
  | _ => True

end Reading

@[reducible] def readingProtocol (cfg : Cfg) : Protocol Call Call.Resp where
  σ := Reading
  next := Reading.next
  rely := fun _ _ _ => True
  guar := Reading.Guar cfg

variable {cfg : Cfg} {g : Reading}

/-! ### What the loop stores -/

theorem traceTime_store (g : Reading) (row line : ℕ) (interval : Int) :
    (g.next (.storeTraceTime row line interval) ()).traceTime =
      Function.update g.traceTime (cell row line) (some (UInt32.ofInt interval)) := rfl

theorem rowRead_store {row line : ℕ} {record : Int × Int} (h : g.RowRead cfg row line)
    (hrecord : (cfg.trace row)[line]? = some record) :
    (g.next (.storeTraceTime row line record.2) ()).RowRead cfg row (line + 1) := by
  intro line' hline' record' hrecord'
  rw [traceTime_store]
  by_cases he : line' = line
  · subst he
    obtain rfl : record = record' := Option.some.inj (hrecord.symm.trans hrecord')
    rw [Function.update_self]
  · have hne : cell row line' ≠ cell row line := by
      unfold cell
      omega
    rw [Function.update_of_ne hne]
    exact h line' (by omega) record' hrecord'

theorem rowRead_of_end {row line n : ℕ} (h : g.RowRead cfg row line)
    (hend : (cfg.trace row).length ≤ line) : g.RowRead cfg row n := by
  intro line' _ record hrecord
  have hlt := (List.getElem?_eq_some_iff.mp hrecord).1
  exact h line' (by omega) record hrecord

/-- The stores of one file: `records` are those left, and the lines before are read. -/
theorem reading_storeTrace (row : ℕ) (records : List (Int × Int)) : ∀ (line : ℕ) (g : Reading),
    (cfg.trace row).drop line = records → (cfg.trace row).length ≤ numLinesPerFile →
    row + 1 ∉ g.closed → g.RowRead cfg row line →
    Meets (readingProtocol cfg) (storeTrace row records line)
      (fun _ g' => g'.closed = g.closed ∧ g'.RowRead cfg row numLinesPerFile) g := by
  induction records with
  | nil =>
    intro line g hdrop hlen hopen h
    exact ⟨rfl, rowRead_of_end h (List.drop_eq_nil_iff.mp hdrop)⟩
  | cons record records ih =>
    intro line g hdrop hlen hopen h
    have hrecord : (cfg.trace row)[line]? = some record := by
      rw [← List.head?_drop, hdrop]
      rfl
    have hline : line < (cfg.trace row).length := (List.getElem?_eq_some_iff.mp hrecord).1
    have htail : (cfg.trace row).drop (line + 1) = records := by
      rw [← List.tail_drop, hdrop]
      rfl
    refine meets_call ⟨hopen, by omega⟩ fun _ _ => ?_
    exact ih (line + 1) (g.next (.storeTraceTime row line record.2) ()) htail hlen hopen
      (rowRead_store h hrecord)

/-- Reading the files of `is`: an error, or all of them are closed. -/
def TraceLoopRun (is : List ℕ) (r : Except CpaStatus Unit) (g : Reading) : Prop :=
  r = .ok () → ∀ i ∈ is, i + 1 ∈ g.closed

theorem reading_traceLoop (buffer : BlockId) (is : List ℕ) : ∀ g : Reading,
    (∀ i ∈ is, (cfg.trace i).length ≤ numLinesPerFile) → is.Nodup →
    (∀ i ∈ is, i + 1 ∉ g.closed) →
    Meets (readingProtocol cfg) (traceLoop cfg buffer is)
      (fun r g' => TraceLoopRun is r g' ∧ ∀ n ∈ g.closed, n ∈ g'.closed) g := by
  induction is with
  | nil => exact fun g _ _ _ => ⟨fun _ i hi => absurd hi List.not_mem_nil, fun _ hn => hn⟩
  | cons i is ih =>
    intro g hlen hnd hopen
    obtain ⟨hi, hnd⟩ := List.nodup_cons.mp hnd
    refine meets_call trivial fun ok _ => ?_
    cases ok with
    | false =>
      refine meets_call trivial fun _ _ => ?_
      exact meets_call trivial fun _ _ => ⟨fun h => (by cases h), fun _ hn => hn⟩
    | true =>
      have hstores := reading_storeTrace i (cfg.trace i) 0 g rfl (hlen i List.mem_cons_self)
        (hopen i List.mem_cons_self) fun line hline => absurd hline (Nat.not_lt_zero line)
      refine meets_seq hstores fun _ g₁ h₁ => ?_
      refine meets_call (fun j hj => ?_) fun _ _ => ?_
      · obtain rfl : i = j := by omega
        exact h₁.2
      show Meets (readingProtocol cfg) (traceLoop cfg buffer is) _ _
      refine meets_mono (ih _ (fun j hj => hlen j (List.mem_cons_of_mem _ hj)) hnd
        fun j hj hmem => ?_) fun r g' h => ⟨fun hr j hj => ?_, fun n hn => ?_⟩
      · rcases List.mem_cons.mp hmem with he | hmem
        · obtain rfl : j = i := by omega
          exact hi hj
        · exact hopen j (List.mem_cons_of_mem _ hj) (h₁.1 ▸ hmem)
      · rcases List.mem_cons.mp hj with rfl | hj
        · exact h.2 _ List.mem_cons_self
        · exact h.1 hr j hj
      · exact h.2 n (List.mem_cons_of_mem _ (h₁.1.symm ▸ hn))

/-! ### The rest of the main thread -/

theorem neutral_infoLoop (is : List ℕ) :
    ∀ st, Only (Neutral (readingProtocol cfg)) (infoLoop is st) := by
  induction is with
  | nil => exact fun _ => trivial
  | cons i is ih =>
    intro st
    refine only_bind ((only_perform _ _).mpr fun _ => ⟨trivial, fun _ => rfl⟩) fun r => ?_
    dsimp only
    split
    · trivial
    · exact ih r.1

theorem neutral_readDataFile : Only (Neutral (readingProtocol cfg)) readDataFile := by
  have hfree : ∀ b : BlockId, Neutral (readingProtocol cfg) (.memFree .os b) :=
    fun _ _ => ⟨trivial, fun _ => rfl⟩
  have hclose : Neutral (readingProtocol cfg) (.fclose (some .silesia)) :=
    fun _ => ⟨trivial, fun _ => rfl⟩
  refine only_bind ((only_perform _ _).mpr fun _ => ⟨trivial, fun _ => rfl⟩) fun r => ?_
  cases r with
  | none => trivial
  | some x =>
    refine only_bind ((only_perform _ _).mpr fun _ => ⟨trivial, fun _ => rfl⟩) fun ok => ?_
    cases ok with
    | false => exact only_bind ((only_perform _ _).mpr (hfree _)) fun _ => trivial
    | true =>
      refine only_bind ((only_perform _ _).mpr fun _ => ⟨trivial, fun _ => rfl⟩) fun ok => ?_
      cases ok with
      | false =>
        refine only_bind ((only_perform _ _).mpr (hfree _)) fun _ => ?_
        exact only_bind ((only_perform _ _).mpr hclose) fun _ => trivial
      | true => exact only_bind ((only_perform _ _).mpr hclose) fun _ => trivial

/-- Calls that store nothing in `trace_time` and may be made once it is filled. -/
def AfterReading (cfg : Cfg) (c : Call) : Prop :=
  ∀ g : Reading, g.Done cfg → g.Guar cfg c ∧ ∀ r, g.next c r = g

theorem afterReading_createLoop (is : List ℕ) : Only (AfterReading cfg) (createLoop is) := by
  induction is with
  | nil => trivial
  | cons i is ih =>
    refine only_bind ((only_perform _ _).mpr fun _ h => ⟨h, fun _ => rfl⟩) fun ok => ?_
    cases ok with
    | false => trivial
    | true => exact ih

theorem afterReading_joinLoop (is : List ℕ) : Only (AfterReading cfg) (joinLoop is) := by
  induction is with
  | nil => trivial
  | cons i is ih =>
    exact only_bind ((only_perform _ _).mpr fun _ _ => ⟨trivial, fun _ => rfl⟩) fun _ => ih

theorem afterReading_stopLoop (is : List ℕ) :
    ∀ st, Only (AfterReading cfg) (stopLoop is st) := by
  induction is with
  | nil => exact fun _ => trivial
  | cons i is ih =>
    intro st
    refine only_bind ((only_perform _ _).mpr fun _ _ => ⟨trivial, fun _ => rfl⟩) fun st => ?_
    split
    · trivial
    · exact ih st

theorem afterReading_finishSample (buffer : BlockId) (st : CpaStatus) :
    Only (AfterReading cfg) (finishSample buffer st) := by
  have hprint : ∀ msg, AfterReading cfg (.print msg) := fun _ _ _ => ⟨trivial, fun _ => rfl⟩
  refine only_bind ((only_perform _ _).mpr fun _ _ => ⟨trivial, fun _ => rfl⟩) fun _ => ?_
  dsimp only
  split
  · exact only_bind ((only_perform _ _).mpr (hprint _)) fun _ => trivial
  · exact only_bind ((only_perform _ _).mpr (hprint _)) fun _ => trivial

theorem afterReading_runWorkers (buffer : BlockId) (st : CpaStatus) :
    Only (AfterReading cfg) (runWorkers cfg buffer st) := by
  refine only_bind (afterReading_createLoop _) fun r => ?_
  cases r with
  | error e => trivial
  | ok u =>
    refine only_bind (afterReading_joinLoop _) fun _ => ?_
    refine only_bind (only_bind ((only_perform _ _).mpr fun _ _ => ⟨trivial, fun _ => rfl⟩)
      fun _ => (only_perform _ _).mpr fun _ _ => ⟨trivial, fun _ => rfl⟩) fun _ => ?_
    refine only_bind (afterReading_stopLoop _ _) fun r => ?_
    cases r with
    | error e => trivial
    | ok st => exact afterReading_finishSample buffer st

theorem reading_sampleBody (hlen : ∀ i ∈ cfg.instances, (cfg.trace i).length ≤ numLinesPerFile) :
    Meets (readingProtocol cfg) (sampleBody cfg) (fun _ _ => True) .start := by
  refine meets_call trivial fun st _ => ?_
  show Meets (readingProtocol cfg) (if st ≠ success then _ else _) _ .start
  split
  · trivial
  refine meets_seq (meets_neutral (neutral_infoLoop cfg.instances st) .start) ?_
  rintro r g rfl
  cases r with
  | error e => trivial
  | ok st =>
    refine meets_seq (meets_neutral neutral_readDataFile .start) ?_
    rintro r g rfl
    cases r with
    | error e => trivial
    | ok buffer =>
      refine meets_seq (reading_traceLoop buffer cfg.instances .start hlen List.nodup_range
        fun _ _ => List.not_mem_nil) fun r g h => ?_
      cases r with
      | error e => trivial
      | ok u =>
        refine meets_mono (meets_of_only (Reading.Done cfg) ?_ (afterReading_runWorkers buffer st)
          (h.1 rfl)) fun _ _ _ => trivial
        intro g c hc hg
        refine ⟨(hc g hg).1, fun r _ => ?_⟩
        show (g.next c r).Done cfg
        rw [(hc g hg).2 r]
        exact hg

theorem reading_mainThread (hlen : ∀ i ∈ cfg.instances, (cfg.trace i).length ≤ numLinesPerFile) :
    Meets (readingProtocol cfg) (mainThread cfg) (fun _ _ => True) .start := by
  refine meets_process (T := (· = Reading.start)) (U := fun _ => True) ?_ ?_ ?_ ?_ rfl
  · exact fun g f hg => ⟨trivial, fun _ _ => hg⟩
  · rintro g rfl
    exact reading_sampleBody hlen
  · exact fun g st _ => trivial
  · exact fun g f => trivial

/-! ### What the workers read -/

/-- Worker `i` reads entry 1 of its own row and no other. -/
def OwnEntry (i : ℕ) (c : Call) : Prop :=
  ∀ row line, c = .readSample row (.interval line) → row = i ∧ line = 1

theorem ownEntry_of_no_read {i : ℕ} {c : Call} (h : ∀ row line, c ≠ .readSample row (.interval line)) :
    OwnEntry i c := fun row line he => absurd he (h row line)

section worker
variable (i : ℕ)

theorem ownEntry_of_only {C : Call → Prop} (hC : ∀ row line, ¬ C (.readSample row (.interval line)))
    {α : Type} {p : Code α} (h : Only C p) : Only (OwnEntry i) p :=
  only_mono (fun _ hc => ownEntry_of_no_read fun row line he => hC row line (he ▸ hc)) h

theorem ownEntry_of_silent {α : Type} {p : Code α} (h : Only Call.Silent p) : Only (OwnEntry i) p :=
  ownEntry_of_only i (fun _ _ hc => hc) h

theorem ownEntry_initSession (st : CpaStatus) : Only (OwnEntry i) (initSession i st) := by
  refine only_bind (only_whenOkSet (ownEntry_of_silent i (silent_startPolling i))) fun r => ?_
  refine only_bind (only_whenOkSet (only_memAlloc (ownEntry_of_no_read (by simp)))) fun r => ?_
  exact only_bind (ownEntry_of_silent i (silent_apiWhenOk i _ _)) fun _ => trivial

theorem ownEntry_runSession (session : Ptr) : Only (OwnEntry i) (runSession i session) := by
  have hhandle : Only (OwnEntry i) (dcInstHandle i) := ownEntry_of_silent i (silent_dcInstHandle i)
  have hop : ∀ inst, Only (OwnEntry i) (compPerformOp inst session) := fun inst =>
    ownEntry_of_only i (fun _ _ hc => hc) (inOp_compPerformOp inst session)
  refine only_bind ((only_perform _ _).mpr (ownEntry_of_no_read (by simp))) fun _ => ?_
  refine only_bind hhandle fun inst => only_bind (hop inst) fun st => only_bind hhandle fun inst => ?_
  refine only_bind ((only_perform _ _).mpr (ownEntry_of_no_read (by simp))) fun st' => ?_
  split <;> trivial

theorem ownEntry_enqueueQATWork : Only (OwnEntry i) (enqueueQATWork i) := by
  refine only_bind ((only_perform _ _).mpr fun row line he => ?_) fun _ => ?_
  · cases he
    exact ⟨rfl, rfl⟩
  refine only_bind (ownEntry_of_silent i (silent_dcInstHandle i)) fun inst => ?_
  refine only_bind ((only_perform _ _).mpr (ownEntry_of_no_read (by simp))) fun r => ?_
  dsimp only
  split
  · trivial
  refine only_bind (ownEntry_of_only i (fun _ _ hc => hc) (build_interBuffers i _ _)) fun r => ?_
  refine only_bind (ownEntry_of_silent i (silent_startInstance i _ _ _)) fun st => ?_
  refine only_bind (ownEntry_initSession i st) fun r => ?_
  refine only_bind (only_whenOk (ownEntry_runSession i _)) fun st => ?_
  refine only_bind (ownEntry_of_silent i (silent_apiWhenOk i st _)) fun st => ?_
  exact only_bind (ownEntry_of_only i (fun _ _ hc => hc) (after_cleanUp _ _ _)) fun _ => trivial

end worker

/-! ### Every run -/

def reading (l : List Entry) : Reading :=
  ghost ⟨Reading, Reading.next, fun _ _ _ => True, fun _ _ => True⟩ .start .main l

/-- The reading loop in a state of a run: a store that comes next is inside its row,
after the loop every entry a file has a record for holds it, and so does every entry
that a worker reads next. -/
structure TraceRead (cfg : Cfg) (s : State) : Prop where
  inBounds : ∀ row line interval k,
    s.main = some (.call (.storeTraceTime row line interval) k) → line < numLinesPerFile
  complete : (reading s.log).Done cfg →
    ∀ i ∈ cfg.instances, (reading s.log).RowRead cfg i numLinesPerFile
  read : ∀ j row line k, s.worker j = some (.call (.readSample row (.interval line)) k) →
    line < numLinesPerFile ∧ line < (cfg.trace row).length ∧ (reading s.log).Holds cfg row line

theorem reading_guar (hlen : ∀ i ∈ cfg.instances, (cfg.trace i).length ≤ numLinesPerFile)
    {ok : State → Entry → Prop} {s : State} (hr : ReachVia (Step cfg) ok (initial cfg) s) {c : Call}
    {k : c.Resp → Code CpaStatus} (hm : s.main = some (.call c k)) :
    (reading s.log).Guar cfg c := by
  have hmeets := main_meets (mainMeets_initial (reading_mainThread hlen))
    (fun _ _ _ _ _ _ _ _ _ => trivial) hr _ hm
  rw [ghost_mk] at hmeets
  exact hmeets.1

theorem ownEntry_reached {ok : State → Entry → Prop} {s : State}
    (hr : ReachVia (Step cfg) ok (initial cfg) s) {i : ℕ} {c : Call} {k : c.Resp → Code CpaStatus}
    (hw : s.worker i = some (.call c k)) : OwnEntry i c :=
  ((worker_meets_always (fun _ _ _ => trivial)
    (workerMeets_initial cfg (meets_onlyProtocol (ownEntry_enqueueQATWork i))) hr).left _ hw).1

def RowsRead (cfg : Cfg) (g : Reading) : Prop :=
  ∀ i, i + 1 ∈ g.closed → g.RowRead cfg i numLinesPerFile

theorem rowsRead_next (h : RowsRead cfg g) {c : Call} (hg : g.Guar cfg c) (r : c.Resp) :
    RowsRead cfg (g.next c r) := by
  cases c <;> try exact h
  case storeTraceTime row line interval =>
    intro i hi line' hline' record hrecord
    have hne : cell i line' ≠ cell row line := by
      intro he
      obtain ⟨rfl, -⟩ := cell_inj hline' hg.2 he
      exact hg.1 hi
    rw [traceTime_store, Function.update_of_ne hne]
    exact h i hi line' hline' record hrecord
  case fclose f =>
    cases f with
    | none => exact h
    | some f =>
      cases f with
      | silesia => exact h
      | traceVm n =>
        intro i hi
        rcases List.mem_cons.mp hi with he | hi
        · exact hg i he.symm
        · exact h i hi

theorem done_next (h : g.Done cfg) (c : Call) (r : c.Resp) : (g.next c r).Done cfg := by
  cases c <;> try exact h
  case fclose f =>
    cases f with
    | none => exact h
    | some f =>
      cases f with
      | silesia => exact h
      | traceVm n => exact fun i hi => List.mem_cons_of_mem _ (h i hi)

/-- There are workers only once all files were read. -/
structure ReadingKept (cfg : Cfg) (s : State) : Prop where
  rows : RowsRead cfg (reading s.log)
  workers : ∀ i, s.worker i ≠ none → (reading s.log).Done cfg

theorem readingKept_step {s s' : State} {e : Entry} (h : ReadingKept cfg s)
    (hmain : ∀ c k, s.main = some (.call c k) → (reading s.log).Guar cfg c)
    (hs : Step cfg s e s') : ReadingKept cfg s' := by
  cases hs with
  | @main c k r hm ha =>
    have hlog : reading (s.mainStep cfg c r (k r)).log = (reading s.log).next c r :=
      ghost_own _ _ .main c r s.log
    have hguar := hmain c k hm
    refine ⟨hlog ▸ rowsRead_next h.rows hguar r, fun i hi => hlog ▸ done_next ?_ c r⟩
    rcases spawnWorker_eq s.worker c r with hw | ⟨j, rfl, -, -⟩
    · exact h.workers i fun hn => hi ((congrFun hw i).trans hn)
    · exact hguar
  | @worker j c k r hrun hw ha =>
    have hlog : reading (s.workerStep cfg j c r (k r)).log = reading s.log :=
      ghost_other _ _ (by simp) c r s.log
    exact ⟨hlog ▸ h.rows, fun _ _ => hlog ▸ h.workers j (by simp [hw])⟩
  | @poller j p c k r hrun hp hn ha =>
    have hlog : reading (s.pollerStep cfg j c r (k r)).log = reading s.log :=
      ghost_other _ _ (by simp) c r s.log
    exact ⟨hlog ▸ h.rows, fun i hi => hlog ▸ h.workers i hi⟩
  | callback hrun hq hresp => exact ⟨h.rows, h.workers⟩

theorem traceRead_reached
    (hlen : ∀ i ∈ cfg.instances, 2 ≤ (cfg.trace i).length ∧ (cfg.trace i).length ≤ numLinesPerFile)
    {s : State} (hr : Reach (Step cfg) (initial cfg) s) : TraceRead cfg s := by
  have hle : ∀ i ∈ cfg.instances, (cfg.trace i).length ≤ numLinesPerFile := fun i hi => (hlen i hi).2
  have hkept : ReadingKept cfg s := by
    refine hr.invariant ⟨fun i hi => absurd hi List.not_mem_nil, fun i hi => absurd rfl hi⟩ ?_
    exact fun _ _ _ hreach h hst _ => readingKept_step h (fun _ _ hm => reading_guar hle hreach hm) hst
  refine ⟨fun row line interval k hm => (reading_guar hle hr hm).2,
    fun hdone i hi => hkept.rows i (hdone i hi), fun j row line k hw => ?_⟩
  obtain ⟨rfl, rfl⟩ := ownEntry_reached hr hw row line rfl
  have hj : row ∈ cfg.instances := (forInstances_reached hr).worker row (by simp [hw])
  have hdone := hkept.workers row (by simp [hw])
  exact ⟨by decide, (hlen row hj).1, hkept.rows row (hdone row hj) 1 (by decide)⟩

/-! ### Runs that go wrong -/

section leads
variable {T : State → Call → Prop}

theorem leads_infoLoop (is : List ℕ) : ∀ s : State, Leads (mainAnswers cfg) T (infoLoop is success)
    (fun r s' => r = .ok success ∧ s'.worker = s.worker) s := by
  induction is with
  | nil => exact fun s => ⟨rfl, rfl⟩
  | cons i is ih =>
    intro s
    refine leads_perform (success, cfg.isPolled i) (fun _ => rfl) ?_
    show Leads _ _ (if success ≠ success then _ else infoLoop is success) _ _
    rw [if_neg (by simp)]
    exact ih ((mainAnswers cfg).next s (.cpaDcInstanceGetInfo2 i) (success, cfg.isPolled i))

theorem leads_readDataFile (s : State) : Leads (mainAnswers cfg) T readDataFile
    (fun r s' => (∃ b, r = .ok b) ∧ s'.worker = s.worker) s := by
  obtain ⟨base, hfresh⟩ := s.world.mem.exists_fresh sampleMaxBuff
  refine leads_perform (some (s.world.mem.next, base)) hfresh ?_
  refine leads_perform true trivial ?_
  refine leads_perform true trivial ?_
  exact leads_perform () trivial ⟨⟨_, rfl⟩, rfl⟩

theorem leads_storeTrace (row : ℕ) (records : List (Int × Int)) : ∀ (line : ℕ) (s : State),
    Leads (mainAnswers cfg) T (storeTrace row records line) (fun _ s' => s'.worker = s.worker) s := by
  induction records with
  | nil => exact fun _ _ => rfl
  | cons record records ih =>
    intro line s
    refine leads_perform () trivial ?_
    exact ih (line + 1) ((mainAnswers cfg).next s (.storeTraceTime row line record.2) ())

theorem leads_traceLoop (b : BlockId) (is : List ℕ) : ∀ s : State,
    Leads (mainAnswers cfg) T (traceLoop cfg b is)
      (fun r s' => r = .ok () ∧ s'.worker = s.worker) s := by
  induction is with
  | nil => exact fun s => ⟨rfl, rfl⟩
  | cons i is ih =>
    intro s
    refine leads_perform true trivial ?_
    refine leads_seq (leads_storeTrace i (cfg.trace i) 0 _) fun _ s₁ h₁ => ?_
    refine leads_perform () trivial ?_
    exact leads_mono (ih _) fun r s' h => ⟨h.1, h.2.trans h₁⟩

theorem leads_createLoop (is : List ℕ) : ∀ s : State, is.Nodup → (∀ i ∈ is, s.worker i = none) →
    Leads (mainAnswers cfg) T (createLoop is) (fun r s' => r = .ok () ∧
      (∀ i ∈ is, s'.worker i = some (enqueueQATWork i)) ∧ ∀ i ∉ is, s'.worker i = s.worker i) s := by
  induction is with
  | nil => exact fun s _ _ => ⟨rfl, fun i hi => absurd hi List.not_mem_nil, fun _ _ => rfl⟩
  | cons i is ih =>
    intro s hnd hnone
    obtain ⟨hi, hnd⟩ := List.nodup_cons.mp hnd
    refine leads_perform true (fun _ => hnone i List.mem_cons_self) ?_
    have hother : ∀ j, j ≠ i → spawnWorker s.worker (.pthreadCreateWorker i) true j = s.worker j :=
      fun j hj => by simp [spawnWorker, hj]
    have hnew : ∀ j ∈ is, j ≠ i := fun j hj he => hi (he ▸ hj)
    refine leads_mono (ih _ hnd fun j hj => ?_) fun r s' h => ⟨h.1, fun j hj => ?_, fun j hj => ?_⟩
    · exact (hother j (hnew j hj)).trans (hnone j (List.mem_cons_of_mem _ hj))
    · rcases List.mem_cons.mp hj with rfl | hj
      · exact (h.2.2 j hi).trans (by simp [spawnWorker])
      · exact h.2.1 j hj
    · have hji : j ≠ i := fun he => hj (he ▸ List.mem_cons_self)
      exact (h.2.2 j fun hm => hj (List.mem_cons_of_mem _ hm)).trans (hother j hji)

/-- The main thread alone comes to the reading loop, and through it to the workers. -/
theorem leads_mainThread
    (h : ∀ (b : BlockId) (s : State), s.worker = (fun _ => none) →
      Leads (mainAnswers cfg) T (traceLoop cfg b cfg.instances) (fun r s' => r = .ok () ∧
        Leads (mainAnswers cfg) T (runWorkers cfg b success) (fun _ _ => False) s') s) :
    Leads (mainAnswers cfg) T (mainThread cfg) (fun _ _ => False) (initial cfg) := by
  refine leads_perform success trivial ?_
  show Leads _ _ (if success ≠ success then _ else _) _ _
  rw [if_neg (by simp)]
  refine leads_perform success trivial ?_
  show Leads _ _ (if success ≠ success then _ else _) _ _
  rw [if_neg (by simp)]
  refine leads_seq (M := fun _ _ => False) ?_ fun _ _ hf => hf.elim
  refine leads_seq (M := fun _ _ => False) ?_ fun _ _ hf => hf.elim
  refine leads_perform success trivial ?_
  show Leads _ _ (if success ≠ success then _ else _) _ _
  rw [if_neg (by simp)]
  refine leads_seq (leads_infoLoop cfg.instances _) ?_
  rintro r s₁ ⟨rfl, hw₁⟩
  refine leads_seq (leads_readDataFile s₁) ?_
  rintro r s₂ ⟨⟨b, rfl⟩, hw₂⟩
  refine leads_seq (h b s₂ (hw₂.trans hw₁)) ?_
  rintro r s₃ ⟨rfl, hrest⟩
  exact hrest

end leads

/-- A store behind the end of a row that a file is too long for. -/
def StoresBehind (row : ℕ) (c : Call) : Prop :=
  ∃ interval, c = .storeTraceTime row numLinesPerFile interval

theorem leads_storeTrace_long {T : State → Call → Prop} {Q : Unit → State → Prop} {row : ℕ}
    (hT : ∀ s c, StoresBehind row c → T s c) (records : List (Int × Int)) :
    ∀ (line : ℕ) (s : State), line ≤ numLinesPerFile → numLinesPerFile < line + records.length →
      Leads (mainAnswers cfg) T (storeTrace row records line) Q s := by
  induction records with
  | nil =>
    intro line s hle hlt
    exact absurd hlt (Nat.not_lt.mpr hle)
  | cons record records ih =>
    intro line s hle hlt
    by_cases hline : line = numLinesPerFile
    · subst hline
      exact .inl (hT s _ ⟨record.2, rfl⟩)
    · have hlt' : numLinesPerFile < line + 1 + records.length := by
        rw [List.length_cons] at hlt
        omega
      exact leads_perform () trivial (ih (line + 1) _ (by omega) hlt')

theorem leads_traceLoop_long {T : State → Call → Prop} {Q : Except CpaStatus Unit → State → Prop}
    {row : ℕ} (hT : ∀ s c, StoresBehind row c → T s c)
    (hlong : numLinesPerFile < (cfg.trace row).length) (b : BlockId) (is : List ℕ) :
    ∀ s : State, row ∈ is → Leads (mainAnswers cfg) T (traceLoop cfg b is) Q s := by
  induction is with
  | nil => exact fun s hrow => absurd hrow List.not_mem_nil
  | cons i is ih =>
    intro s hrow
    refine leads_perform true trivial ?_
    by_cases hi : row = i
    · subst hi
      have hstore : numLinesPerFile < 0 + (cfg.trace row).length := by omega
      refine leads_seq (M := fun _ _ => False) ?_ fun _ _ hf => hf.elim
      exact leads_storeTrace_long hT (cfg.trace row) 0 _ (Nat.zero_le _) hstore
    · refine leads_seq (leads_storeTrace i (cfg.trace i) 0 _) fun _ s₁ _ => ?_
      exact leads_perform () trivial (ih _ ((List.mem_cons.mp hrow).resolve_left hi))

theorem reached_store_behind {row : ℕ} (hrow : row ∈ cfg.instances)
    (hlong : numLinesPerFile < (cfg.trace row).length) :
    ∃ s interval k, Reach (Step cfg) (initial cfg) s ∧
      s.main = some (.call (.storeTraceTime row numLinesPerFile interval) k) := by
  obtain ⟨s, c, k, ⟨interval, rfl⟩, hr⟩ := reach_of_leads (mainThread cfg) (initial cfg)
    (leads_mainThread (T := fun _ c => StoresBehind row c) fun b s _ =>
      leads_traceLoop_long (fun _ _ h => h) hlong b cfg.instances s hrow)
  exact ⟨_, interval, k, hr, rfl⟩

theorem reached_worker {i : ℕ} (hi : i ∈ cfg.instances) :
    ∃ s, Reach (Step cfg) (initial cfg) s ∧ s.worker i = some (enqueueQATWork i) := by
  have hleads : Leads (mainAnswers cfg) (fun s _ => s.worker i = some (enqueueQATWork i))
      (mainThread cfg) (fun _ _ => False) (initial cfg) := by
    refine leads_mainThread fun b s hs => ?_
    refine leads_mono (leads_traceLoop b cfg.instances s) fun r s₁ h₁ => ⟨h₁.1, ?_⟩
    have hnone : ∀ j ∈ cfg.instances, s₁.worker j = none := fun j _ => by rw [h₁.2, hs]
    refine leads_seq (leads_createLoop cfg.instances s₁ List.nodup_range hnone) ?_
    rintro r s₂ ⟨rfl, hw, -⟩
    cases hn : cfg.instances with
    | nil => exact .inl (hw i hi)
    | cons j is => exact .inl (hw i hi)
  obtain ⟨s, c, k, hw, hr⟩ := reach_of_leads (mainThread cfg) (initial cfg) hleads
  exact ⟨_, hr, hw⟩

/-- The reading loop keeps to its rows, fills them and leaves no entry unset that a
worker reads, in every run, exactly if every trace file starts with at least two and
at most `NUM_LINES_PER_FILE` records. -/
theorem trace_read_iff (cfg : Cfg) :
    (∀ s, Reach (Step cfg) (initial cfg) s → TraceRead cfg s) ↔
      ∀ i ∈ cfg.instances, 2 ≤ (cfg.trace i).length ∧ (cfg.trace i).length ≤ numLinesPerFile := by
  constructor
  · intro h i hi
    constructor
    -- the worker reads entry 1
    · obtain ⟨s, hr, hw⟩ := reached_worker hi
      exact ((h s hr).read i i 1 _ hw).2.1
    -- the first record too many is stored in entry `numLinesPerFile`
    · by_contra hlong
      obtain ⟨s, interval, k, hr, hm⟩ := reached_store_behind hi (Nat.not_le.mp hlong)
      exact absurd ((h s hr).inBounds i numLinesPerFile interval k hm) (Nat.lt_irrefl _)
  · intro hlen s hr
    exact traceRead_reached hlen hr

/-- One instance; its trace file has one record more than a row has entries. -/
def longTrace : Cfg :=
  { oneUnpolled with trace := fun _ => List.replicate (numLinesPerFile + 1) (1, 1) }

theorem store_behind_row :
    ∃ s, Reach (Step longTrace) (initial longTrace) s ∧ ¬ TraceRead longTrace s := by
  have hzero : 0 ∈ longTrace.instances := Cfg.mem_instances.mpr longTrace.pos
  have hlong : numLinesPerFile < (longTrace.trace 0).length := by
    simp only [longTrace, List.length_replicate, Nat.lt_succ_self]
  obtain ⟨s, interval, k, hr, hm⟩ := reached_store_behind hzero hlong
  refine ⟨s, hr, fun h => ?_⟩
  exact absurd (h.inBounds 0 numLinesPerFile interval k hm) (Nat.lt_irrefl _)

end QatDcSample
