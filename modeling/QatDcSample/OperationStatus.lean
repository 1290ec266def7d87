import QatDcSample.RequestMemory

/-!
# What `compPerformOp` reports

The outcomes of the calls of one run of `compPerformOp`, and its result in terms
of them. The code looks at the destination bound, at the allocations, at the last
submission, at the waits and at the results structure after the waits; it does
not look at the metadata size, and of the three results it sees the one written
last.
-/

namespace QatDcSample
open EventProgram Prog CpaStatus Transition

structure OpCalls where
  metaSize : Option CpaStatus
  bound : Option CpaStatus
  allocs : List Bool
  submission : Completion → Option CpaStatus
  wait : Completion → Option Bool
  read : Option CpaDcReqStatus

namespace OpCalls

def start : OpCalls := ⟨none, none, [], fun _ => none, fun _ => none, none⟩

def next (o : OpCalls) : (c : Call) → c.Resp → OpCalls
  | .apiSize .cpaDcBufferListGetMetaSize _, r => { o with metaSize := some r.1 }
  | .apiSize .cpaDcDeflateCompressBound _, r => { o with bound := some r.1 }
  | .memAlloc _ _, r => { o with allocs := r.isSome :: o.allocs }
  | .cpaDcCompressData2 _ _ _ _ _ k, (st : CpaStatus) =>
      { o with submission := Function.update o.submission k (some st) }
  | .completionWait k, ok => { o with wait := Function.update o.wait k (some ok) }
  | .readResultsStatus, st => { o with read := some st }
  | _, _ => o

/-- Each submission and each wait is made once, and the results are read when all
waits succeeded. -/
def Guar (o : OpCalls) : Call → Prop
  | .cpaDcCompressData2 _ _ _ _ _ k => o.submission k = none ∧ o.read = none
  | .completionWait k => o.wait k = none
  | .readResultsStatus => ∀ k, o.wait k = some true
  | _ => True

def Awaited (o : OpCalls) : Prop :=
  o.bound = some success ∧ o.allocs = List.replicate 6 true ∧
    o.submission .complete3 = some success ∧ ∀ k, o.wait k = some true

end OpCalls

@[reducible] def statusProtocol : Protocol Call Call.Resp where
  σ := OpCalls
  next := OpCalls.next
  rely := fun _ _ _ => True
  guar := OpCalls.Guar

/-! ### The code -/

def AllocRun (o : OpCalls) (n : ℕ) (status : CpaStatus) (o' : OpCalls) : Prop :=
  (∃ l, o' = { o with allocs := l }) ∧
    if status = success then o'.allocs = List.replicate n true else false ∈ o'.allocs

theorem allocRun_memAlloc {o : OpCalls} (a : Allocator) (m n : ℕ) {o' : OpCalls}
    (h : AllocRun o n success o') :
    Meets statusProtocol (memAlloc a m) (fun r o'' => AllocRun o (n + 1) r.1 o'') o' := by
  obtain ⟨⟨l, rfl⟩, hl⟩ := h
  rw [if_pos rfl] at hl
  refine meets_call trivial fun r _ => ?_
  cases r with
  | none => exact ⟨⟨_, rfl⟩, by simp [OpCalls.next]⟩
  | some b => exact ⟨⟨_, rfl⟩, by simpa [OpCalls.next, List.replicate_succ] using hl⟩

theorem allocRun_whenOkSet {o : OpCalls} (a : Allocator) (m n : ℕ) {status : CpaStatus}
    {o' : OpCalls} (h : AllocRun o n status o') :
    Meets statusProtocol (whenOkSet status none (memAlloc a m))
      (fun r o'' => AllocRun o (n + 1) r.1 o'') o' := by
  by_cases hst : status = success
  · subst hst
    exact allocRun_memAlloc a m n h
  · rw [whenOkSet_ne hst]
    refine ⟨h.1, ?_⟩
    have hf := h.2
    rw [if_neg hst] at hf
    rw [if_neg hst]
    exact hf

theorem meets_allocs {o : OpCalls} (ho : o.allocs = []) (n m : ℕ) :
    Meets statusProtocol (allocOpBuffers n m) (fun r o' => AllocRun o 6 r.1 o') o := by
  have h₀ : AllocRun o 0 success o := ⟨⟨o.allocs, rfl⟩, by rw [if_pos rfl, ho]; rfl⟩
  refine meets_seq (allocRun_memAlloc .contig n 0 h₀) fun r₁ o₁ h₁ => ?_
  refine meets_seq (allocRun_whenOkSet .os bufferListMemSize 1 h₁) fun r₂ o₂ h₂ => ?_
  refine meets_seq (allocRun_whenOkSet .contig sampleMaxBuff 2 h₂) fun r₃ o₃ h₃ => ?_
  refine meets_seq (allocRun_whenOkSet .contig n 3 h₃) fun r₄ o₄ h₄ => ?_
  refine meets_seq (allocRun_whenOkSet .os bufferListMemSize 4 h₄) fun r₅ o₅ h₅ => ?_
  exact meets_seq (allocRun_whenOkSet .contig m 5 h₅) fun r₆ o₆ h₆ => h₆

/-- After waiting for `done` the status tells whether all these waits succeeded. -/
def WaitRun (o : OpCalls) (done : List Completion) (status : CpaStatus) (o' : OpCalls) : Prop :=
  (∃ w, o' = { o with wait := w }) ∧
    if status = success then ∀ k, o'.wait k = if k ∈ done then some true else none
    else ∃ k, o'.wait k = some false

theorem waitRun_whenOk {o : OpCalls} {done : List Completion} {status : CpaStatus} {o' : OpCalls}
    (k : Completion) (hk : k ∉ done) (h : WaitRun o done status o') :
    Meets statusProtocol (whenOk status (waitFor k))
      (fun st o'' => WaitRun o (k :: done) st o'') o' := by
  by_cases hst : status = success
  · subst hst
    obtain ⟨⟨w, rfl⟩, hw⟩ := h
    rw [if_pos rfl] at hw
    rw [whenOk_success]
    refine meets_call (?_) fun ok _ => ?_
    · exact (hw k).trans (if_neg hk)
    · cases ok with
      | false => exact ⟨⟨_, rfl⟩, by rw [if_neg fail_ne_success]; exact ⟨k, by simp [OpCalls.next]⟩⟩
      | true =>
        refine ⟨⟨_, rfl⟩, ?_⟩
        rw [if_pos rfl]
        intro k'
        by_cases hkk : k' = k
        · subst hkk
          simp [OpCalls.next]
        · simpa [OpCalls.next, hkk] using hw k'
  · rw [whenOk_ne hst]
    refine ⟨h.1, ?_⟩
    have hf := h.2
    rw [if_neg hst] at hf ⊢
    exact hf

theorem waitRun_waitAll {o : OpCalls} (hw : ∀ k, o.wait k = none) :
    Meets statusProtocol (waitAll success)
      (fun st o' => WaitRun o [.complete3, .complete2, .complete1] st o') o := by
  have h₀ : WaitRun o [] success o := ⟨⟨o.wait, rfl⟩, by rw [if_pos rfl]; simpa using hw⟩
  refine meets_seq (waitRun_whenOk .complete1 (by decide) h₀) fun st₁ o₁ h₁ => ?_
  refine meets_seq (waitRun_whenOk .complete2 (by decide) h₁) fun st₂ o₂ h₂ => ?_
  exact waitRun_whenOk .complete3 (by decide) h₂

structure Performed (o : OpCalls) (status : CpaStatus) (o' : OpCalls) : Prop where
  metaSize : o'.metaSize = o.metaSize
  bound : o'.bound = o.bound
  allocs : o'.allocs = o.allocs
  status : status = success ↔ o'.submission .complete3 = some success ∧
    (∀ k, o'.wait k = some true) ∧ o'.read = some .ok
  read : o'.submission .complete3 = some success → (∀ k, o'.wait k = some true) → o'.read ≠ none

theorem meets_performOp (inst : ℕ) (session : Ptr) (src dst : CpaBufferList) (frame : BlockId)
    {o : OpCalls} (hs : ∀ k, o.submission k = none) (hw : ∀ k, o.wait k = none)
    (hr : o.read = none) :
    Meets statusProtocol (performOp inst session src dst frame) (Performed o) o := by
  refine meets_call trivial fun _ _ => ?_
  refine meets_seq (M := fun s₃ o' => ∃ sub, o' = { o with submission := sub } ∧
    sub .complete3 = some s₃) ?_ ?_
  · refine meets_call trivial fun _ _ => ?_
    refine meets_call trivial fun _ _ => ?_
    refine meets_call trivial fun _ _ => ?_
    refine meets_call ⟨hs _, hr⟩ fun s₁ _ => ?_
    refine meets_call ⟨by simp [OpCalls.next, hs], hr⟩ fun s₂ _ => ?_
    refine ⟨⟨by simp [OpCalls.next, hs], hr⟩, fun s₃ _ => ⟨_, rfl, by simp [OpCalls.next]⟩⟩
  rintro s₃ o' ⟨sub, rfl, hsub⟩
  by_cases h₃ : s₃ = success
  · subst h₃
    refine meets_seq (waitRun_waitAll (o := { o with submission := sub }) hw) ?_
    rintro st o' ⟨⟨w, rfl⟩, hwait⟩
    by_cases hst : st = success
    · subst hst
      have hall : ∀ k, w k = some true := by
        rw [if_pos rfl] at hwait
        intro k
        have hk := hwait k
        cases k <;> exact hk
      rw [whenOk_success]
      refine meets_call hall fun res _ => ?_
      show Meets statusProtocol (if res = .ok then pure success else pure fail) _ _
      by_cases hres : res = .ok
      · subst hres
        rw [if_pos rfl]
        exact ⟨rfl, rfl, rfl, ⟨fun _ => ⟨hsub, hall, rfl⟩, fun _ => rfl⟩, fun _ _ h => by cases h⟩
      · rw [if_neg hres]
        refine ⟨rfl, rfl, rfl, ⟨fun h => absurd h fail_ne_success, ?_⟩, fun _ _ h => by cases h⟩
        rintro ⟨-, -, h⟩
        exact absurd (Option.some.inj h) hres
    · rw [if_neg hst] at hwait
      obtain ⟨k, hk⟩ := hwait
      have hnot : ¬ ∀ k, w k = some true := fun h => by simp [h k] at hk
      rw [whenOk_ne hst]
      exact ⟨rfl, rfl, rfl, ⟨fun h => absurd h hst, fun h => absurd h.2.1 hnot⟩,
        fun _ h => absurd h hnot⟩
  · have hnot : sub .complete3 ≠ some success := fun h => h₃ (Option.some.inj (hsub.symm.trans h))
    rw [waitAll_ne h₃, ret_bind, whenOk_ne h₃]
    exact ⟨rfl, rfl, rfl, ⟨fun h => absurd h h₃, fun h => absurd h.1 hnot⟩,
      fun h => absurd h hnot⟩

/-- Success is reported exactly if all that was awaited and the result read at the
end are good. -/
def Reports (status : CpaStatus) (o : OpCalls) : Prop :=
  (status = success ↔ o.Awaited ∧ o.read = some .ok) ∧ (o.Awaited → o.read ≠ none)

theorem meets_freeOpBuffers (b : OpBuffers) (o : OpCalls) :
    Meets statusProtocol (freeOpBuffers b) (fun _ o' => o' = o) o := by
  have hfree : ∀ (a : Allocator) (p : Ptr), Only (Neutral statusProtocol) (memFree a p) :=
    fun a p => only_memFree fun b o => ⟨trivial, fun _ => rfl⟩
  refine meets_neutral (P := statusProtocol) ?_ o
  exact only_bind (hfree _ _) fun _ => only_bind (hfree _ _) fun _ => only_bind (hfree _ _)
    fun _ => only_bind (hfree _ _) fun _ => only_bind (hfree _ _) fun _ => hfree _ _

theorem meets_compPerformOp_reports (inst : ℕ) (session : Ptr) :
    Meets statusProtocol (compPerformOp inst session) Reports OpCalls.start := by
  refine meets_call trivial fun frame _ => ?_
  obtain ⟨frame, base⟩ := frame
  refine meets_call trivial fun r _ => ?_
  obtain ⟨st₀, n⟩ := r
  refine meets_call trivial fun r _ => ?_
  obtain ⟨st, m⟩ := r
  show Meets statusProtocol (if st ≠ success then _ else _) Reports
    ⟨some st₀, some st, [], fun _ => none, fun _ => none, none⟩
  split
  · next hst =>
    have hnot : ∀ o : OpCalls, o.bound = some st → ¬ o.Awaited := fun o ho h =>
      hst (Option.some.inj (ho.symm.trans h.1))
    refine meets_call trivial fun _ _ => ⟨?_, fun h => absurd h (hnot _ rfl)⟩
    exact ⟨fun h => absurd h fail_ne_success, fun h => absurd h.1 (hnot _ rfl)⟩
  next hst =>
  rw [not_not] at hst
  subst hst
  refine meets_seq (meets_allocs rfl n m) ?_
  rintro ⟨st, b⟩ o' ⟨⟨l, rfl⟩, hl⟩
  dsimp only at hl ⊢
  refine meets_seq (M := Reports) ?_ fun st o h => ?_
  · by_cases hst : st = success
    · subst hst
      rw [if_pos rfl] at hl
      rw [whenOk_success]
      refine meets_mono (meets_performOp inst session _ _ frame (fun _ => rfl) (fun _ => rfl)
        rfl) fun st o h => ?_
      have hb : o.bound = some success := h.bound
      have ha : o.allocs = List.replicate 6 true := h.allocs.trans hl
      exact ⟨h.status.trans ⟨fun ⟨h₃, hw, hr⟩ => ⟨⟨hb, ha, h₃, hw⟩, hr⟩,
        fun ⟨⟨_, _, h₃, hw⟩, hr⟩ => ⟨h₃, hw, hr⟩⟩, fun hA => h.read hA.2.2.1 hA.2.2.2⟩
    · rw [if_neg hst] at hl
      rw [whenOk_ne hst]
      have hnot : ∀ o : OpCalls, o.allocs = l → ¬ o.Awaited := by
        intro o ho hA
        have hmem : false ∈ List.replicate 6 true := by rw [← hA.2.1, ho]; exact hl
        simp at hmem
      exact ⟨⟨fun h => absurd h hst, fun h => absurd h.1 (hnot _ rfl)⟩,
        fun h => absurd h (hnot _ rfl)⟩
  refine meets_seq (meets_freeOpBuffers b o) ?_
  rintro - o' rfl
  refine meets_call trivial fun _ _ => ?_
  refine meets_call trivial fun _ _ => ?_
  refine meets_call trivial fun _ _ => ?_
  exact meets_call trivial fun _ _ => h

/-! ### The callbacks -/

def opCalls (l : List Entry) : OpCalls := ghost statusProtocol OpCalls.start (.worker 0) l

/-- The result the request for `k` finished with. -/
def resultOf : List Entry → Completion → Option CpaDcReqStatus
  | [], _ => none
  | .call _ _ _ :: l, k => resultOf l k
  | .callback q st :: l, k => if q.tag = k then some st else resultOf l k

def lastResult : List Entry → Option CpaDcReqStatus
  | [] => none
  | .call _ _ _ :: l => lastResult l
  | .callback _ st :: _ => some st

theorem lastResult_of_resultOf {l : List Entry} {k : Completion} (h : resultOf l k ≠ none) :
    lastResult l ≠ none := by
  induction l with
  | nil => exact h
  | cons e l ih =>
    cases e with
    | call t c r => exact ih h
    | callback q st => exact fun hn => by cases hn

def OpCalls.consumed (o : OpCalls) (k : Completion) : ℕ := if o.wait k = some true then 1 else 0

theorem OpCalls.consumed_one {o : OpCalls} {k : Completion} (h : o.wait k = some true) :
    o.consumed k = 1 := if_pos h

theorem OpCalls.consumed_zero {o : OpCalls} {k : Completion} (h : o.wait k ≠ some true) :
    o.consumed k = 0 := if_neg h

/-- What waits succeed for was accepted and called back; once the results
structure is read nothing is in flight any more. -/
structure CalledBack (reqs : List Request) (sem : Completion → ℕ)
    (dcResults : Option CpaDcReqStatus) (o : OpCalls) (results : Completion → Option CpaDcReqStatus)
    (final : Option CpaDcReqStatus) : Prop where
  inflight : ∀ q ∈ reqs, o.submission q.tag = some success
  posted : ∀ k, 0 < sem k → o.submission k = some success ∧ results k ≠ none
  waited : ∀ k, o.wait k = some true → o.submission k = some success ∧ results k ≠ none
  once : ∀ k, pending reqs 0 k + sem k + o.consumed k ≤ 1
  last : dcResults = final
  written : ∀ k, results k ≠ none → final ≠ none
  read : ∀ x, o.read = some x → final = some x ∧ reqs = []

theorem nil_of_pending {l : List Request} (hone : ∀ q ∈ l, q.worker = 0)
    (h : ∀ k, pending l 0 k = 0) : l = [] := by
  cases l with
  | nil => rfl
  | cons q l =>
    have hq := pending_pos (List.mem_cons_self (a := q) (l := l))
    rw [hone q List.mem_cons_self, h q.tag] at hq
    omega

theorem OpCalls.consumed_next_other {o : OpCalls} {k k' : Completion} {ok : Bool} (h : k' ≠ k) :
    (o.next (.completionWait k) ok).consumed k' = o.consumed k' := by
  simp [OpCalls.consumed, OpCalls.next, h]

section Own

variable {s : State} {o : OpCalls} {results : Completion → Option CpaDcReqStatus}
  {final : Option CpaDcReqStatus}

def CalledBackAt (s : State) (o : OpCalls) (results : Completion → Option CpaDcReqStatus)
    (final : Option CpaDcReqStatus) : Prop :=
  CalledBack s.world.inflight (s.world.sem 0) (s.world.dcResults 0) o results final

theorem calledBack_completionInit (h : CalledBackAt s o results final) (k : Completion) :
    CalledBack s.world.inflight (setSem s.world.sem 0 k 0 0) (s.world.dcResults 0) o results
      final := by
  refine ⟨h.inflight, fun k' hk' => ?_, h.waited, fun k' => ?_, h.last, h.written, h.read⟩
  · by_cases hk : k' = k
    · subst hk
      simp [setSem_same] at hk'
    · refine h.posted k' ?_
      rwa [setSem_other (.inr hk)] at hk'
  · have hold := h.once k'
    by_cases hk : k' = k
    · subst hk
      rw [setSem_same]
      omega
    · rw [setSem_other (.inr hk)]
      exact hold

theorem calledBack_waitFailed (h : CalledBackAt s o results final) {k : Completion}
    (hg : o.wait k = none) :
    CalledBack s.world.inflight (s.world.sem 0) (s.world.dcResults 0)
      (o.next (.completionWait k) false) results final := by
  refine ⟨h.inflight, h.posted, fun k' hk' => h.waited k' ?_, fun k' => ?_, h.last, h.written,
    h.read⟩
  · by_cases hk : k' = k
    · subst hk
      simp [OpCalls.next] at hk'
    · simpa [OpCalls.next, hk] using hk'
  · have hold := h.once k'
    by_cases hk : k' = k
    · subst hk
      have hc : (o.next (.completionWait k') false).consumed k' = 0 :=
        OpCalls.consumed_zero (by simp [OpCalls.next])
      omega
    · rw [OpCalls.consumed_next_other hk]
      exact hold

theorem calledBack_waited (h : CalledBackAt s o results final) {k : Completion}
    (hpos : 0 < s.world.sem 0 k) :
    CalledBack s.world.inflight (setSem s.world.sem 0 k (s.world.sem 0 k - 1) 0)
      (s.world.dcResults 0) (o.next (.completionWait k) true) results final := by
  refine ⟨h.inflight, fun k' hk' => h.posted k' ?_, fun k' hk' => ?_, fun k' => ?_, h.last,
    h.written, h.read⟩
  · by_cases hk : k' = k
    · subst hk
      exact hpos
    · rwa [setSem_other (.inr hk)] at hk'
  · by_cases hk : k' = k
    · subst hk
      exact h.posted k' hpos
    · exact h.waited k' (by simpa [OpCalls.next, hk] using hk')
  · have hold := h.once k'
    by_cases hk : k' = k
    · subst hk
      have hc : (o.next (.completionWait k') true).consumed k' = 1 :=
        OpCalls.consumed_one (by simp [OpCalls.next])
      rw [hc, setSem_same]
      omega
    · rw [OpCalls.consumed_next_other hk, setSem_other (.inr hk)]
      exact hold

/-- After three waits every request has been called back, so the structure that is
read holds the last result. -/
theorem calledBack_read (h : CalledBackAt s o results final)
    (hone : ∀ q ∈ s.world.inflight, q.worker = 0) (hw : ∀ k, o.wait k = some true)
    {x : CpaDcReqStatus} (ha : ∀ st, s.world.dcResults 0 = some st → x = st) :
    CalledBack s.world.inflight (s.world.sem 0) (s.world.dcResults 0)
      (o.next .readResultsStatus x) results final := by
  refine ⟨h.inflight, h.posted, h.waited, h.once, h.last, h.written, fun y hy => ?_⟩
  obtain rfl : x = y := Option.some.inj hy
  constructor
  · obtain ⟨st, hst⟩ := Option.ne_none_iff_exists'.mp
      (h.written .complete1 (h.waited .complete1 (hw .complete1)).2)
    rw [ha st (h.last.trans hst), hst]
  · refine nil_of_pending hone fun k => ?_
    have hold := h.once k
    rw [OpCalls.consumed_one (hw k)] at hold
    omega

theorem unused_of_unsubmitted (h : CalledBackAt s o results final) {k : Completion}
    (hnone : o.submission k = none) :
    s.world.sem 0 k = 0 ∧ o.wait k ≠ some true ∧ pending s.world.inflight 0 k = 0 := by
  have hnot : o.submission k ≠ some success := by simp [hnone]
  refine ⟨?_, fun hw => hnot (h.waited k hw).1, ?_⟩
  · by_contra hne
    exact hnot (h.posted k (Nat.pos_of_ne_zero hne)).1
  · by_contra hne
    obtain ⟨q, hq, -, hk⟩ := exists_of_pending (Nat.pos_of_ne_zero hne)
    exact hnot (hk ▸ h.inflight q hq)

theorem calledBack_submitted (h : CalledBackAt s o results final) {k : Completion}
    (hnone : o.submission k = none) (hread : o.read = none) (inst : ℕ) (session : Ptr)
    (src dst : CpaBufferList) (frame : BlockId) (st : CpaStatus) :
    CalledBack
      (inflightAfter (.worker 0) s.world.inflight (.cpaDcCompressData2 inst session src dst frame k)
        st)
      (s.world.sem 0) (s.world.dcResults 0)
      (o.next (.cpaDcCompressData2 inst session src dst frame k) st) results final := by
  obtain ⟨hsem, hwait, hpend⟩ := unused_of_unsubmitted h hnone
  have hkeep : ∀ k', o.submission k' = some success →
      (o.next (.cpaDcCompressData2 inst session src dst frame k) st).submission k' =
        some success := by
    intro k' hk'
    have hk : k' ≠ k := by
      rintro rfl
      rw [hnone] at hk'
      cases hk'
    simpa [OpCalls.next, hk] using hk'
  refine ⟨fun q hq => ?_, fun k' hk' => ⟨hkeep k' (h.posted k' hk').1, (h.posted k' hk').2⟩,
    fun k' hk' => ⟨hkeep k' (h.waited k' hk').1, (h.waited k' hk').2⟩, fun k' => ?_, h.last,
    h.written, fun x hx => ?_⟩
  · simp only [inflightAfter] at hq
    split at hq
    · next hr =>
      rcases List.mem_cons.mp hq with rfl | hq
      · simp [OpCalls.next, hr]
      · exact hkeep _ (h.inflight q hq)
    · exact hkeep _ (h.inflight q hq)
  · have hold := h.once k'
    show pending (if st = success then _ else s.world.inflight) 0 k' + s.world.sem 0 k' +
      o.consumed k' ≤ 1
    split
    · rw [pending_cons]
      by_cases hk : k' = k
      · subst hk
        simp [hsem, OpCalls.consumed_zero hwait, hpend]
      · simpa [Ne.symm hk] using hold
    · exact hold
  · have hx' : o.read = some x := hx
    rw [hread] at hx'
    cases hx'

theorem calledBack_own {cfg : Cfg} {c : Call} {r : c.Resp} (h : CalledBackAt s o results final)
    (hone : ∀ q ∈ s.world.inflight, q.worker = 0) (hg : o.Guar c)
    (ha : Allowed cfg s (.worker 0) c r) :
    CalledBack (inflightAfter (.worker 0) s.world.inflight c r)
      (semAfter (.worker 0) s.world.sem c r 0) (s.world.dcResults 0) (o.next c r) results final := by
  cases c <;> try exact ⟨h.inflight, h.posted, h.waited, h.once, h.last, h.written, h.read⟩
  case apiSize f inst =>
    cases f <;> exact ⟨h.inflight, h.posted, h.waited, h.once, h.last, h.written, h.read⟩
  case completionInit k => exact calledBack_completionInit h k
  case completionWait k =>
    cases r with
    | false => exact calledBack_waitFailed h hg
    | true => exact calledBack_waited h (ha rfl)
  case readResultsStatus => exact calledBack_read h hone hg ha
  case cpaDcCompressData2 inst session src dst frame k =>
    exact calledBack_submitted h hg.1 hg.2 inst session src dst frame r

end Own

theorem calledBack_callback {w : World} {o : OpCalls}
    {results : Completion → Option CpaDcReqStatus} {final : Option CpaDcReqStatus}
    {q : Request} {l₁ l₂ : List Request} (st : CpaDcReqStatus)
    (h : CalledBack w.inflight (w.sem 0) (w.dcResults 0) o results final) (h0 : q.worker = 0)
    (hq : w.inflight = l₁ ++ q :: l₂) :
    CalledBack (l₁ ++ l₂) ((w.completed q st (l₁ ++ l₂)).sem 0)
      ((w.completed q st (l₁ ++ l₂)).dcResults 0) o
      (fun k => if q.tag = k then some st else results k) (some st) := by
  have hmem : q ∈ w.inflight := by rw [hq]; simp
  have hsub : ∀ q' ∈ l₁ ++ l₂, q' ∈ w.inflight := fun _ hq' => (rest_sublist hq).subset hq'
  have hres : ∀ k, results k ≠ none → (if q.tag = k then some st else results k) ≠ none := by
    intro k hk
    split
    · exact fun hn => by cases hn
    · exact hk
  refine ⟨fun q' hq' => h.inflight q' (hsub q' hq'), fun k hk => ?_,
    fun k hk => ⟨(h.waited k hk).1, hres k (h.waited k hk).2⟩, fun k => ?_, ?_,
    fun _ _ hn => (by cases hn), fun x hx => ?_⟩
  · by_cases hk' : k = q.tag
    · subst hk'
      exact ⟨h.inflight q hmem, by simp⟩
    · have hk'' : 0 < w.sem 0 k := by
        simpa [World.completed, setSem_other (.inr hk' : (0 : ℕ) ≠ q.worker ∨ _)] using hk
      exact ⟨(h.posted k hk'').1, hres k (h.posted k hk'').2⟩
  · have hold := h.once k
    rw [hq, pending_remove] at hold
    by_cases hk' : k = q.tag
    · subst hk'
      have hsem : (w.completed q st (l₁ ++ l₂)).sem 0 q.tag = w.sem 0 q.tag + 1 := by
        simp only [World.completed, ← h0, setSem_same]
      rw [hsem]
      simp only [h0, and_self, if_true] at hold
      omega
    · have hsem : (w.completed q st (l₁ ++ l₂)).sem 0 k = w.sem 0 k := setSem_other (.inr hk')
      rw [hsem]
      omega
  · simp [World.completed, h0]
  · have hnil := (h.read x hx).2
    rw [hnil] at hmem
    cases hmem

def CalledBackIn (s : State) : Prop :=
  CalledBack s.world.inflight (s.world.sem 0) (s.world.dcResults 0) (opCalls s.log)
    (resultOf s.log) (lastResult s.log)

theorem calledBackIn_solo (cfg : Cfg) (p : Code CpaStatus) : CalledBackIn (solo cfg p) :=
  ⟨fun _ hq => absurd hq List.not_mem_nil, fun _ h => absurd h (Nat.lt_irrefl 0),
    fun _ h => (by cases h), fun _ => Nat.zero_le 1, rfl, fun _ h => absurd rfl h,
    fun _ h => (by cases h)⟩

theorem calledBackIn_step {cfg : Cfg} {s s' : State} {e : Entry} {Q : CpaStatus → OpCalls → Prop}
    (hm : WorkerMeets 0 statusProtocol OpCalls.start Q s) (hone : Alone s) (h : CalledBackIn s)
    (hs : Step cfg s e s') : CalledBackIn s' := by
  cases hs with
  | @main c k r hc ha =>
    rw [hone.main] at hc
    contradiction
  | @worker j c k r hrun hj ha =>
    obtain rfl := hone.worker j _ hj
    show CalledBack (inflightAfter (.worker 0) s.world.inflight c r)
      (semAfter (.worker 0) s.world.sem c r 0) (s.world.dcResults 0)
      (opCalls (.call (.worker 0) c r :: s.log)) (resultOf s.log) (lastResult s.log)
    rw [opCalls, ghost_own]
    exact calledBack_own h hone.inflight (hm.left _ hj).1 ha
  | @poller j p c k r hrun hj hn ha =>
    show CalledBack (inflightAfter (.poller j) s.world.inflight c r)
      (semAfter (.poller j) s.world.sem c r 0) (s.world.dcResults 0)
      (opCalls (.call (.poller j) c r :: s.log)) (resultOf s.log) (lastResult s.log)
    rw [inflightAfter_poller, semAfter_poller, opCalls, ghost_other _ _ (by simp)]
    exact h
  | @callback q l₁ l₂ st hrun hq hr =>
    exact calledBack_callback st h (hone.inflight q (by rw [hq]; simp)) hq

theorem calledBackIn_reached {cfg : Cfg} {inst : ℕ} {session : Ptr} {s : State}
    (hr : Reach (Step cfg) (solo cfg (compPerformOp inst session)) s) :
    CalledBackIn s ∧ WorkerMeets 0 statusProtocol OpCalls.start Reports s := by
  have hmeet : ∀ s, Reach (Step cfg) (solo cfg (compPerformOp inst session)) s →
      WorkerMeets 0 statusProtocol OpCalls.start Reports s := fun s hr =>
    worker_meets_always (fun _ _ _ => trivial)
      (workerMeets_solo cfg 0 (meets_compPerformOp_reports inst session)) hr
  have hall : Alone s ∧ CalledBackIn s := by
    refine ReachVia.invariant (I := fun s => Alone s ∧ CalledBackIn s)
      ⟨alone_solo cfg _, calledBackIn_solo cfg _⟩ ?_ hr
    rintro s e s' hreach ⟨hone, h⟩ hst -
    exact ⟨alone_step hone hst, calledBackIn_step (hmeet s hreach) hone h hst⟩
  exact ⟨hall.2, hmeet s hr⟩

/-! ### The result -/

def AllWorkSucceeded (l : List Entry) : Prop :=
  (opCalls l).metaSize = some success ∧ (opCalls l).bound = some success ∧
    (opCalls l).allocs = List.replicate 6 true ∧
    ∀ k, (opCalls l).submission k = some success ∧ (opCalls l).wait k = some true ∧
      resultOf l k = some .ok

theorem exists_resultOf {l : List Entry} {x : CpaDcReqStatus} (h : lastResult l = some x) :
    ∃ k, resultOf l k = some x := by
  induction l with
  | nil => cases h
  | cons e l ih =>
    cases e with
    | call t c r => exact ih h
    | callback q st => exact ⟨q.tag, (if_pos rfl).trans h⟩

theorem CalledBackIn.allWorkSucceeded_iff {s : State} (h : CalledBackIn s) :
    AllWorkSucceeded s.log ↔ ((opCalls s.log).Awaited ∧ lastResult s.log = some .ok) ∧
      (opCalls s.log).metaSize = some success ∧ ∀ k, resultOf s.log k = some .ok := by
  constructor
  · rintro ⟨hm, hb, ha, hk⟩
    have hlast : lastResult s.log = some .ok := by
      obtain ⟨x, hx⟩ := Option.ne_none_iff_exists'.mp
        (lastResult_of_resultOf (k := .complete1) (by rw [(hk .complete1).2.2]; simp))
      obtain ⟨k, hkx⟩ := exists_resultOf hx
      rw [hx, ← hkx, (hk k).2.2]
    exact ⟨⟨⟨hb, ha, (hk .complete3).1, fun k => (hk k).2.1⟩, hlast⟩, hm, fun k => (hk k).2.2⟩
  · rintro ⟨⟨⟨hb, ha, -, hw⟩, -⟩, hm, hk⟩
    exact ⟨hm, hb, ha, fun k => ⟨(h.waited k (hw k)).1, hw k, hk k⟩⟩

/-- The status tells whether all work succeeded exactly in the runs in which
nothing the code does not look at failed alone: the metadata query, and a result
that was overwritten by a later one. -/
theorem compPerformOp_success_iff (cfg : Cfg) (inst : ℕ) (session : Ptr) (s : State)
    (st : CpaStatus) (hr : Reach (Step cfg) (solo cfg (compPerformOp inst session)) s)
    (hret : s.worker 0 = some (.ret st)) :
    (st = success ↔ AllWorkSucceeded s.log) ↔
      ((opCalls s.log).Awaited ∧ lastResult s.log = some .ok →
        (opCalls s.log).metaSize = some success ∧ ∀ k, resultOf s.log k = some .ok) := by
  obtain ⟨hcb, hmeet⟩ := calledBackIn_reached hr
  have hrep : Reports st (opCalls s.log) := hmeet.left _ hret
  have hst : st = success ↔ (opCalls s.log).Awaited ∧ lastResult s.log = some .ok := by
    rw [hrep.1]
    refine and_congr_right fun hA => ?_
    obtain ⟨x, hx⟩ := Option.ne_none_iff_exists'.mp (hrep.2 hA)
    rw [hx, (hcb.read x hx).1]
  rw [hst, hcb.allWorkSucceeded_iff]
  tauto

/-- 16 calls up to the submissions, the callbacks from the first request to the
third, and the 14 calls from the first wait on. -/
def operationMoves (st₁ st₂ st₃ : CpaDcReqStatus) : List Move :=
  List.replicate 16 (.worker 0) ++
    [.callback 2 st₁ none, .callback 1 st₂ none, .callback 0 st₃ none] ++
    List.replicate 14 (.worker 0)

set_option maxRecDepth 20000 in
theorem compPerformOp_success_iff_run :
    ∃ s : State, s.worker 0 = some (.ret success) ∧
      ((success = success ↔ AllWorkSucceeded s.log) ↔
        ((opCalls s.log).Awaited ∧ lastResult s.log = some .ok →
          (opCalls s.log).metaSize = some success ∧ ∀ k, resultOf s.log k = some .ok)) := by
  have hrun : (replay oneUnpolled (allGood oneUnpolled) (fun _ _ => true)
      (solo oneUnpolled (compPerformOp 0 none)) (operationMoves .ok .ok .ok)).any
      (fun s => returnedWith (s.worker 0) = some success) = true := by decide +kernel
  obtain ⟨s, hr, hret⟩ := exists_reached hrun
  have hw := eq_of_returnedWith (of_decide_eq_true hret)
  exact ⟨s, hw, compPerformOp_success_iff oneUnpolled 0 none s success hr.reach hw⟩

set_option maxRecDepth 20000 in
/-- The first request finishes with `CPA_DC_OVERFLOW`, the third one with
`CPA_DC_OK`, and the status is `CPA_STATUS_SUCCESS`. -/
theorem compPerformOp_success_overflow :
    ∃ s, Reach (Step oneUnpolled) (solo oneUnpolled (compPerformOp 0 none)) s ∧
      s.worker 0 = some (.ret success) ∧ ¬ (success = success ↔ AllWorkSucceeded s.log) := by
  have hrun : (replay oneUnpolled (allGood oneUnpolled) (fun _ _ => true)
      (solo oneUnpolled (compPerformOp 0 none)) (operationMoves .overflow .ok .ok)).any
      (fun s => returnedWith (s.worker 0) = some success ∧
        resultOf s.log .complete1 = some .overflow) = true := by
    decide +kernel
  obtain ⟨s, hr, hT⟩ := exists_reached hrun
  obtain ⟨hret, hres⟩ := of_decide_eq_true hT
  refine ⟨s, hr.reach, eq_of_returnedWith hret, fun hiff => ?_⟩
  have hok := ((hiff.mp rfl).2.2.2 .complete1).2.2
  rw [hres] at hok
  cases hok

end QatDcSample
