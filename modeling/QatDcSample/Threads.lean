import QatDcSample.System

/-!
# Threads and their protocols

The ghost state of a thread is computed from its own entries in the log. If the
code of a thread meets a protocol, and the run gives the thread the answers the
protocol relies on, then what is left of the code meets the protocol from the
ghost state of the log, in every state of the run.
-/

namespace QatDcSample
open EventProgram Transition

def ghost (P : Protocol Call Call.Resp) (g₀ : P.σ) (t : Tid) : List Entry → P.σ
  | [] => g₀
  | .call t' c r :: l => if t' = t then P.next (ghost P g₀ t l) c r else ghost P g₀ t l
  | .callback _ _ :: l => ghost P g₀ t l

section ghost
variable (P : Protocol Call Call.Resp) (g₀ : P.σ)

@[simp] theorem ghost_own (t : Tid) (c : Call) (r : c.Resp) (l : List Entry) :
    ghost P g₀ t (.call t c r :: l) = P.next (ghost P g₀ t l) c r := by
  simp [ghost]

theorem ghost_other {t : Tid} {t' : Tid} (h : t' ≠ t) (c : Call) (r : c.Resp) (l : List Entry) :
    ghost P g₀ t (.call t' c r :: l) = ghost P g₀ t l := by
  simp [ghost, h]

end ghost

/-- The ghost state does not depend on what is relied on and owed. -/
theorem ghost_mk {σ : Type} (next : σ → (c : Call) → c.Resp → σ)
    (rely rely' : σ → (c : Call) → c.Resp → Prop) (guar guar' : σ → Call → Prop) (g₀ : σ) (t : Tid)
    (l : List Entry) : ghost ⟨σ, next, rely, guar⟩ g₀ t l = ghost ⟨σ, next, rely', guar'⟩ g₀ t l := by
  induction l with
  | nil => rfl
  | cons e l ih =>
    cases e with
    | callback q st => exact ih
    | call t' c r =>
      by_cases h : t' = t
      · subst h
        rw [ghost_own, ghost_own, ih]
      · rw [ghost_other _ _ h, ghost_other _ _ h, ih]

theorem ghost_pair {σ τ : Type} (next₁ : σ → (c : Call) → c.Resp → σ)
    (next₂ : τ → (c : Call) → c.Resp → τ) (rely : σ × τ → (c : Call) → c.Resp → Prop)
    (rely₁ : σ → (c : Call) → c.Resp → Prop) (rely₂ : τ → (c : Call) → c.Resp → Prop)
    (guar : σ × τ → Call → Prop) (guar₁ : σ → Call → Prop) (guar₂ : τ → Call → Prop)
    (g₁ : σ) (g₂ : τ) (t : Tid) (l : List Entry) :
    ghost ⟨σ × τ, fun g c r => (next₁ g.1 c r, next₂ g.2 c r), rely, guar⟩ (g₁, g₂) t l =
      (ghost ⟨σ, next₁, rely₁, guar₁⟩ g₁ t l, ghost ⟨τ, next₂, rely₂, guar₂⟩ g₂ t l) := by
  induction l with
  | nil => rfl
  | cons e l ih =>
    cases e with
    | callback q st => exact ih
    | call t' c r =>
      by_cases h : t' = t
      · subst h
        rw [ghost_own, ghost_own, ghost_own, ih]
      · rw [ghost_other _ _ h, ghost_other _ _ h, ghost_other _ _ h, ih]

/-! ### Shapes of a step -/

section shapes
variable {cfg : Cfg} {s s' : State} {e : Entry}

theorem spawnWorker_eq (w : ℕ → Option (Code CpaStatus)) (c : Call) (r : c.Resp) :
    spawnWorker w c r = w ∨
      ∃ i, c = .pthreadCreateWorker i ∧ HEq r true ∧
        spawnWorker w c r = Function.update w i (some (enqueueQATWork i)) := by
  cases c <;> try exact .inl rfl
  case pthreadCreateWorker i =>
    cases r with
    | false => exact .inl rfl
    | true => exact .inr ⟨i, rfl, .rfl, rfl⟩

theorem spawnPoller_eq (i : ℕ) (p : ℕ → Option Poller) (c : Call) (r : c.Resp) :
    spawnPoller i p c r = p ∨
      ∃ inst, c = .pthreadCreatePoller inst ∧ (∃ left : Option ℕ, HEq r (true, left)) ∧
        spawnPoller i p c r = Function.update p i (some ⟨inst, .start⟩) := by
  cases c <;> try exact .inl rfl
  case pthreadCreatePoller inst =>
    obtain ⟨ok, left⟩ := r
    cases ok with
    | false => exact .inl rfl
    | true => exact .inr ⟨inst, rfl, ⟨left, .rfl⟩, rfl⟩

end shapes

/-! ### Workers -/

section workers
variable {P : Protocol Call Call.Resp} {g₀ : P.σ} {Q : CpaStatus → P.σ → Prop}
variable {cfg : Cfg} {s s' : State}

/-- What is left of worker `i` meets the protocol; not yet created it has left
nothing in the log, and where there is a main thread the code it starts worker `i`
with meets the protocol. -/
structure WorkerMeets (i : ℕ) (P : Protocol Call Call.Resp) (g₀ : P.σ)
    (Q : CpaStatus → P.σ → Prop) (s : State) : Prop where
  code : s.main ≠ none → Meets P (enqueueQATWork i) Q g₀
  absent : s.worker i = none → ghost P g₀ (.worker i) s.log = g₀
  left : ∀ p, s.worker i = some p → Meets P p Q (ghost P g₀ (.worker i) s.log)

theorem WorkerMeets.frame {i : ℕ} (h : WorkerMeets i P g₀ Q s) (hm : s'.main ≠ none → s.main ≠ none)
    (hw : s'.worker i = s.worker i)
    (hl : ghost P g₀ (.worker i) s'.log = ghost P g₀ (.worker i) s.log) :
    WorkerMeets i P g₀ Q s' := by
  refine ⟨fun h' => h.code (hm h'), ?_, ?_⟩
  · rw [hw, hl]
    exact h.absent
  · rw [hw, hl]
    exact h.left

theorem WorkerMeets.mainStep {i : ℕ} (h : WorkerMeets i P g₀ Q s) {c : Call} {r : c.Resp}
    {k : c.Resp → Code CpaStatus} (hm : s.main = some (.call c k))
    (ha : Allowed cfg s .main c r) : WorkerMeets i P g₀ Q (s.mainStep cfg c r (k r)) := by
  have hl := ghost_other P g₀ (show Tid.main ≠ .worker i by simp) c r s.log
  have hmain : s.main ≠ none := by simp [hm]
  rcases spawnWorker_eq s.worker c r with hw | ⟨j, rfl, hr, hw⟩
  · exact h.frame (fun _ => hmain) (congrFun hw i) hl
  · by_cases hij : i = j
    · subst hij
      have hnone : s.worker i = none := ha (eq_of_heq hr)
      have hsome : (s.mainStep cfg _ r (k r)).worker i = some (enqueueQATWork i) := by
        simp only [State.mainStep, hw, Function.update_self]
      refine ⟨fun _ => h.code hmain, fun hn => ?_, fun p hp => ?_⟩
      · rw [hsome] at hn
        contradiction
      · rw [hsome] at hp
        cases hp
        show Meets P _ Q (ghost P g₀ (.worker i) (.call .main _ r :: s.log))
        rw [hl, h.absent hnone]
        exact h.code hmain
    · have hother : (s.mainStep cfg _ r (k r)).worker i = s.worker i := by
        simp only [State.mainStep, hw, Function.update_of_ne hij]
      exact h.frame (fun _ => hmain) hother hl

theorem WorkerMeets.workerStep (cfg : Cfg) {i : ℕ} (h : WorkerMeets i P g₀ Q s) {j : ℕ} {c : Call}
    {r : c.Resp} {k : c.Resp → Code CpaStatus} (hj : s.worker j = some (.call c k))
    (hrely : j = i → P.rely (ghost P g₀ (.worker i) s.log) c r) :
    WorkerMeets i P g₀ Q (s.workerStep cfg j c r (k r)) := by
  by_cases hij : i = j
  · subst hij
    have hsome : (s.workerStep cfg i c r (k r)).worker i = some (k r) := by
      simp only [State.workerStep, Function.update_self]
    refine ⟨h.code, fun hn => ?_, fun p hp => ?_⟩
    · rw [hsome] at hn
      contradiction
    · rw [hsome] at hp
      cases hp
      show Meets P (k r) Q (ghost P g₀ (.worker i) (.call (.worker i) c r :: s.log))
      rw [ghost_own]
      exact meets_answer (h.left _ hj) r (hrely rfl)
  · have hne : Tid.worker j ≠ Tid.worker i := by
      intro he
      exact hij (Tid.worker.inj he).symm
    have hother : (s.workerStep cfg j c r (k r)).worker i = s.worker i := by
      simp only [State.workerStep, Function.update_of_ne hij]
    exact h.frame id hother (ghost_other P g₀ hne c r s.log)

theorem WorkerMeets.step {i : ℕ} {e : Entry} (h : WorkerMeets i P g₀ Q s) (hs : Step cfg s e s')
    (hrely : ∀ c r, e = .call (.worker i) c r → P.rely (ghost P g₀ (.worker i) s.log) c r) :
    WorkerMeets i P g₀ Q s' := by
  cases hs with
  | main hm ha => exact h.mainStep hm ha
  | @worker j c k r hrun hj ha =>
    exact h.workerStep cfg hj fun hji => hrely c r (by rw [hji])
  | @poller j p c k r hrun hj hn ha =>
    exact h.frame id rfl (ghost_other P g₀ (show Tid.poller j ≠ .worker i by simp) c r s.log)
  | callback hrun hq hr => exact ⟨h.code, h.absent, h.left⟩

/-- The protocol of worker `i` along a run whose steps give what it relies on. -/
theorem worker_meets {i : ℕ} {ok : State → Entry → Prop} {s₀ : State}
    (h₀ : WorkerMeets i P g₀ Q s₀)
    (hrely : ∀ s e s', ReachVia (Step cfg) ok s₀ s → Step cfg s e s' → ok s e →
      ∀ c r, e = .call (.worker i) c r → P.rely (ghost P g₀ (.worker i) s.log) c r)
    (hr : ReachVia (Step cfg) ok s₀ s) : WorkerMeets i P g₀ Q s :=
  hr.invariant h₀ fun s e s' hs h hst ho => h.step hst (hrely s e s' hs hst ho)

theorem worker_meets_always {i : ℕ} {ok : State → Entry → Prop} {s₀ : State}
    (hP : ∀ g c r, P.rely g c r) (h₀ : WorkerMeets i P g₀ Q s₀)
    (hr : ReachVia (Step cfg) ok s₀ s) : WorkerMeets i P g₀ Q s :=
  worker_meets h₀ (fun _ _ _ _ _ _ _ _ _ => hP _ _ _) hr

theorem workerMeets_initial (cfg : Cfg) {i : ℕ} (hcode : Meets P (enqueueQATWork i) Q g₀) :
    WorkerMeets i P g₀ Q (initial cfg) :=
  ⟨fun _ => hcode, fun _ => rfl, fun _ h => by contradiction⟩

theorem workerMeets_solo (cfg : Cfg) (i : ℕ) {p : Code CpaStatus} (hp : Meets P p Q g₀) :
    WorkerMeets i P g₀ Q (solo cfg p) := by
  refine ⟨fun h => absurd rfl h, fun _ => rfl, fun p' h => ?_⟩
  by_cases hi : i = 0
  · subst hi
    have hpp : p = p' := by simpa [solo] using h
    subst hpp
    exact hp
  · simp [solo, hi] at h

end workers

/-! ### The main thread -/

section main
variable {P : Protocol Call Call.Resp} {g₀ : P.σ} {Q : CpaStatus → P.σ → Prop}

def MainMeets (P : Protocol Call Call.Resp) (g₀ : P.σ) (Q : CpaStatus → P.σ → Prop)
    (s : State) : Prop :=
  ∀ p ∈ s.main, Meets P p Q (ghost P g₀ .main s.log)

theorem mainMeets_step {cfg : Cfg} {s s' : State} {e : Entry} (h : MainMeets P g₀ Q s)
    (hs : Step cfg s e s')
    (hrely : ∀ c r, e = .call .main c r → P.rely (ghost P g₀ .main s.log) c r) :
    MainMeets P g₀ Q s' := by
  cases hs with
  | @main c k r hm ha =>
    intro p hp
    cases hp
    show Meets P (k r) Q (ghost P g₀ .main (.call .main c r :: s.log))
    rw [ghost_own]
    exact meets_answer (h _ hm) r (hrely c r rfl)
  | @worker j c k r hrun hj ha =>
    intro p hp
    show Meets P p Q (ghost P g₀ .main (.call (.worker j) c r :: s.log))
    rw [ghost_other P g₀ (by simp)]
    exact h p hp
  | @poller j p c k r hrun hj hn ha =>
    intro p hp
    show Meets P p Q (ghost P g₀ .main (.call (.poller j) c r :: s.log))
    rw [ghost_other P g₀ (by simp)]
    exact h p hp
  | callback hrun hq hr => exact h

theorem main_meets {cfg : Cfg} {ok : State → Entry → Prop} {s₀ s : State}
    (h₀ : MainMeets P g₀ Q s₀)
    (hrely : ∀ s e s', ReachVia (Step cfg) ok s₀ s → Step cfg s e s' → ok s e →
      ∀ c r, e = .call .main c r → P.rely (ghost P g₀ .main s.log) c r)
    (hr : ReachVia (Step cfg) ok s₀ s) : MainMeets P g₀ Q s :=
  hr.invariant h₀ fun s e s' hs h hst ho => mainMeets_step h hst (hrely s e s' hs hst ho)

theorem mainMeets_initial {cfg : Cfg} (h : Meets P (mainThread cfg) Q g₀) :
    MainMeets P g₀ Q (initial cfg) := by
  intro p hp
  cases hp
  exact h

/-- The state without the main thread, advanced by the answers that thread can get. -/
@[reducible] def mainAnswers (cfg : Cfg) : Protocol Call Call.Resp where
  σ := State
  next := fun s c r =>
    { s with
      world := s.world.after cfg .main c r
      worker := spawnWorker s.worker c r
      log := .call .main c r :: s.log }
  rely := fun s c r => Allowed cfg s .main c r
  guar := fun _ _ => True

/-- Alone, the main thread comes where its code can be led. -/
theorem reach_of_leads {cfg : Cfg} {T : State → Call → Prop} (p : Code CpaStatus) : ∀ s : State,
    Leads (mainAnswers cfg) T p (fun _ _ => False) s →
    ∃ (s' : State) (c : Call) (k : c.Resp → Code CpaStatus), T s' c ∧
      Reach (Step cfg) { s with main := some p } { s' with main := some (.call c k) } := by
  induction p with
  | ret st => exact fun s h => h.elim
  | call c k ih =>
    intro s h
    rcases h with hT | ⟨r, ha, h⟩
    · exact ⟨s, c, k, hT, .refl⟩
    · obtain ⟨s', c', k', hT, hs'⟩ := ih r _ h
      have hstep : Step cfg { s with main := some (.call c k) } (.call .main c r) _ := .main rfl ha
      exact ⟨s', c', k', hT, (ReachVia.tail .refl hstep trivial).trans hs'⟩

end main

end QatDcSample
