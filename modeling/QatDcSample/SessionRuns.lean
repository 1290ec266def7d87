import QatDcSample.Session
import Mathlib.Data.Int.Order.Basic
import Mathlib.Tactic.Tauto

/-!
# What the counters of a session say

A stateful session never has two requests in flight, whatever the interleaving of its calls
and callbacks, as long as no reset overlaps them. A session is removed or reset exactly when
its counter is zero, which is the number of requests in flight only as long as no call
failed before its request was sent.
-/

namespace QatDcSample
namespace Session

open Tally

/-- In between the test and set of the lock and its release. -/
def Phase.holds : Phase → ℕ
  | .locked | .refuse | .clear | .zeroLength | .counted => 1
  | _ => 0

/-- In between the increment and the decrement of a stateful session. -/
def Phase.counts : Phase → ℕ
  | .counted | .prepare | .create | .send | .undo _ | .response | .uncount => 1
  | _ => 0

/-- Before the decrement of a stateless session. -/
def Phase.owes : Phase → ℕ
  | .send | .undo _ | .response => 1
  | _ => 0

/-- In a call or a callback. -/
def Phase.works : Phase → ℕ
  | .idle | .readStateless _ | .readStateful _ _ | .storeStateless | .storeStateful | .unlock => 0
  | _ => 1

/-- Where a thread can be that uses a stateless session. -/
def Phase.Stateless : Phase → Prop
  | .lock | .locked | .refuse | .clear | .zeroLength | .counted | .uncount | .unlock => False
  | _ => True

/-- What a reset or a removal has read still holds. -/
def Phase.Seen (s : State) : Phase → Prop
  | .readStateful _ numPendingStateless => numPendingStateless = s.pendingStatelessCbCount
  | .storeStateless | .storeStateful | .unlock =>
      s.pendingStatelessCbCount = 0 ∧ s.pendingStatefulCbCount = 0
  | _ => True

/-- At most one thread is in a reset or a removal, and then no other one is at work. -/
structure UpkeepInv (s : State) : Prop where
  one : tally Phase.keeps s.threads ≤ 1
  alone : tally Phase.keeps s.threads = 0 ∨ tally Phase.works s.threads = 0
  seen : ∀ phase ∈ s.threads, phase.Seen s

structure StatefulInv (s : State) : Prop where
  stateful : s.stateful = true
  lock : tally Phase.holds s.threads = if s.sessionLock then 1 else 0
  pending : s.pendingStatefulCbCount =
    s.inFlight + s.lost + (tally Phase.counts s.threads : ℕ)
  other : s.pendingStatelessCbCount = 0
  one : s.pendingStatefulCbCount ≤ 1
  clear : ∀ phase ∈ s.threads, phase = .clear → s.pendingStatefulCbCount = 0

structure StatelessInv (s : State) : Prop where
  stateless : s.stateful = false
  pending : s.pendingStatelessCbCount =
    s.inFlight + (tally Phase.owes s.threads : ℕ) - s.unpaired
  other : s.pendingStatefulCbCount = 0
  kinds : ∀ phase ∈ s.threads, phase.Stateless

section
variable {s s' t : State} {before after : List Phase} {phase phase' : Phase}
  {answer : Option CpaStatus}

theorem mem_split {x : Phase} (hx : x ∈ before ++ phase :: after) :
    x = phase ∨ x ∈ before ∨ x ∈ after := by
  rw [List.mem_append, List.mem_cons] at hx
  obtain hx | rfl | hx := hx
  · exact .inr (.inl hx)
  · exact .inl rfl
  · exact .inr (.inr hx)

theorem decrement_stateful (hs : s.stateful = true) :
    s.decrement = { s with pendingStatefulCbCount := s.pendingStatefulCbCount - 1 } := if_pos hs

theorem decrement_stateless (hs : s.stateful = false) :
    s.decrement = { s with pendingStatelessCbCount := s.pendingStatelessCbCount - 1 } := by
  rw [State.decrement, hs]
  rfl

theorem phase_mem (ht : s.threads = before ++ phase :: after) : phase ∈ s.threads := by
  rw [ht]
  exact List.mem_append_right _ (List.mem_cons_self ..)

theorem other_mem (ht : s.threads = before ++ phase :: after) {x : Phase}
    (hx : x ∈ before ∨ x ∈ after) : x ∈ s.threads := by
  rw [ht]
  obtain hx | hx := hx
  · exact List.mem_append_left _ hx
  · exact List.mem_append_right _ (List.mem_cons_of_mem _ hx)

/-! ### Resets and removals -/

theorem seen_of_keeps (h : phase.keeps = 0) : phase.Seen s := by
  cases phase <;> trivial

theorem UpkeepInv.of_none (h : tally Phase.keeps s.threads = 0) : UpkeepInv s := by
  refine ⟨by omega, .inl h, fun x hx => seen_of_keeps ?_⟩
  have hle := le_tally (f := Phase.keeps) hx
  omega

/-- While a thread is in a reset or a removal no other one is at work. -/
theorem UpkeepInv.works_zero (h : UpkeepInv s) (ht : s.threads = before ++ phase :: after)
    (hkeeps : phase.keeps = 1) : tally Phase.works s.threads = 0 := by
  obtain hnone | hzero := h.alone
  · rw [ht, tally_split, hkeeps] at hnone
    omega
  · exact hzero

/-- A call or a callback begins. -/
theorem UpkeepInv.begun (hnone : ∀ phase ∈ s.threads, phase.keeps = 0)
    (ht : s.threads = before ++ phase :: after) (hthreads : t.threads = before ++ phase' :: after)
    (hkeeps : phase'.keeps = 0) : UpkeepInv t := by
  apply UpkeepInv.of_none
  have hzero : tally Phase.keeps s.threads = 0 := tally_zero hnone
  rw [ht, tally_split] at hzero
  rw [hthreads, tally_split]
  omega

theorem UpkeepInv.work (h : UpkeepInv s) (ht : s.threads = before ++ phase :: after)
    (hworks : phase.works = 1) (hthreads : t.threads = before ++ phase' :: after)
    (hkeeps : phase'.keeps = 0) : UpkeepInv t := by
  obtain hnone | hzero := h.alone
  · refine .begun (fun x hx => ?_) ht hthreads hkeeps
    have hle := le_tally (f := Phase.keeps) hx
    omega
  · rw [ht, tally_split, hworks] at hzero
    omega

theorem UpkeepInv.keep (h : UpkeepInv s) (ht : s.threads = before ++ phase :: after)
    (hkeeps : phase.keeps = 1) (hthreads : t.threads = before ++ phase' :: after)
    (hnext : phase'.keeps ≤ 1) (hworks : phase'.works = 0) (hseen : phase'.Seen t) :
    UpkeepInv t := by
  have hzero := h.works_zero ht hkeeps
  have hone := h.one
  rw [ht, tally_split] at hzero hone
  refine ⟨?_, .inr ?_, fun x hx => ?_⟩
  · rw [hthreads, tally_split]
    omega
  · rw [hthreads, tally_split]
    omega
  · rw [hthreads] at hx
    obtain rfl | hx := mem_split hx
    · exact hseen
    · apply seen_of_keeps
      obtain hx | hx := hx
      · have hle := le_tally (f := Phase.keeps) hx
        omega
      · have hle := le_tally (f := Phase.keeps) hx
        omega

theorem UpkeepInv.acts (h : UpkeepInv s) (ht : s.threads = before ++ phase :: after)
    (ha : Acts s phase answer phase' t) :
    UpkeepInv { t with threads := before ++ phase' :: after } := by
  have hseen : phase.Seen s := h.seen phase (phase_mem ht)
  cases ha with
  | spin | take | busy | free | refused | zeroLength | served | count | release | wait | noCookie
  | cookie | notCreated | created | sent | notSent | undone | answered | none | some
  | uncounted => exact h.work ht rfl rfl rfl
  | readStateless call => exact h.keep ht rfl rfl (Nat.le_refl 1) rfl rfl
  | resets n hless hful =>
    exact h.keep ht rfl rfl (Nat.le_refl 1) rfl ⟨hseen.symm.trans hless, hful⟩
  | removes n _ hless hful =>
    exact h.keep ht rfl rfl (Nat.le_refl 1) rfl ⟨hseen.symm.trans hless, hful⟩
  | storeStateless => exact h.keep ht rfl rfl (Nat.le_refl 1) rfl ⟨rfl, hseen.2⟩
  | pending | storeStateful | unlocked | removed =>
    exact h.keep ht rfl rfl (Nat.zero_le 1) rfl trivial

theorem UpkeepInv.step {e : Event} (h : UpkeepInv s) (hs : Step s e s') (happart : Apart s e) :
    UpkeepInv s' := by
  cases e with
  | call =>
    obtain ⟨before, after, ht, rfl⟩ := hs
    refine .begun happart ht rfl ?_
    split <;> rfl
  | response =>
    obtain ⟨before, after, ht, _, rfl⟩ := hs
    exact .begun happart ht rfl rfl
  | upkeep call =>
    obtain ⟨before, after, ht, rfl⟩ := hs
    have hkeeps : tally Phase.keeps s.threads = 0 :=
      tally_zero fun x hx => by rw [happart x hx]; rfl
    have hworks : tally Phase.works s.threads = 0 :=
      tally_zero fun x hx => by rw [happart x hx]; rfl
    rw [ht, tally_split] at hkeeps hworks
    refine ⟨?_, .inr ?_, fun x hx => ?_⟩
    · rw [tally_split]
      simp only [Phase.keeps] at hkeeps ⊢
      omega
    · rw [tally_split]
      exact hworks
    · obtain rfl | hx := mem_split hx
      · trivial
      · have hidle : x = .idle := happart x (other_mem ht hx)
        rw [hidle]
        trivial
  | act answer =>
    obtain ⟨before, phase, after, phase', t, ht, ha, rfl⟩ := hs
    exact h.acts ht ha

/-- The steps that a reset or a removal still takes at most. -/
def Phase.stepsLeft : Phase → ℕ
  | .readStateless _ => 4
  | .readStateful _ _ => 3
  | .storeStateless => 2
  | .storeStateful | .unlock => 1
  | _ => 0

/-- A reset or a removal waits for nothing. -/
theorem upkeep_returns (s : State) (hkeeps : phase.keeps = 1) :
    ∃ answer phase' t, Acts s phase answer phase' t ∧ phase'.stepsLeft < phase.stepsLeft := by
  cases phase with
  | readStateless call => exact ⟨_, _, _, .readStateless call, by simp [Phase.stepsLeft]⟩
  | readStateful call n =>
    by_cases hpending : n ≠ 0 ∨ s.pendingStatefulCbCount ≠ 0
    · exact ⟨_, _, _, .pending call n hpending, by simp [Phase.stepsLeft]⟩
    · rw [not_or, not_not, not_not] at hpending
      obtain ⟨hless, hful⟩ := hpending
      cases call with
      | reset => exact ⟨_, _, _, .resets n hless hful, by simp [Phase.stepsLeft]⟩
      | remove =>
        cases hst : s.stateful with
        | true => exact ⟨_, _, _, .removes n hst hless hful, by simp [Phase.stepsLeft]⟩
        | false => exact ⟨_, _, _, .removed n hst hless hful, by simp [Phase.stepsLeft]⟩
  | storeStateless => exact ⟨_, _, _, .storeStateless, by simp [Phase.stepsLeft]⟩
  | storeStateful => exact ⟨_, _, _, .storeStateful, by simp [Phase.stepsLeft]⟩
  | unlock => exact ⟨_, _, _, .unlocked, by simp [Phase.stepsLeft]⟩
  | _ => cases hkeeps

/-! ### Stateful sessions -/

theorem StatefulInv.held (h : StatefulInv s) (ht : s.threads = before ++ phase :: after)
    (hphase : phase.holds = 1) : s.sessionLock = true := by
  have hlock := h.lock
  rw [ht, tally_split, hphase] at hlock
  cases hl : s.sessionLock with
  | true => rfl
  | false =>
    rw [hl] at hlock
    simp only [Bool.false_eq_true, if_false] at hlock
    omega

theorem StatefulInv.alone (h : StatefulInv s) (ht : s.threads = before ++ phase :: after)
    (hphase : phase.holds = 1) {x : Phase} (hx : x ∈ before ∨ x ∈ after) : x.holds = 0 := by
  have hlock := h.lock
  rw [h.held ht hphase, ht, tally_split, hphase] at hlock
  simp only [if_true] at hlock
  obtain hx | hx := hx
  · have hle := le_tally (f := Phase.holds) hx
    omega
  · have hle := le_tally (f := Phase.holds) hx
    omega

theorem StatefulInv.change (h : StatefulInv s) (ht : s.threads = before ++ phase :: after)
    (hstateful : t.stateful = s.stateful) (hthreads : t.threads = before ++ phase' :: after)
    (hlock : (if t.sessionLock then 1 else 0) + phase.holds =
      (if s.sessionLock then 1 else 0) + phase'.holds)
    (hpending : t.pendingStatefulCbCount + (s.inFlight + s.lost + phase.counts) =
      s.pendingStatefulCbCount + (t.inFlight + t.lost + phase'.counts))
    (hother : t.pendingStatelessCbCount = s.pendingStatelessCbCount)
    (hone : t.pendingStatefulCbCount ≤ 1)
    (hclear : phase' = .clear → t.pendingStatefulCbCount = 0)
    (hrest : t.pendingStatefulCbCount = s.pendingStatefulCbCount ∨ phase.holds = 1 ∨
      phase.counts = 1) : StatefulInv t := by
  have hlock₀ := h.lock
  have hpending₀ := h.pending
  rw [ht, tally_split] at hlock₀ hpending₀
  constructor
  · exact hstateful.trans h.stateful
  · rw [hthreads, tally_split]
    omega
  · rw [hthreads, tally_split]
    omega
  · exact hother.trans h.other
  · exact hone
  · intro x hx hxclear
    rw [hthreads] at hx
    obtain rfl | hx := mem_split hx
    · exact hclear hxclear
    · have hzero := h.clear x (other_mem ht hx) hxclear
      obtain hsame | hholds | hcounts := hrest
      · exact hsame.trans hzero
      · -- two threads would hold the lock
        have hx0 := h.alone ht hholds hx
        rw [hxclear] at hx0
        cases hx0
      · omega

theorem StatefulInv.lock_free (h : StatefulInv s) (hworks : tally Phase.works s.threads = 0) :
    s.sessionLock = false := by
  have hlock := h.lock
  have hholds : tally Phase.holds s.threads = 0 := tally_zero fun x hx => by
    have hle := le_tally (f := Phase.works) hx
    have hzero : x.works = 0 := by omega
    cases x <;> first | rfl | cases hzero
  rw [hholds] at hlock
  cases hl : s.sessionLock with
  | true =>
    rw [hl] at hlock
    cases hlock
  | false => rfl

theorem StatefulInv.acts (h : StatefulInv s) (hu : UpkeepInv s)
    (ht : s.threads = before ++ phase :: after) (ha : Acts s phase answer phase' t) :
    StatefulInv { t with threads := before ++ phase' :: after } := by
  have hst := h.stateful
  have hpending := h.pending
  have hone := h.one
  have hseen : phase.Seen s := hu.seen phase (phase_mem ht)
  rw [ht, tally_split] at hpending
  cases ha with
  | spin hl =>
    exact h.change ht rfl rfl rfl rfl rfl hone nofun (.inl rfl)
  | take hl =>
    refine h.change ht rfl rfl ?_ rfl rfl hone nofun (.inl rfl)
    simp only [hl, Phase.holds, if_true, Bool.false_eq_true, if_false]
  | busy hp => exact h.change ht rfl rfl rfl rfl rfl hone nofun (.inl rfl)
  | free hp => exact h.change ht rfl rfl rfl rfl rfl hone (fun _ => hp) (.inl rfl)
  | refused =>
    refine h.change ht rfl rfl ?_ rfl rfl hone nofun (.inl rfl)
    simp only [h.held ht rfl, Phase.holds, if_true, Bool.false_eq_true, if_false]
  | zeroLength => exact h.change ht rfl rfl rfl rfl rfl hone nofun (.inl rfl)
  | served =>
    refine h.change ht rfl rfl ?_ rfl rfl hone nofun (.inl rfl)
    simp only [h.held ht rfl, Phase.holds, if_true, Bool.false_eq_true, if_false]
  | count =>
    have hzero := h.clear .clear (phase_mem ht) rfl
    refine h.change ht rfl rfl rfl ?_ rfl ?_ nofun (.inr (.inl rfl))
    · simp only [Phase.counts]
      omega
    · simp only
      omega
  | release =>
    refine h.change ht rfl rfl ?_ rfl rfl hone nofun (.inl rfl)
    simp only [h.held ht rfl, Phase.holds, if_true, Bool.false_eq_true, if_false]
  | wait => exact h.change ht rfl rfl rfl rfl rfl hone nofun (.inl rfl)
  | noCookie status hs =>
    refine h.change ht rfl rfl rfl ?_ rfl hone nofun (.inl rfl)
    simp only [hst, if_true, Phase.counts]
    omega
  | cookie => exact h.change ht rfl rfl rfl rfl rfl hone nofun (.inl rfl)
  | notCreated status hs => exact h.change ht rfl rfl rfl rfl rfl hone nofun (.inl rfl)
  | created =>
    refine h.change ht rfl rfl rfl rfl ?_ hone nofun (.inl rfl)
    simp only [hst, if_true]
  | sent =>
    refine h.change ht rfl rfl rfl ?_ rfl hone nofun (.inl rfl)
    simp only [Phase.counts]
    omega
  | notSent status hs => exact h.change ht rfl rfl rfl rfl rfl hone nofun (.inl rfl)
  | undone status =>
    rw [decrement_stateful hst]
    refine h.change ht rfl rfl rfl ?_ rfl ?_ nofun (.inr (.inr rfl))
    · simp only [Phase.counts]
      omega
    · simp only
      omega
  | answered hno =>
    rw [hst] at hno
    cases hno
  | none _ hzero =>
    simp only [Phase.counts] at hpending
    omega
  | some _ hp => exact h.change ht rfl rfl rfl rfl rfl hone nofun (.inl rfl)
  | uncounted =>
    rw [decrement_stateful hst]
    refine h.change ht rfl rfl rfl ?_ rfl ?_ nofun (.inr (.inr rfl))
    · simp only [Phase.counts]
      omega
    · simp only
      omega
  | readStateless | pending | resets | removes =>
    exact h.change ht rfl rfl rfl rfl rfl hone nofun (.inl rfl)
  | storeStateless => exact h.change ht rfl rfl rfl rfl h.other.symm hone nofun (.inl rfl)
  | storeStateful =>
    refine h.change ht rfl rfl rfl ?_ rfl ?_ nofun (.inl hseen.2.symm)
    · simp only [Phase.counts, hseen.2]
    · exact Int.zero_le_ofNat 1
  | unlocked =>
    refine h.change ht rfl rfl ?_ rfl rfl hone nofun (.inl rfl)
    rw [h.lock_free (hu.works_zero ht rfl)]
    rfl
  | removed n hno =>
    rw [hst] at hno
    cases hno

theorem StatefulInv.step {e : Event} (h : StatefulInv s) (hu : UpkeepInv s) (hs : Step s e s') :
    StatefulInv s' := by
  have hst := h.stateful
  have hone := h.one
  cases e with
  | call =>
    obtain ⟨before, after, ht, rfl⟩ := hs
    simp only [hst, if_true]
    exact h.change ht hst.symm rfl rfl rfl rfl hone nofun (.inl rfl)
  | response =>
    obtain ⟨before, after, ht, hsome, rfl⟩ := hs
    refine h.change ht rfl rfl rfl ?_ rfl hone nofun (.inl rfl)
    simp only [Phase.counts]
    omega
  | upkeep call =>
    obtain ⟨before, after, ht, rfl⟩ := hs
    exact h.change ht rfl rfl rfl rfl rfl hone nofun (.inl rfl)
  | act answer =>
    obtain ⟨before, phase, after, phase', t, ht, ha, rfl⟩ := hs
    exact h.acts hu ht ha

/-! ### Stateless sessions -/

theorem StatelessInv.change (h : StatelessInv s) (ht : s.threads = before ++ phase :: after)
    (hstateful : t.stateful = s.stateful) (hthreads : t.threads = before ++ phase' :: after)
    (hpending : t.pendingStatelessCbCount + (s.inFlight + phase.owes - s.unpaired) =
      s.pendingStatelessCbCount + (t.inFlight + phase'.owes - t.unpaired))
    (hother : t.pendingStatefulCbCount = s.pendingStatefulCbCount)
    (hkind : phase'.Stateless) : StatelessInv t := by
  have hpending₀ := h.pending
  rw [ht, tally_split] at hpending₀
  constructor
  · exact hstateful.trans h.stateless
  · rw [hthreads, tally_split]
    omega
  · exact hother.trans h.other
  · intro x hx
    rw [hthreads] at hx
    obtain rfl | hx := mem_split hx
    · exact hkind
    · exact h.kinds x (other_mem ht hx)

theorem StatelessInv.acts (h : StatelessInv s) (hu : UpkeepInv s)
    (ht : s.threads = before ++ phase :: after) (ha : Acts s phase answer phase' t) :
    StatelessInv { t with threads := before ++ phase' :: after } := by
  have hst := h.stateless
  have hkind : phase.Stateless := h.kinds phase (phase_mem ht)
  have hseen : phase.Seen s := hu.seen phase (phase_mem ht)
  cases ha with
  | spin | take | busy | free | refused | zeroLength | served | count | release | uncounted
  | unlocked => exact hkind.elim
  | wait | cookie | notSent | readStateless | pending | resets | removed =>
    exact h.change ht rfl rfl rfl rfl trivial
  | storeStateless =>
    refine h.change ht rfl rfl ?_ rfl trivial
    simp only [Phase.owes, hseen.1]
  | storeStateful => exact h.change ht rfl rfl rfl h.other.symm trivial
  | removes n hyes =>
    rw [hst] at hyes
    cases hyes
  | noCookie status hs => exact h.change ht rfl rfl rfl rfl trivial
  | notCreated status hs =>
    refine h.change ht rfl rfl ?_ rfl trivial
    simp only [hst, Bool.false_eq_true, if_false, Phase.owes]
    omega
  | created =>
    refine h.change ht rfl rfl ?_ rfl trivial
    simp only [hst, Bool.false_eq_true, if_false, Phase.owes]
    omega
  | sent =>
    refine h.change ht rfl rfl ?_ rfl trivial
    simp only [Phase.owes]
    omega
  | undone status =>
    rw [decrement_stateless hst]
    refine h.change ht rfl rfl ?_ rfl trivial
    simp only [Phase.owes]
    omega
  | answered _ =>
    rw [decrement_stateless hst]
    refine h.change ht rfl rfl ?_ rfl trivial
    simp only [Phase.owes]
    omega
  | none hyes _ =>
    rw [hst] at hyes
    cases hyes
  | some hyes _ =>
    rw [hst] at hyes
    cases hyes

theorem StatelessInv.step {e : Event} (h : StatelessInv s) (hu : UpkeepInv s) (hs : Step s e s') :
    StatelessInv s' := by
  have hst := h.stateless
  cases e with
  | call =>
    obtain ⟨before, after, ht, rfl⟩ := hs
    refine h.change ht rfl rfl ?_ rfl ?_
    · rw [hst]
      rfl
    · rw [hst]
      trivial
  | response =>
    obtain ⟨before, after, ht, hsome, rfl⟩ := hs
    refine h.change ht rfl rfl ?_ rfl trivial
    simp only [Phase.owes]
    omega
  | upkeep call =>
    obtain ⟨before, after, ht, rfl⟩ := hs
    exact h.change ht rfl rfl rfl rfl trivial
  | act answer =>
    obtain ⟨before, phase, after, phase', t, ht, ha, rfl⟩ := hs
    exact h.acts hu ht ha

/-! ### Runs -/

variable {stateful : Bool} {threads : ℕ} {status : CpaStatus}

theorem init_idle {phase : Phase} (hp : phase ∈ (State.init stateful threads).threads) :
    phase = .idle := (List.mem_replicate.mp hp).2

theorem init_tally (f : Phase → ℕ) (hf : f .idle = 0) :
    tally f (State.init stateful threads).threads = 0 :=
  tally_zero fun x hx => by rw [init_idle hx, hf]

theorem Reachable.upkeepInv (hr : Reachable stateful threads s) : UpkeepInv s := by
  refine Transition.ReachVia.invariant (I := UpkeepInv) ?_ ?_ hr
  · exact .of_none (init_tally Phase.keeps rfl)
  · exact fun _ _ _ _ h hs happart => h.step hs happart

theorem Reachable.statefulInv (hr : Reachable true threads s) : StatefulInv s := by
  refine Transition.ReachVia.invariant (I := StatefulInv) ?_
    (fun _ _ _ hr h hs _ => h.step (Reachable.upkeepInv hr) hs) hr
  refine ⟨rfl, init_tally Phase.holds rfl, ?_, rfl, Int.zero_le_ofNat 1, fun _ _ _ => rfl⟩
  rw [init_tally Phase.counts rfl]
  rfl

theorem acts_step (before : List Phase) (phase : Phase) (after : List Phase)
    (ht : s.threads = before ++ phase :: after) (ha : Acts s phase answer phase' t) :
    Step s (.act answer) { t with threads := before ++ phase' :: after } :=
  ⟨before, phase, after, phase', t, ht, ha, rfl⟩

theorem call_step (before after : List Phase) (ht : s.threads = before ++ .idle :: after) :
    Step s .call
      { s with threads := before ++ (if s.stateful then .lock else .prepare) :: after } :=
  ⟨before, after, ht, rfl⟩

theorem upkeep_step (call : Upkeep) (before after : List Phase)
    (ht : s.threads = before ++ .idle :: after) :
    Step s (.upkeep call) { s with threads := before ++ .readStateless call :: after } :=
  ⟨before, after, ht, rfl⟩

theorem apart_of_idle (ht : s.threads = [.idle]) (call : Upkeep) :
    Apart s .call ∧ Apart s (.upkeep call) := by
  have hidle : ∀ phase ∈ s.threads, phase = .idle := by
    intro phase hphase
    rw [ht] at hphase
    exact List.mem_singleton.mp hphase
  exact ⟨fun phase hphase => by rw [hidle phase hphase]; rfl, hidle⟩

/-- A call on a stateful session that gets no cookie, and a removal. -/
theorem lost_run : ∃ s : State, Reachable true 1 s ∧
    s.threads = [] ++ .readStateful .remove 0 :: [] ∧ s.pendingStatefulCbCount = 1 ∧
    s.inFlight = 0 ∧ s.lost = 1 := by
  have hresource : CpaStatus.resource ≠ CpaStatus.success := by decide
  have h₀ : Reachable true 1 (State.init true 1) := .refl
  have h₁ := h₀.tail (call_step [] [] rfl) (apart_of_idle rfl .remove).1
  have h₂ := h₁.tail (acts_step [] .lock [] rfl (.take rfl)) trivial
  have h₃ := h₂.tail (acts_step [] .locked [] rfl (.free rfl)) trivial
  have h₄ := h₃.tail (acts_step [] .clear [] rfl .count) trivial
  have h₅ := h₄.tail (acts_step [] .counted [] rfl .release) trivial
  have h₆ := h₅.tail
    (acts_step [] .prepare [] rfl (.noCookie CpaStatus.resource hresource)) trivial
  -- the removal
  have k₁ := h₆.tail (upkeep_step .remove [] [] rfl) (apart_of_idle rfl .remove).2
  have k₂ := k₁.tail (acts_step [] (.readStateless .remove) [] rfl (.readStateless .remove))
    trivial
  exact ⟨_, k₂, rfl, rfl, rfl, rfl⟩

theorem StatefulInv.bounded (h : StatefulInv s) :
    s.inFlight + s.lost + tally Phase.counts s.threads ≤ 1 := by
  have hpending := h.pending
  have hone := h.one
  omega

/-- However the calls on a stateful session and its callbacks interleave, of the requests
being built, in flight or being answered there is at most one, and none once a call left
its count behind. -/
theorem one_stateful_request (hr : Reachable true threads s) :
    s.inFlight + s.lost + tally Phase.counts s.threads ≤ 1 := hr.statefulInv.bounded

theorem one_stateful_request_lost : ∃ s : State, s.lost = 1 ∧
    s.inFlight + s.lost + tally Phase.counts s.threads ≤ 1 := by
  obtain ⟨s, hr, _, _, _, hlost⟩ := lost_run
  exact ⟨s, hlost, one_stateful_request hr⟩

/-- A reset that read the counter before a call added to it takes that count away. -/
theorem overlapped_reset : ∃ s : State,
    Transition.Reach Step (State.init true 2) s ∧ s.inFlight = 2 := by
  have h₀ : Transition.Reach Step (State.init true 2) (State.init true 2) := .refl
  have h₁ := h₀.tail (upkeep_step .reset [.idle] [] rfl) trivial
  have h₂ := h₁.tail
    (acts_step [.idle] (.readStateless .reset) [] rfl (.readStateless .reset)) trivial
  have h₃ := h₂.tail
    (acts_step [.idle] (.readStateful .reset 0) [] rfl (.resets 0 rfl rfl)) trivial
  have h₄ := h₃.tail (acts_step [.idle] .storeStateless [] rfl .storeStateless) trivial
  -- a request is sent before the second store
  have g₁ := h₄.tail (call_step [] [.storeStateful] rfl) trivial
  have g₂ := g₁.tail (acts_step [] .lock [.storeStateful] rfl (.take rfl)) trivial
  have g₃ := g₂.tail (acts_step [] .locked [.storeStateful] rfl (.free rfl)) trivial
  have g₄ := g₃.tail (acts_step [] .clear [.storeStateful] rfl .count) trivial
  have g₅ := g₄.tail (acts_step [] .counted [.storeStateful] rfl .release) trivial
  have g₆ := g₅.tail (acts_step [] .prepare [.storeStateful] rfl .cookie) trivial
  have g₇ := g₆.tail (acts_step [] .create [.storeStateful] rfl .created) trivial
  have g₈ := g₇.tail (acts_step [] .send [.storeStateful] rfl .sent) trivial
  have g₉ := g₈.tail (acts_step [.idle] .storeStateful [] rfl .storeStateful) trivial
  -- a second one
  have k₁ := g₉.tail (call_step [] [.idle] rfl) trivial
  have k₂ := k₁.tail (acts_step [] .lock [.idle] rfl (.take rfl)) trivial
  have k₃ := k₂.tail (acts_step [] .locked [.idle] rfl (.free rfl)) trivial
  have k₄ := k₃.tail (acts_step [] .clear [.idle] rfl .count) trivial
  have k₅ := k₄.tail (acts_step [] .counted [.idle] rfl .release) trivial
  have k₆ := k₅.tail (acts_step [] .prepare [.idle] rfl .cookie) trivial
  have k₇ := k₆.tail (acts_step [] .create [.idle] rfl .created) trivial
  have k₈ := k₇.tail (acts_step [] .send [.idle] rfl .sent) trivial
  exact ⟨_, k₈, rfl⟩

/-- A reset or a removal returns `status` in this state. -/
def Returns (s : State) (status : CpaStatus) : Prop :=
  ∃ before phase after phase' t, s.threads = before ++ phase :: after ∧ phase.keeps = 1 ∧
    Acts s phase (some status) phase' t

end

end Session
end QatDcSample
