import QatDcSample.MemPoolRuns

/-!
# Every run of a memory pool

A new pool, the states its threads can lead to, and what holds in all of them.
-/

namespace QatDcSample
namespace MemPool

open LinkedList Tally

variable {B : Type} [DecidableEq B]

section
variable {W : ℕ} {all stack : List B} {s s' : State B}

/-! ### A new pool -/

theorem initStack_inv (threads : ℕ) : Inv W [] (State.initStack threads : State B) [] := by
  have hidle : ∀ phase ∈ List.replicate threads (.idle : Phase B), phase = .idle := by
    intro phase hphase
    exact (List.mem_replicate.mp hphase).2
  obtain ⟨hcarried, hreturned, htaken⟩ := at_rest hidle
  constructor
  · rfl
  · exact (Nat.zero_mod W).symm
  · intro b
    simp only [State.initStack, hcarried, List.count_nil]
  · simp only [State.initStack, hreturned, htaken, List.length_nil]
  · intro b hb
    rfl
  · intro b hb
    cases hb
  · rfl
  · intro phase hphase
    rw [hidle phase hphase]
    trivial

theorem Inv.pushFirst (h : Inv W all s stack) (hidle : ∀ phase ∈ s.threads, phase = .idle)
    {b : B} (hb : b ∉ all) : Inv W (b :: all) (s.pushFirst W b) (b :: stack) := by
  have hzero : all.count b = 0 := List.count_eq_zero.mpr hb
  have hplace := h.place b
  have hstack : b ∉ stack := by
    intro hmem
    have hpos := count_pos hmem
    omega
  constructor
  · refine ⟨rfl, ?_⟩
    simp only [State.pushFirst, Function.update_self]
    exact h.linked.update hstack
  · simp only [State.pushFirst, h.ctr, Nat.mod_add_mod]
  · intro x
    have hx := h.place x
    simp only [State.pushFirst, List.count_cons]
    omega
  · have havail := h.avail
    simp only [State.pushFirst, add64, UInt64.size, List.length_cons] at havail ⊢
    omega
  · intro x hx
    simp only [State.pushFirst] at hx ⊢
    by_cases he : x = b
    · rw [he, Function.update_self]
    · rw [Function.update_of_ne he]
      apply h.inUse x
      exact hx.imp_left fun hmem => (List.mem_cons.mp hmem).resolve_left he
  · intro x hx
    simp only [State.pushFirst] at hx ⊢
    have hne : x ≠ b := by
      intro he
      rw [he] at hx
      have hpos := count_pos hx
      omega
    rw [Function.update_of_ne hne]
    exact h.used x hx
  · exact replay_snoc h.replay rfl
  · intro phase hphase
    rw [hidle phase hphase]
    trivial

theorem Inv.fill (hidle : ∀ phase ∈ s.threads, phase = .idle) (h : Inv W all s stack)
    (blocks : List B) (hn : (blocks ++ all).Nodup) :
    Inv W (blocks.reverse ++ all) (blocks.foldl (State.pushFirst W) s)
      (blocks.reverse ++ stack) := by
  induction blocks generalizing s all stack with
  | nil => exact h
  | cons b blocks ih =>
    have hperm : (b :: blocks ++ all).Perm (blocks ++ b :: all) := List.perm_middle.symm
    have hn' := hperm.nodup_iff.mp hn
    have hb : b ∉ all := (List.nodup_cons.mp (List.nodup_append.mp hn').2.1).1
    simp only [List.foldl_cons, List.reverse_cons, List.append_assoc, List.singleton_append]
    exact ih hidle (h.pushFirst hidle hb) hn'

theorem create_inv (threads : ℕ) {blocks : List B} (hn : blocks.Nodup) :
    Inv W blocks.reverse (State.create W threads blocks) blocks.reverse := by
  have hidle : ∀ phase ∈ (State.initStack threads : State B).threads, phase = .idle := by
    intro phase hphase
    exact (List.mem_replicate.mp hphase).2
  have h := (initStack_inv (W := W) threads).fill hidle blocks
    (by rw [List.append_nil]; exact hn)
  simp only [List.append_nil] at h
  exact h

/-! ### The runs -/

def Reachable (W threads : ℕ) (blocks : List B) : State B → Prop :=
  Transition.ReachVia (Step W) (fun s _ => Awake W s) (State.create W threads blocks)

variable {threads : ℕ} {blocks : List B}

theorem Reachable.inv (hn : blocks.Nodup) (hr : Reachable W threads blocks s) :
    ∃ stack, Inv W blocks.reverse s stack := by
  have hnodup : blocks.reverse.Nodup := List.nodup_reverse.mpr hn
  apply Transition.ReachVia.invariant (I := fun s => ∃ stack, Inv W blocks.reverse s stack)
    ⟨_, create_inv threads hn⟩ ?_ hr
  intro s e s' _ hinv hs hawake
  obtain ⟨stack, h⟩ := hinv
  exact h.step hnodup hawake hs

theorem Inv.perm (h : Inv W blocks.reverse s stack) :
    (stack ++ s.held ++ carriedBy s.threads).Perm blocks := by
  rw [List.perm_iff_count]
  intro b
  rw [List.count_append, List.count_append, h.place b, List.count_reverse]

omit [DecidableEq B] in
theorem awake_of_lt (hswaps : s.swaps < W) : Awake W s := by
  intro _ _ since _
  omega

theorem Reachable.act (hr : Reachable W threads blocks s) (before : List (Phase B))
    (phase : Phase B) (after : List (Phase B)) (hswaps : s.swaps < W)
    (ht : s.threads = before ++ phase :: after) (hphase : phase ≠ .idle) :
    Reachable W threads blocks
      { (s.act W phase).2.2 with threads := before ++ (s.act W phase).2.1 :: after } := by
  have hs : Step W s (.act (s.act W phase).1)
      { (s.act W phase).2.2 with threads := before ++ (s.act W phase).2.1 :: after } :=
    ⟨before, phase, after, ht, hphase, rfl, rfl⟩
  exact hr.tail hs (awake_of_lt hswaps)

theorem Reachable.alloc (hr : Reachable W threads blocks s) (before after : List (Phase B))
    (hswaps : s.swaps < W) (ht : s.threads = before ++ .idle :: after) :
    Reachable W threads blocks { s with
      threads := before ++ (if s.active = false then .idle else .popLoad) :: after } := by
  have hs : Step W s .alloc { s with
      threads := before ++ (if s.active = false then .idle else .popLoad) :: after } :=
    ⟨before, after, ht, rfl⟩
  exact hr.tail hs (awake_of_lt hswaps)

/-- Two threads and one block: the second thread takes it while the first one has the top
loaded, and the first is told to retry. -/
theorem overtaken_run : ∃ s t t' : State ℕ, Reachable UInt64.size 2 [1] s ∧
    s.threads = [.popSwap 1 1 1 none, .idle] ∧ s.swaps = 2 ∧
    Reachable UInt64.size 2 [1] t ∧ Step UInt64.size t (.act (some .retry)) t' ∧
    t.threads = [.popPtr 2 2, .idle] ∧
    Reachable UInt64.size 2 [1] t' ∧ t'.threads = [.idle, .idle] ∧ t'.held = [1] := by
  have h₁ : Reachable UInt64.size 2 [1] (State.create UInt64.size 2 [1]) := .refl
  have h₂ := h₁.alloc [] [.idle] (by decide) rfl
  have h₃ := h₂.act [] .popLoad [.idle] (by decide) rfl nofun
  have h₄ := h₃.act [] (.popPtr 1 1) [.idle] (by decide) rfl nofun
  -- the second thread, from its call to its answer
  have g₁ := h₄.alloc [.popNext 1 1 1] [] (by decide) rfl
  have g₂ := g₁.act [.popNext 1 1 1] .popLoad [] (by decide) rfl nofun
  have g₃ := g₂.act [.popNext 1 1 1] (.popPtr 1 1) [] (by decide) rfl nofun
  have g₄ := g₃.act [.popNext 1 1 1] (.popNext 1 1 1) [] (by decide) rfl nofun
  have g₅ := g₄.act [.popNext 1 1 1] (.popSwap 1 1 1 none) [] (by decide) rfl nofun
  have g₆ := g₅.act [.popNext 1 1 1] (.popped 1) [] (by decide) rfl nofun
  have g₇ := g₆.act [.popNext 1 1 1] (.claimed 1) [] (by decide) rfl nofun
  -- the first thread again
  have h₅ := g₇.act [] (.popNext 1 1 1) [.idle] (by decide) rfl nofun
  have h₆ := h₅.act [] (.popSwap 1 1 1 none) [.idle] (by decide) rfl nofun
  have h₇ := h₆.act [] .popLoad [.idle] (by decide) rfl nofun
  have h₈ := h₇.act [] (.popPtr 2 2) [.idle] (by decide) rfl nofun
  exact ⟨_, _, _, h₅, rfl, rfl, h₇, ⟨[], .popPtr 2 2, [.idle], rfl, nofun, rfl, rfl⟩, rfl, h₈,
    rfl, rfl⟩

/-- However the threads interleave, each block of the pool is in one place: on the stack
that the links make, with a caller, or with a thread on its way. The stack is the one that
the same pops and pushes, one after the other, make of an empty one. -/
theorem blocks_in_one_place (hn : blocks.Nodup) (hr : Reachable W threads blocks s) :
    ∃ stack, Linked s.pNext s.top.ptr stack ∧ Op.replay s.ops [] = some stack ∧
      (stack ++ s.held ++ carriedBy s.threads).Perm blocks := by
  obtain ⟨stack, h⟩ := hr.inv hn
  exact ⟨stack, h.linked, h.replay, h.perm⟩

theorem blocks_in_one_place_overtaken : ∃ (s : State ℕ) (stack : List ℕ),
    s.threads = [.popSwap 1 1 1 none, .idle] ∧ Linked s.pNext s.top.ptr stack ∧
      Op.replay s.ops [] = some stack ∧
      (stack ++ s.held ++ carriedBy s.threads).Perm [1] := by
  obtain ⟨s, _, _, hr, hthreads, _⟩ := overtaken_run
  obtain ⟨stack, h⟩ := blocks_in_one_place (List.nodup_singleton 1) hr
  exact ⟨s, stack, hthreads, h⟩

/-- A pop is told to retry only while every block is with a caller or on its way. -/
theorem retry_when_empty (hn : blocks.Nodup) (hr : Reachable W threads blocks s)
    (hs : Step W s (.act (some .retry)) s') : (s.held ++ carriedBy s.threads).Perm blocks := by
  obtain ⟨before, phase, after, ht, _, hanswer, _⟩ := hs
  have hptr : s.top.ptr = none := by
    cases phase with
    | popPtr ctr since =>
      cases hp : s.top.ptr with
      | none => rfl
      | some next =>
        simp only [State.act, hp] at hanswer
        cases hanswer
    | popSwap ctr since next pNext =>
      simp only [State.act] at hanswer
      split at hanswer <;> cases hanswer
    | pushSwap val ctr since ptr =>
      simp only [State.act] at hanswer
      split at hanswer <;> cases hanswer
    | idle | popLoad | popNext | popped | claimed | pushLoad | pushPtr | pushLink | pushed =>
      simp only [State.act] at hanswer
      cases hanswer
  obtain ⟨stack, h⟩ := hr.inv hn
  have hlinked := h.linked
  have hperm := h.perm
  rw [hptr] at hlinked
  rw [hlinked.eq_nil, List.nil_append] at hperm
  exact hperm

theorem retry_when_empty_overtaken : ∃ s : State ℕ, s.threads = [.popPtr 2 2, .idle] ∧
    (s.held ++ carriedBy s.threads).Perm [1] := by
  obtain ⟨_, s, _, _, _, _, hr, hs, hthreads, _⟩ := overtaken_run
  exact ⟨s, hthreads, retry_when_empty (List.nodup_singleton 1) hr hs⟩

theorem act_sized {phase : Phase B} (h : s.availBlks < UInt64.size) :
    (s.act W phase).2.2.availBlks < UInt64.size := by
  have hpos : 0 < UInt64.size := by decide
  cases phase with
  | popped next => exact Nat.mod_lt _ hpos
  | pushed val => exact Nat.mod_lt _ hpos
  | popPtr ctr since =>
    simp only [State.act]
    split <;> exact h
  | popSwap ctr since next pNext =>
    by_cases hc : s.top.ctr = ctr ∧ s.top.ptr = some next
    · simp only [State.act, State.swap, hc, and_self, if_true]
      exact h
    · simp only [State.act, State.swap, hc, if_false]
      exact h
  | pushSwap val ctr since ptr =>
    by_cases hc : s.top.ctr = ctr ∧ s.top.ptr = ptr
    · simp only [State.act, State.swap, hc, and_self, if_true]
      exact h
    · simp only [State.act, State.swap, hc, if_false]
      exact h
  | idle | popLoad | popNext | claimed | pushLoad | pushPtr | pushLink => exact h

theorem Reachable.sized (hr : Reachable W threads blocks s) : s.availBlks < UInt64.size := by
  have hpos : 0 < UInt64.size := by decide
  have hfill : ∀ (l : List B) (t : State B), t.availBlks < UInt64.size →
      (l.foldl (State.pushFirst W) t).availBlks < UInt64.size := by
    intro l
    induction l with
    | nil => exact fun t ht => ht
    | cons b l ih => exact fun t _ => ih _ (Nat.mod_lt _ hpos)
  apply Transition.ReachVia.invariant (I := fun s => s.availBlks < UInt64.size)
    (hfill blocks _ hpos) ?_ hr
  intro s e s' _ h hs _
  cases e with
  | alloc =>
    obtain ⟨before, after, _, rfl⟩ := hs
    exact h
  | free b =>
    obtain ⟨before, after, _, _, rfl⟩ := hs
    exact h
  | act answer =>
    obtain ⟨before, phase, after, _, _, _, rfl⟩ := hs
    exact act_sized h
  | active active =>
    rw [show s' = _ from hs]
    exact h

/-- While no call is under way, `availBlks` is what is left, and the blocks in use are the
callers'. -/
theorem counted_at_rest (hn : blocks.Nodup) (hlen : blocks.length < UInt64.size)
    (hr : Reachable W threads blocks s) (hidle : ∀ phase ∈ s.threads, phase = .idle) :
    s.availBlks + s.held.length = blocks.length ∧
      ∀ b ∈ blocks, s.isInUse b = true ↔ b ∈ s.held := by
  have hsized := hr.sized
  obtain ⟨stack, h⟩ := hr.inv hn
  obtain ⟨hcarried, hreturned, htaken⟩ := at_rest hidle
  have hplace := h.place
  have havail := h.avail
  have hinUse := h.inUse
  rw [hcarried] at hplace hinUse
  rw [hreturned, htaken, Nat.add_zero, Nat.add_zero, Nat.mod_eq_of_lt hsized] at havail
  have hperm : (stack ++ s.held).Perm blocks := by
    rw [List.perm_iff_count]
    intro b
    have hb := hplace b
    rw [List.count_nil, Nat.add_zero, List.count_reverse] at hb
    rw [List.count_append, hb]
  have hlength := hperm.length_eq
  rw [List.length_append] at hlength
  rw [Nat.mod_eq_of_lt (by omega)] at havail
  refine ⟨by omega, fun b hb => ⟨fun huse => ?_, h.used b⟩⟩
  obtain hmem | hmem := List.mem_append.mp (hperm.mem_iff.mpr hb)
  · rw [hinUse b (.inl hmem)] at huse
    cases huse
  · exact hmem

theorem counted_at_rest_overtaken : ∃ s : State ℕ, s.held = [1] ∧
    s.availBlks + s.held.length = 1 ∧ ∀ b ∈ [1], s.isInUse b = true ↔ b ∈ s.held := by
  obtain ⟨_, _, s, _, _, _, _, _, _, hr, hthreads, hheld⟩ := overtaken_run
  have hidle : ∀ phase ∈ s.threads, phase = .idle := by
    rw [hthreads]
    simp only [List.mem_cons, List.not_mem_nil, or_false, or_self, imp_self, implies_true]
  exact ⟨s, hheld, counted_at_rest (List.nodup_singleton 1) (by decide) hr hidle⟩

/-- A swap is done exactly when no other was since the thread loaded the counter, though the
pointer may have come back to what it was. -/
theorem swap_done_iff (hn : blocks.Nodup) (hr : Reachable W threads blocks s)
    (hawake : Awake W s) {phase : Phase B} (hphase : phase ∈ s.threads) {since : ℕ}
    (hswap : (∃ ctr next pNext, phase = .popSwap ctr since next pNext) ∨
      ∃ val ctr ptr, phase = .pushSwap val ctr since ptr) :
    (s.act W phase).2.2.swaps = s.swaps + 1 ↔ s.swaps = since := by
  obtain ⟨stack, h⟩ := hr.inv hn
  have hfresh := h.fresh phase hphase
  obtain ⟨ctr, next, pNext, rfl⟩ | ⟨val, ctr, ptr, rfl⟩ := hswap
  · obtain ⟨hle, hctr, hsame⟩ := hfresh
    by_cases hc : s.top.ctr = ctr ∧ s.top.ptr = some next
    · simp only [State.act, State.swap, hc, and_self, if_true, true_iff]
      exact h.unmoved hle (hawake _ hphase since rfl) (hc.1.trans hctr)
    · simp only [State.act, State.swap, hc, if_false]
      refine ⟨fun he => by omega, fun he => absurd ⟨?_, (hsame he).1⟩ hc⟩
      rw [h.ctr, he, hctr]
  · obtain ⟨hle, hctr, hsame, _⟩ := hfresh
    by_cases hc : s.top.ctr = ctr ∧ s.top.ptr = ptr
    · simp only [State.act, State.swap, hc, and_self, if_true, true_iff]
      exact h.unmoved hle (hawake _ hphase since rfl) (hc.1.trans hctr)
    · simp only [State.act, State.swap, hc, if_false]
      refine ⟨fun he => by omega, fun he => absurd ⟨?_, hsame he⟩ hc⟩
      rw [h.ctr, he, hctr]

theorem swap_done_iff_overtaken : ∃ s : State ℕ, s.swaps = 2 ∧
    ((s.act UInt64.size (.popSwap 1 1 1 none)).2.2.swaps = s.swaps + 1 ↔ s.swaps = 1) := by
  obtain ⟨s, _, _, hr, hthreads, hswaps, _⟩ := overtaken_run
  have hawake : Awake UInt64.size s := awake_of_lt (by rw [hswaps]; decide)
  have hphase : .popSwap 1 1 1 none ∈ s.threads := by
    rw [hthreads]
    exact List.mem_cons_self ..
  exact ⟨s, hswaps, swap_done_iff (List.nodup_singleton 1) hr hawake hphase
    (.inl ⟨1, 1, none, rfl⟩)⟩

end

end MemPool
end QatDcSample
