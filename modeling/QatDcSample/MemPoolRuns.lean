import QatDcSample.MemPool
import QatDcSample.Lib.Tally
import Mathlib.Data.List.Count
import Mathlib.Data.List.Perm.Basic
import Mathlib.Data.List.Nodup

/-!
# What the memory pools guarantee

In every interleaving in which no thread sleeps while the counter of the top goes all
the way round, each block of a pool is in one place: on the stack, with a thread on its
way, or with the caller it was handed out to.
-/

namespace QatDcSample
namespace MemPool

open LinkedList Tally

variable {B : Type}

/-- The block a thread has on its way. -/
def Phase.carried : Phase B → List B
  | .idle | .popLoad | .popPtr .. | .popNext .. | .popSwap .. | .pushed _ => []
  | .popped next | .claimed next => [next]
  | .pushLoad val | .pushPtr val .. | .pushLink val .. | .pushSwap val .. => [val]

/-- The swaps whose update of `availBlks` is still to come. -/
def Phase.taken : Phase B → ℕ
  | .popped _ => 1
  | _ => 0

def Phase.returned : Phase B → ℕ
  | .pushed _ => 1
  | _ => 0

/-- What a thread loaded is so long as the top was not swapped since. -/
def Phase.Fresh (W : ℕ) (s : State B) : Phase B → Prop
  | .idle | .popLoad | .popped _ | .claimed _ | .pushLoad _ | .pushed _ => True
  | .popPtr ctr since => since ≤ s.swaps ∧ ctr = since % W
  | .popNext ctr since next =>
      since ≤ s.swaps ∧ ctr = since % W ∧ (s.swaps = since → s.top.ptr = some next)
  | .popSwap ctr since next pNext =>
      since ≤ s.swaps ∧ ctr = since % W ∧
        (s.swaps = since → s.top.ptr = some next ∧ s.pNext next = pNext)
  | .pushPtr _ ctr since => since ≤ s.swaps ∧ ctr = since % W
  | .pushLink _ ctr since ptr =>
      since ≤ s.swaps ∧ ctr = since % W ∧ (s.swaps = since → s.top.ptr = ptr)
  | .pushSwap val ctr since ptr =>
      since ≤ s.swaps ∧ ctr = since % W ∧ (s.swaps = since → s.top.ptr = ptr) ∧
        s.pNext val = ptr

/-- When a thread loaded the counter. -/
def Phase.since : Phase B → Option ℕ
  | .idle | .popLoad | .popped _ | .claimed _ | .pushLoad _ | .pushed _ => none
  | .popPtr _ since | .popNext _ since _ | .popSwap _ since _ _ => some since
  | .pushPtr _ _ since | .pushLink _ _ since _ | .pushSwap _ _ since _ => some since

/-- No thread sleeps while the counter goes all the way round. -/
def Awake (W : ℕ) (s : State B) : Prop :=
  ∀ phase ∈ s.threads, ∀ since, phase.since = some since → s.swaps < since + W

/-- The blocks with the threads. -/
def carriedBy (threads : List (Phase B)) : List B := threads.flatMap Phase.carried

section
variable (before after : List (Phase B)) (phase : Phase B)

theorem carriedBy_split : carriedBy (before ++ phase :: after) =
    carriedBy before ++ (phase.carried ++ carriedBy after) := by
  simp only [carriedBy, List.flatMap_append, List.flatMap_cons]

end

variable [DecidableEq B]

/-- The blocks `all` of a pool, those on the stack first. -/
structure Inv (W : ℕ) (all : List B) (s : State B) (stack : List B) : Prop where
  linked : Linked s.pNext s.top.ptr stack
  ctr : s.top.ctr = s.swaps % W
  place : ∀ b, stack.count b + s.held.count b + (carriedBy s.threads).count b = all.count b
  avail : (s.availBlks + tally Phase.returned s.threads) % UInt64.size =
    (stack.length + tally Phase.taken s.threads) % UInt64.size
  inUse : ∀ b, b ∈ stack ∨ b ∈ carriedBy s.threads → s.isInUse b = false
  used : ∀ b, b ∈ s.held → s.isInUse b = true
  replay : Op.replay s.ops [] = some stack
  fresh : ∀ phase ∈ s.threads, phase.Fresh W s

section
variable {W : ℕ} {all stack : List B} {s s' : State B}

theorem count_pos {l : List B} {b : B} (h : b ∈ l) : 0 < l.count b := List.count_pos_iff.mpr h

theorem replay_snoc {op : Op B} {l l' : List B} : ∀ {ops : List (Op B)} {l₀ : List B},
    Op.replay ops l₀ = some l → op.apply l = some l' →
      Op.replay (ops ++ [op]) l₀ = some l' := by
  intro ops
  induction ops with
  | nil =>
    intro l₀ h hop
    cases h
    simp only [List.nil_append, Op.replay, hop, Option.bind_some]
  | cons first ops ih =>
    intro l₀ h hop
    simp only [Op.replay, List.cons_append, Option.bind_eq_some_iff] at h ⊢
    obtain ⟨l₁, hfirst, hrest⟩ := h
    exact ⟨l₁, hfirst, ih hrest hop⟩

section
omit [DecidableEq B]

theorem at_rest {l : List (Phase B)} (hidle : ∀ phase ∈ l, phase = .idle) :
    carriedBy l = [] ∧ tally Phase.returned l = 0 ∧ tally Phase.taken l = 0 := by
  induction l with
  | nil => exact ⟨rfl, rfl, rfl⟩
  | cons x l ih =>
    obtain ⟨hc, hr, ht⟩ := ih fun phase hphase => hidle phase (List.mem_cons_of_mem _ hphase)
    have hx : x = .idle := hidle x (List.mem_cons_self ..)
    rw [carriedBy] at hc
    rw [carriedBy, List.flatMap_cons, tally, tally, hc, hr, ht, hx]
    exact ⟨rfl, rfl, rfl⟩

/-! ### What a step leaves of what the other threads loaded -/

theorem Phase.Fresh.congr {phase : Phase B} (h : phase.Fresh W s) (hswaps : s'.swaps = s.swaps)
    (htop : s'.top = s.top) (hnext : s'.pNext = s.pNext) : phase.Fresh W s' := by
  cases phase <;> simp only [Phase.Fresh, hswaps, htop, hnext] at h ⊢ <;> exact h

/-- After a swap nothing that was loaded before it matters any more. -/
theorem Phase.Fresh.swapped {phase : Phase B} (h : phase.Fresh W s)
    (hswaps : s'.swaps = s.swaps + 1) (hnext : s'.pNext = s.pNext) : phase.Fresh W s' := by
  cases phase with
  | idle | popLoad | popped | claimed | pushLoad | pushed => trivial
  | popPtr ctr since | pushPtr _ ctr since =>
    obtain ⟨hle, hctr⟩ := h
    exact ⟨by omega, hctr⟩
  | popNext ctr since next | popSwap ctr since next pNext | pushLink _ ctr since ptr =>
    obtain ⟨hle, hctr, _⟩ := h
    exact ⟨by omega, hctr, fun he => by omega⟩
  | pushSwap val ctr since ptr =>
    obtain ⟨hle, hctr, _, hlink⟩ := h
    refine ⟨by omega, hctr, fun he => by omega, ?_⟩
    rw [hnext]
    exact hlink

end

theorem Phase.Fresh.link {phase : Phase B} {val : B} {v : Option B} (h : phase.Fresh W s)
    (hlinked : Linked s.pNext s.top.ptr stack) (hval : val ∉ stack) (hc : val ∉ phase.carried)
    (hswaps : s'.swaps = s.swaps) (htop : s'.top = s.top)
    (hnext : s'.pNext = Function.update s.pNext val v) : phase.Fresh W s' := by
  cases phase with
  | idle | popLoad | popped | claimed | pushLoad | pushed => trivial
  | popPtr ctr since | pushPtr _ ctr since =>
    obtain ⟨hle, hctr⟩ := h
    exact ⟨by rw [hswaps]; exact hle, hctr⟩
  | popNext ctr since next | pushLink _ ctr since ptr =>
    obtain ⟨hle, hctr, hsame⟩ := h
    refine ⟨by rw [hswaps]; exact hle, hctr, ?_⟩
    rw [hswaps, htop]
    exact hsame
  | popSwap ctr since next pNext =>
    obtain ⟨hle, hctr, hsame⟩ := h
    refine ⟨by rw [hswaps]; exact hle, hctr, ?_⟩
    rw [hswaps, htop, hnext]
    intro he
    obtain ⟨hptr, hn⟩ := hsame he
    rw [hptr] at hlinked
    obtain ⟨rest, hrest, _⟩ := hlinked.eq_cons
    have hne : next ≠ val := by
      intro heq
      apply hval
      rw [hrest, ← heq]
      exact List.mem_cons_self ..
    refine ⟨hptr, ?_⟩
    rw [Function.update_of_ne hne]
    exact hn
  | pushSwap val' ctr since ptr =>
    obtain ⟨hle, hctr, hsame, hlink⟩ := h
    have hne : val' ≠ val := by
      intro heq
      apply hc
      rw [heq]
      exact List.mem_singleton_self val
    refine ⟨by rw [hswaps]; exact hle, hctr, ?_, ?_⟩
    · rw [hswaps, htop]
      exact hsame
    · rw [hnext, Function.update_of_ne hne]
      exact hlink

/-! ### The steps of a thread -/

section
variable {before after : List (Phase B)} {phase phase' : Phase B}

theorem Inv.split (h : Inv W all s stack) (ht : s.threads = before ++ phase :: after) :
    phase.Fresh W s ∧ ∀ x, x ∈ before ∨ x ∈ after → x.Fresh W s := by
  constructor
  · apply h.fresh
    rw [ht]
    simp
  · intro x hx
    apply h.fresh
    rw [ht]
    obtain hx | hx := hx <;> simp [hx]

/-- The invariant with the thread at work apart from the others. -/
theorem Inv.parts (h : Inv W all s stack) (ht : s.threads = before ++ phase :: after) :
    (∀ b, stack.count b + s.held.count b +
        (carriedBy before ++ (phase.carried ++ carriedBy after)).count b = all.count b) ∧
      (s.availBlks + (tally Phase.returned before +
          (phase.returned + tally Phase.returned after))) % UInt64.size =
        (stack.length + (tally Phase.taken before +
          (phase.taken + tally Phase.taken after))) % UInt64.size ∧
      ∀ b, b ∈ stack ∨ b ∈ carriedBy before ++ (phase.carried ++ carriedBy after) →
        s.isInUse b = false := by
  have hplace := h.place
  have havail := h.avail
  have hinUse := h.inUse
  rw [ht] at hplace havail hinUse
  simp only [carriedBy_split, tally_split] at hplace havail hinUse
  exact ⟨hplace, havail, hinUse⟩

theorem Inv.once (h : Inv W all s stack) (ht : s.threads = before ++ phase :: after)
    (hall : all.Nodup) (b : B) : stack.count b + s.held.count b +
      (carriedBy before ++ (phase.carried ++ carriedBy after)).count b ≤ 1 := by
  rw [(h.parts ht).1 b]
  exact List.nodup_iff_count_le_one.mp hall b

omit [DecidableEq B] in
theorem fresh_join (ht : s.threads = before ++ phase :: after) (hp : phase.Fresh W s)
    (hrest : ∀ x, x ∈ before ∨ x ∈ after → x.Fresh W s) : ∀ x ∈ s.threads, x.Fresh W s := by
  intro x hx
  rw [ht, List.mem_append, List.mem_cons] at hx
  obtain hx | rfl | hx := hx
  · exact hrest x (.inl hx)
  · exact hp
  · exact hrest x (.inr hx)

theorem Inv.moves (h : Inv W all s stack) (ht : s.threads = before ++ phase :: after)
    (hcarried : phase'.carried = phase.carried) (htaken : phase'.taken = phase.taken)
    (hreturned : phase'.returned = phase.returned) (hfresh : phase'.Fresh W s) :
    Inv W all { s with threads := before ++ phase' :: after } stack := by
  obtain ⟨hplace, havail, hinUse⟩ := h.parts ht
  constructor
  · exact h.linked
  · exact h.ctr
  · intro b
    rw [carriedBy_split, hcarried]
    exact hplace b
  · simp only [tally_split, htaken, hreturned]
    exact havail
  · intro b hb
    rw [carriedBy_split, hcarried] at hb
    exact hinUse b hb
  · exact h.used
  · exact h.replay
  · obtain ⟨_, hrest⟩ := h.split ht
    apply fresh_join rfl
    · exact hfresh.congr rfl rfl rfl
    · intro x hx
      exact (hrest x hx).congr rfl rfl rfl

/-- The counter came round to the value loaded only if it did not move. -/
theorem Inv.unmoved (h : Inv W all s stack) {since : ℕ} (hle : since ≤ s.swaps)
    (hwin : s.swaps < since + W) (hctr : s.top.ctr = since % W) : s.swaps = since := by
  have hmod : s.swaps % W = since % W := by rw [← h.ctr, hctr]
  have hd : (s.swaps - since) % W = 0 := Nat.sub_mod_eq_zero_of_mod_eq hmod
  rw [Nat.mod_eq_of_lt (by omega)] at hd
  omega

theorem Inv.pop (h : Inv W all s stack) {ctr since : ℕ} {next : B} {pNext : Option B}
    (ht : s.threads = before ++ .popSwap ctr since next pNext :: after) (hawake : Awake W s)
    (hctr : s.top.ctr = ctr) (hptr : s.top.ptr = some next) :
    ∃ rest, stack = next :: rest ∧
      Inv W all { s with
        top := ⟨(ctr + 1) % W, pNext⟩
        swaps := s.swaps + 1
        ops := s.ops ++ [.pop next]
        threads := before ++ .popped next :: after } rest := by
  obtain ⟨hplace, havail, hinUse⟩ := h.parts ht
  obtain ⟨⟨hle, hloaded, hsame⟩, hrest⟩ := h.split ht
  have hwin := hawake (.popSwap ctr since next pNext) (by rw [ht]; simp) since rfl
  have hnow : s.swaps = since := h.unmoved hle hwin (hctr.trans hloaded)
  obtain ⟨_, hnext⟩ := hsame hnow
  have hlinked := h.linked
  rw [hptr] at hlinked
  obtain ⟨rest, rfl, hchain⟩ := hlinked.eq_cons
  rw [hnext] at hchain
  refine ⟨rest, rfl, ?_⟩
  constructor
  · exact hchain
  · change (ctr + 1) % W = (s.swaps + 1) % W
    rw [← hctr, h.ctr, Nat.mod_add_mod]
  · intro b
    have hb := hplace b
    simp only [carriedBy_split, Phase.carried, List.count_append, List.count_cons, List.count_nil]
      at hb ⊢
    omega
  · simp only [tally_split, Phase.taken, Phase.returned, List.length_cons] at havail ⊢
    have he : rest.length + (tally Phase.taken before + (1 + tally Phase.taken after)) =
        rest.length + 1 + (tally Phase.taken before + (0 + tally Phase.taken after)) := by omega
    rw [he]
    exact havail
  · intro b hb
    apply hinUse b
    simp only [carriedBy_split, Phase.carried, List.mem_append, List.mem_cons, List.not_mem_nil,
      or_false, false_or] at hb ⊢
    tauto
  · exact h.used
  · exact replay_snoc h.replay (if_pos rfl)
  · apply fresh_join rfl
    · trivial
    · intro x hx
      exact (hrest x hx).swapped rfl rfl

theorem Inv.push (h : Inv W all s stack) {ctr since : ℕ} {val : B} {ptr : Option B}
    (ht : s.threads = before ++ .pushSwap val ctr since ptr :: after)
    (hctr : s.top.ctr = ctr) (hptr : s.top.ptr = ptr) :
    Inv W all { s with
      top := ⟨(ctr + 1) % W, some val⟩
      swaps := s.swaps + 1
      ops := s.ops ++ [.push val]
      threads := before ++ .pushed val :: after } (val :: stack) := by
  obtain ⟨hplace, havail, hinUse⟩ := h.parts ht
  obtain ⟨⟨_, _, _, hlink⟩, hrest⟩ := h.split ht
  constructor
  · refine ⟨rfl, ?_⟩
    change Linked s.pNext (s.pNext val) stack
    rw [hlink, ← hptr]
    exact h.linked
  · change (ctr + 1) % W = (s.swaps + 1) % W
    rw [← hctr, h.ctr, Nat.mod_add_mod]
  · intro b
    have hb := hplace b
    simp only [carriedBy_split, Phase.carried, List.count_append, List.count_cons, List.count_nil]
      at hb ⊢
    omega
  · simp only [tally_split, Phase.taken, Phase.returned, List.length_cons] at havail ⊢
    have hl : s.availBlks + (tally Phase.returned before + (1 + tally Phase.returned after)) =
        s.availBlks + (tally Phase.returned before + (0 + tally Phase.returned after)) + 1 := by
      omega
    have hr : stack.length + 1 + (tally Phase.taken before + (0 + tally Phase.taken after)) =
        stack.length + (tally Phase.taken before + (0 + tally Phase.taken after)) + 1 := by omega
    rw [hl, hr, Nat.add_mod, havail, ← Nat.add_mod]
  · intro b hb
    apply hinUse b
    simp only [carriedBy_split, Phase.carried, List.mem_append, List.mem_cons, List.not_mem_nil,
      or_false, false_or] at hb ⊢
    tauto
  · exact h.used
  · exact replay_snoc h.replay rfl
  · apply fresh_join rfl
    · trivial
    · intro x hx
      exact (hrest x hx).swapped rfl rfl

/-- The pool was empty where the load found no block. -/
theorem Inv.noted (h : Inv W all s stack) (hptr : s.top.ptr = none) :
    Inv W all { s with ops := s.ops ++ [.empty] } stack := by
  have hnil : stack = [] := by
    have hlinked := h.linked
    rw [hptr] at hlinked
    exact hlinked.eq_nil
  constructor
  · exact h.linked
  · exact h.ctr
  · exact h.place
  · exact h.avail
  · exact h.inUse
  · exact h.used
  · apply replay_snoc h.replay
    rw [hnil]
    rfl
  · intro x hx
    exact (h.fresh x hx).congr rfl rfl rfl

theorem Inv.counted (h : Inv W all s stack) {next : B}
    (ht : s.threads = before ++ .popped next :: after) :
    Inv W all { s with
      availBlks := sub64 s.availBlks 1
      threads := before ++ .claimed next :: after } stack := by
  obtain ⟨hplace, havail, hinUse⟩ := h.parts ht
  obtain ⟨_, hrest⟩ := h.split ht
  constructor
  · exact h.linked
  · exact h.ctr
  · intro b
    rw [carriedBy_split]
    exact hplace b
  · simp only [tally_split, Phase.taken, Phase.returned] at havail ⊢
    simp only [sub64, UInt64.size] at havail ⊢
    omega
  · intro b hb
    rw [carriedBy_split] at hb
    exact hinUse b hb
  · exact h.used
  · exact h.replay
  · apply fresh_join rfl
    · trivial
    · intro x hx
      exact (hrest x hx).congr rfl rfl rfl

theorem Inv.handed (h : Inv W all s stack) (hall : all.Nodup) {next : B}
    (ht : s.threads = before ++ .claimed next :: after) :
    Inv W all { s with
      isInUse := Function.update s.isInUse next true
      held := next :: s.held
      threads := before ++ .idle :: after } stack := by
  have honce := h.once ht hall
  obtain ⟨hplace, havail, hinUse⟩ := h.parts ht
  simp only [Phase.carried, List.count_append, List.count_cons, List.count_nil] at honce hplace
  obtain ⟨_, hrest⟩ := h.split ht
  constructor
  · exact h.linked
  · exact h.ctr
  · intro b
    have hb := hplace b
    simp only [carriedBy_split, Phase.carried, List.count_append, List.count_cons, List.count_nil]
    omega
  · simp only [tally_split, Phase.taken, Phase.returned] at havail ⊢
    exact havail
  · intro b hb
    have hne : b ≠ next := by
      rintro rfl
      have hb1 := honce b
      simp only [beq_self_eq_true, if_true] at hb1
      simp only [carriedBy_split, Phase.carried, List.mem_append, List.not_mem_nil, false_or] at hb
      obtain hb | hb | hb := hb <;> have hpos := count_pos hb <;> omega
    change Function.update s.isInUse next true b = false
    rw [Function.update_of_ne hne]
    apply hinUse b
    simp only [carriedBy_split, Phase.carried, List.mem_append, List.mem_cons, List.not_mem_nil,
      or_false, false_or] at hb ⊢
    tauto
  · intro b hb
    change Function.update s.isInUse next true b = true
    by_cases hne : b = next
    · rw [hne, Function.update_self]
    · rw [Function.update_of_ne hne]
      apply h.used b
      exact (List.mem_cons.mp hb).resolve_left hne
  · exact h.replay
  · apply fresh_join rfl
    · trivial
    · intro x hx
      exact (hrest x hx).congr rfl rfl rfl

theorem Inv.linkTop (h : Inv W all s stack) (hall : all.Nodup) {ctr since : ℕ} {val : B}
    {ptr : Option B} (ht : s.threads = before ++ .pushLink val ctr since ptr :: after) :
    Inv W all { s with
      pNext := Function.update s.pNext val ptr
      threads := before ++ .pushSwap val ctr since ptr :: after } stack := by
  have honce := h.once ht hall val
  obtain ⟨hplace, havail, hinUse⟩ := h.parts ht
  simp only [Phase.carried, List.count_append, List.count_cons, List.count_nil, beq_self_eq_true,
    if_true] at honce
  obtain ⟨⟨hle, hctr, hsame⟩, hrest⟩ := h.split ht
  have hstack : val ∉ stack := by
    intro hmem
    have hpos := count_pos hmem
    omega
  constructor
  · exact h.linked.update hstack
  · exact h.ctr
  · intro b
    rw [carriedBy_split]
    exact hplace b
  · simp only [tally_split]
    exact havail
  · intro b hb
    rw [carriedBy_split] at hb
    exact hinUse b hb
  · exact h.used
  · exact h.replay
  · apply fresh_join rfl
    · exact ⟨hle, hctr, hsame, Function.update_self ..⟩
    · intro x hx
      have hc : val ∉ x.carried := by
        intro hmem
        obtain hx | hx := hx
        · have hpos : 0 < (carriedBy before).count val :=
            count_pos (List.mem_flatMap.mpr ⟨x, hx, hmem⟩)
          omega
        · have hpos : 0 < (carriedBy after).count val :=
            count_pos (List.mem_flatMap.mpr ⟨x, hx, hmem⟩)
          omega
      exact (hrest x hx).link h.linked hstack hc rfl rfl rfl

theorem Inv.freed (h : Inv W all s stack) {val : B}
    (ht : s.threads = before ++ .pushed val :: after) :
    Inv W all { s with
      availBlks := add64 s.availBlks 1
      threads := before ++ .idle :: after } stack := by
  obtain ⟨hplace, havail, hinUse⟩ := h.parts ht
  obtain ⟨_, hrest⟩ := h.split ht
  constructor
  · exact h.linked
  · exact h.ctr
  · intro b
    rw [carriedBy_split]
    exact hplace b
  · simp only [tally_split, Phase.taken, Phase.returned] at havail ⊢
    simp only [add64, UInt64.size] at havail ⊢
    omega
  · intro b hb
    rw [carriedBy_split] at hb
    exact hinUse b hb
  · exact h.used
  · exact h.replay
  · apply fresh_join rfl
    · trivial
    · intro x hx
      exact (hrest x hx).congr rfl rfl rfl

theorem Inv.gives (h : Inv W all s stack) (hall : all.Nodup) {b : B} (hb : b ∈ s.held)
    (ht : s.threads = before ++ .idle :: after) :
    Inv W all { s with
      held := s.held.erase b
      isInUse := Function.update s.isInUse b false
      threads := before ++ .pushLoad b :: after } stack := by
  have honce := h.once ht hall
  obtain ⟨hplace, havail, hinUse⟩ := h.parts ht
  simp only [Phase.carried, List.count_append, List.count_nil] at honce hplace
  have hpos := count_pos hb
  obtain ⟨_, hrest⟩ := h.split ht
  constructor
  · exact h.linked
  · exact h.ctr
  · intro x
    have hx := hplace x
    simp only [carriedBy_split, Phase.carried, List.count_append, List.count_cons, List.count_nil,
      List.count_erase]
    by_cases he : b = x
    · subst he
      simp only [beq_self_eq_true, if_true]
      omega
    · simp only [beq_iff_eq, he, if_false]
      omega
  · simp only [tally_split, Phase.taken, Phase.returned] at havail ⊢
    exact havail
  · intro x hx
    change Function.update s.isInUse b false x = false
    by_cases he : x = b
    · rw [he, Function.update_self]
    · rw [Function.update_of_ne he]
      apply hinUse x
      simp only [carriedBy_split, Phase.carried, List.mem_append, List.mem_cons,
        List.not_mem_nil, or_false, false_or] at hx ⊢
      tauto
  · intro x hx
    change Function.update s.isInUse b false x = true
    have hcount := count_pos hx
    simp only [List.count_erase] at hcount
    have hne : x ≠ b := by
      rintro rfl
      have hx1 := honce x
      simp only [beq_self_eq_true, if_true] at hcount
      omega
    rw [Function.update_of_ne hne]
    exact h.used x (List.mem_of_mem_erase hx)
  · exact h.replay
  · apply fresh_join rfl
    · trivial
    · intro x hx
      exact (hrest x hx).congr rfl rfl rfl

theorem Inv.act (h : Inv W all s stack) (hall : all.Nodup) (hawake : Awake W s)
    {answer : Option (Answer B)} (ht : s.threads = before ++ phase :: after)
    (hact : s.act W phase = (answer, phase', s')) :
    ∃ stack', Inv W all { s' with threads := before ++ phase' :: after } stack' := by
  obtain ⟨hfresh, _⟩ := h.split ht
  cases phase with
  | idle =>
    simp only [State.act, Prod.mk.injEq] at hact
    obtain ⟨_, rfl, rfl⟩ := hact
    exact ⟨stack, h.moves ht rfl rfl rfl trivial⟩
  | popLoad =>
    simp only [State.act, Prod.mk.injEq] at hact
    obtain ⟨_, rfl, rfl⟩ := hact
    exact ⟨stack, h.moves ht rfl rfl rfl ⟨Nat.le_refl _, h.ctr⟩⟩
  | popPtr ctr since =>
    obtain ⟨hle, hctr⟩ := hfresh
    cases hptr : s.top.ptr with
    | none =>
      simp only [State.act, hptr, Prod.mk.injEq] at hact
      obtain ⟨_, rfl, rfl⟩ := hact
      exact ⟨stack, (h.noted hptr).moves ht rfl rfl rfl trivial⟩
    | some next =>
      simp only [State.act, hptr, Prod.mk.injEq] at hact
      obtain ⟨_, rfl, rfl⟩ := hact
      exact ⟨stack, h.moves ht rfl rfl rfl ⟨hle, hctr, fun _ => hptr⟩⟩
  | popNext ctr since next =>
    obtain ⟨hle, hctr, hsame⟩ := hfresh
    simp only [State.act, Prod.mk.injEq] at hact
    obtain ⟨_, rfl, rfl⟩ := hact
    exact ⟨stack, h.moves ht rfl rfl rfl ⟨hle, hctr, fun he => ⟨hsame he, rfl⟩⟩⟩
  | popSwap ctr since next pNext =>
    by_cases hc : s.top.ctr = ctr ∧ s.top.ptr = some next
    · simp only [State.act, State.swap, hc, and_self, if_true, Prod.mk.injEq] at hact
      obtain ⟨_, rfl, rfl⟩ := hact
      obtain ⟨rest, _, hrest⟩ := h.pop ht hawake hc.1 hc.2
      exact ⟨rest, hrest⟩
    · simp only [State.act, State.swap, hc, if_false, Prod.mk.injEq] at hact
      obtain ⟨_, rfl, rfl⟩ := hact
      exact ⟨stack, h.moves ht rfl rfl rfl trivial⟩
  | popped next =>
    simp only [State.act, Prod.mk.injEq] at hact
    obtain ⟨_, rfl, rfl⟩ := hact
    exact ⟨stack, h.counted ht⟩
  | claimed next =>
    simp only [State.act, Prod.mk.injEq] at hact
    obtain ⟨_, rfl, rfl⟩ := hact
    exact ⟨stack, h.handed hall ht⟩
  | pushLoad val =>
    simp only [State.act, Prod.mk.injEq] at hact
    obtain ⟨_, rfl, rfl⟩ := hact
    exact ⟨stack, h.moves ht rfl rfl rfl ⟨Nat.le_refl _, h.ctr⟩⟩
  | pushPtr val ctr since =>
    obtain ⟨hle, hctr⟩ := hfresh
    simp only [State.act, Prod.mk.injEq] at hact
    obtain ⟨_, rfl, rfl⟩ := hact
    exact ⟨stack, h.moves ht rfl rfl rfl ⟨hle, hctr, fun _ => rfl⟩⟩
  | pushLink val ctr since ptr =>
    simp only [State.act, Prod.mk.injEq] at hact
    obtain ⟨_, rfl, rfl⟩ := hact
    exact ⟨stack, h.linkTop hall ht⟩
  | pushSwap val ctr since ptr =>
    by_cases hc : s.top.ctr = ctr ∧ s.top.ptr = ptr
    · simp only [State.act, State.swap, hc, and_self, if_true, Prod.mk.injEq] at hact
      obtain ⟨_, rfl, rfl⟩ := hact
      exact ⟨val :: stack, h.push ht hc.1 hc.2⟩
    · simp only [State.act, State.swap, hc, if_false, Prod.mk.injEq] at hact
      obtain ⟨_, rfl, rfl⟩ := hact
      exact ⟨stack, h.moves ht rfl rfl rfl trivial⟩
  | pushed val =>
    simp only [State.act, Prod.mk.injEq] at hact
    obtain ⟨_, rfl, rfl⟩ := hact
    exact ⟨stack, h.freed ht⟩

theorem Inv.step (h : Inv W all s stack) (hall : all.Nodup) (hawake : Awake W s) {e : Event B}
    (hs : Step W s e s') : ∃ stack', Inv W all s' stack' := by
  cases e with
  | alloc =>
    obtain ⟨before, after, ht, rfl⟩ := hs
    refine ⟨stack, h.moves ht ?_ ?_ ?_ ?_⟩ <;> split <;> trivial
  | free b =>
    obtain ⟨before, after, ht, hb, rfl⟩ := hs
    exact ⟨stack, h.gives hall hb ht⟩
  | act answer =>
    obtain ⟨before, phase, after, ht, _, _, rfl⟩ := hs
    exact h.act hall hawake ht rfl
  | active active =>
    rw [show s' = _ from hs]
    exact ⟨stack, h.linked, h.ctr, h.place, h.avail, h.inUse, h.used, h.replay,
      fun x hx => (h.fresh x hx).congr rfl rfl rfl⟩

end

end

end MemPool
end QatDcSample
