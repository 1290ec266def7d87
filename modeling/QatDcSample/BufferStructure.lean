import QatDcSample.Lib.Ledger
import QatDcSample.Blocks
import QatDcSample.WorkerCalls

/-!
# The intermediate buffer structure

What a worker allocates, stores, reads and frees, as ghost state with a memory of its
own, and how far the construction loop gets (`dc_qat_funcs.c:376-410`): it builds the
whole structure, or all but the last data pointer, or leaves an entry through which
the clean-up cannot pass.
-/

namespace QatDcSample
open EventProgram Prog BlockMemory CpaStatus

structure Tracking where
  mem : Mem
  blocks : Ledger BlockId
  /-- A pointer was followed that is `NULL` or dangling, or a field was read that was
  never stored to. -/
  unsound : Bool
  inits : List Completion
  /-- A completion was destroyed that was not initialised. -/
  bare : Bool
  allocations : ℕ
  failures : List ℕ
  numInterBuffLists : ℕ

namespace Tracking

def start (m : Mem) : Tracking := ⟨m, .empty, false, [], false, 0, [], 0⟩

def blocksAfter (L : Ledger BlockId) : (c : Call) → c.Resp → Ledger BlockId
  | .memAlloc _ _, some (b, _) => L.acquire b
  | .memFree _ b, _ => L.release b
  | _, _ => L

def unsoundAfter (m : Mem) (v : Bool) : Call → Bool
  | .load p f => v || (fieldOf m p f).isNone
  | .store p _ _ => v || !p.any fun b => m.Live b
  | _ => v

def initsAfter (l : List Completion) : Call → List Completion
  | .completionInit k => k :: l
  | _ => l

def bareAfter (inits : List Completion) (v : Bool) : Call → Bool
  | .completionDestroy k => v || !inits.contains k
  | _ => v

def allocationsAfter (n : ℕ) : Call → ℕ
  | .memAlloc _ _ => n + 1
  | _ => n

def failuresAfter (n : ℕ) (l : List ℕ) : (c : Call) → c.Resp → List ℕ
  | .memAlloc _ _, none => n :: l
  | _, _ => l

def numAfter (n : ℕ) : (c : Call) → c.Resp → ℕ
  | .apiSize .cpaDcGetNumIntermediateBuffers _, r => r.2
  | _, _ => n

def next (g : Tracking) (c : Call) (r : c.Resp) : Tracking where
  mem := memAfter (.worker 0) g.mem c r
  blocks := blocksAfter g.blocks c r
  unsound := unsoundAfter g.mem g.unsound c
  inits := initsAfter g.inits c
  bare := bareAfter g.inits g.bare c
  allocations := allocationsAfter g.allocations c
  failures := failuresAfter g.allocations g.failures c r
  numInterBuffLists := numAfter g.numInterBuffLists c r

def Rely (g : Tracking) : (c : Call) → c.Resp → Prop
  | .memAlloc _ _, some (b, _) => b = g.mem.next
  | .enterFrame, (b, _) => b = g.mem.next
  | .load p f, v => ∀ v' ∈ fieldOf g.mem p f, v = v'
  | _, _ => True

/-- Nothing went wrong, and these blocks are allocated. -/
structure Holds (g : Tracking) (out : List BlockId) : Prop where
  owes : g.blocks.Owes out
  named : ∀ b ∈ g.blocks.acquired, b < g.mem.next
  sound : g.unsound = false
  proper : g.bare = false

end Tracking

@[reducible] def trackProtocol : Protocol Call Call.Resp where
  σ := Tracking
  next := Tracking.next
  rely := Tracking.Rely
  guar := fun _ _ => True

variable {g g' : Tracking} {out : List BlockId}

theorem next_silent (g : Tracking) {c : Call} (hc : c.Silent) (r : c.Resp) : g.next c r = g := by
  cases c <;> first | rfl | exact hc.elim | skip
  case apiSize f inst => cases f <;> first | rfl | exact absurd rfl hc

theorem neutral_silent {c : Call} (hc : c.Silent) : Neutral trackProtocol c :=
  fun g => ⟨trivial, next_silent g hc⟩

theorem track_silent {α : Type} {p : Code α} (hp : Only Call.Silent p) (g : Tracking) :
    Meets trackProtocol p (fun _ g' => g' = g) g :=
  meets_neutral (only_mono (fun _ hc => neutral_silent hc) hp) g

/-! ### Single calls -/

namespace Tracking

theorem Holds.alloc (h : g.Holds out) (a : Allocator) (n base : ℕ) :
    (g.next (.memAlloc a n) (some (g.mem.next, base))).Holds (g.mem.next :: out) := by
  refine ⟨h.owes.acquire fun hm => ?_, fun b hb => ?_, h.sound, h.proper⟩
  · exact absurd (h.named _ hm) (Nat.lt_irrefl _)
  · rcases List.mem_cons.mp hb with rfl | hb
    · exact Nat.lt_succ_self _
    · exact Nat.lt_succ_of_lt (h.named b hb)

theorem Holds.refused (h : g.Holds out) (a : Allocator) (n : ℕ) :
    (g.next (.memAlloc a n) none).Holds out := ⟨h.owes, h.named, h.sound, h.proper⟩

theorem Holds.free {b : BlockId} (h : g.Holds (b :: out)) (a : Allocator) :
    (g.next (.memFree a b) ()).Holds out := ⟨h.owes.release, h.named, h.sound, h.proper⟩

theorem Holds.store {b : BlockId} (h : g.Holds out) (hlive : g.mem.Live b) (f : Field) (v : Ptr) :
    (g.next (.store (some b) f v) ()).Holds out := by
  refine ⟨h.owes, h.named, ?_, h.proper⟩
  simp [next, unsoundAfter, h.sound, hlive]

theorem Holds.reorder {out' : List BlockId} (h : g.Holds out) (hp : out.Perm out') :
    g.Holds out' := ⟨h.owes.reorder hp, h.named, h.sound, h.proper⟩

theorem Holds.lt_next {b : BlockId} (h : g.Holds out) (hb : b ∈ out) : b < g.mem.next :=
  h.named b (h.owes.mem hb)

theorem Holds.nodup (h : g.Holds out) : out.Nodup :=
  (h.owes.perm.nodup_iff.mpr h.owes.nodup).of_append_left

theorem next_load {p : Ptr} {f : Field} {v : Ptr} (h : fieldOf g.mem p f = some v) (r : Ptr) :
    g.next (.load p f) r = g := by
  simp [next, memAfter, blocksAfter, unsoundAfter, initsAfter, bareAfter, allocationsAfter,
    failuresAfter, numAfter, h]

end Tracking

theorem track_load {b : BlockId} {f : Field} {v : Ptr} (h : g.mem.read b f = some v) :
    Meets trackProtocol (invoke (.load (some b) f)) (fun r g' => r = v ∧ g' = g) g :=
  ⟨trivial, fun r hr => ⟨hr v h, Tracking.next_load (p := some b) h r⟩⟩

theorem track_memAlloc {Q : CpaStatus × Ptr → Tracking → Prop} {a : Allocator} {n : ℕ}
    (hfail : Q (resource, none) (g.next (.memAlloc a n) none))
    (hok : ∀ base, Q (success, some g.mem.next) (g.next (.memAlloc a n) (some (g.mem.next, base)))) :
    Meets trackProtocol (memAlloc a n) Q g := by
  refine meets_call trivial fun r hr => ?_
  cases r with
  | none => exact hfail
  | some x =>
    obtain ⟨b, base⟩ := x
    obtain rfl : b = g.mem.next := hr
    exact hok base

/-! ### One element -/

/-- No completion was initialised and the number of lists is the same. -/
def SameRest (g g' : Tracking) : Prop :=
  g'.inits = g.inits ∧ g'.numInterBuffLists = g.numInterBuffLists

theorem SameRest.trans {g₁ g₂ g₃ : Tracking} (h : SameRest g₁ g₂) (h' : SameRest g₂ g₃) :
    SameRest g₁ g₃ := ⟨h'.1.trans h.1, h'.2.trans h.2⟩

/-- `&p->f` was given to an allocation whose result is `v`. -/
structure FieldSet (g : Tracking) (b : BlockId) (f : Field) (v : Ptr) (out : List BlockId)
    (g' : Tracking) : Prop where
  holds : g'.Holds (v.toList ++ out)
  stored : g'.mem.read b f = some v
  other : ∀ b' f', (b' = b → f' ≠ f) → g'.mem.read b' f' = g.mem.read b' f'
  live : ∀ b', g.mem.Live b' ∨ v = some b' → g'.mem.Live b'
  fresh : ∀ b', v = some b' → ¬ g.mem.Live b'
  allocations : g'.allocations = g.allocations + 1
  failures : g'.failures = if v = none then g.allocations :: g.failures else g.failures
  rest : SameRest g g'

theorem fieldSet_refused {b : BlockId} (h : g.Holds out) (hb : g.mem.Live b) (f : Field) (n : ℕ) :
    FieldSet g b f none out
      ((g.next (.memAlloc .contig n) none).next (.store (some b) f none) ()) where
  holds := (h.refused .contig n).store hb f none
  stored := Memory.read_write_self hb f none
  other b' f' hne := Memory.read_write_other g.mem hne none
  live b' hb' := by
    rcases hb' with hb' | hb'
    · exact (g.mem.write_live b b' f none).mpr hb'
    · cases hb'
  fresh b' hb' := by cases hb'
  allocations := rfl
  failures := rfl
  rest := ⟨rfl, rfl⟩

theorem fieldSet_granted {b : BlockId} (h : g.Holds out) (hb : g.mem.Live b) (f : Field)
    (n base : ℕ) :
    FieldSet g b f (some g.mem.next) out
      ((g.next (.memAlloc .contig n) (some (g.mem.next, base))).next
        (.store (some b) f (some g.mem.next)) ()) := by
  have hlive : ∀ b', g.mem.Live b' ∨ b' = g.mem.next →
      (g.mem.alloc (.worker 0) ⟨base, n⟩).Live b' :=
    fun b' hb' => (g.mem.live_alloc _ _ b').mpr hb'
  refine ⟨(h.alloc .contig n base).store (hlive b (.inl hb)) f _,
    Memory.read_write_self (hlive b (.inl hb)) f _, fun b' f' hne => ?_, fun b' hb' => ?_,
    fun b' hb' hl => ?_, rfl, rfl, rfl, rfl⟩
  · exact (Memory.read_write_other _ hne _).trans (g.mem.read_alloc _ _ b' f')
  · refine (Memory.write_live _ b b' f _).mpr (hlive b' ?_)
    exact hb'.imp id fun he => (Option.some.inj he).symm
  · obtain rfl := Option.some.inj hb'
    exact absurd hl.1 (Nat.lt_irrefl _)

theorem track_allocField {b : BlockId} (h : g.Holds out) (hb : g.mem.Live b) (f : Field) (n : ℕ) :
    Meets trackProtocol (physContigAllocField (some b) f n)
      (fun st g' => ∃ v, (st = success ↔ v ≠ none) ∧ FieldSet g b f v out g') g := by
  refine meets_seq (M := fun r (g₁ : Tracking) => ∃ v, r.2 = v ∧ (r.1 = success ↔ v ≠ none) ∧
    FieldSet g b f v out (g₁.next (.store (some b) f v) ())) ?_ ?_
  · refine track_memAlloc ⟨none, rfl, by simp, fieldSet_refused h hb f n⟩ fun base => ?_
    exact ⟨some g.mem.next, rfl, by simp, fieldSet_granted h hb f n base⟩
  · rintro ⟨st, p⟩ g₁ ⟨v, rfl, hst, hset⟩
    exact meets_call trivial fun _ _ => ⟨p, hst, hset⟩

/-- The blocks of one buffer list; the last allocation may have failed. -/
structure Element where
  list : BlockId
  pPrivateMetaData : BlockId
  pBuffers : BlockId
  pData : Ptr

def Element.blocks (x : Element) : List BlockId :=
  x.pData.toList ++ [x.pBuffers, x.pPrivateMetaData, x.list]

/-- Entry `e` of the array `a` leads to `x`. -/
structure Built (m : Mem) (a : BlockId) (e : ℕ) (x : Element) : Prop where
  list : m.read a (.entry e) = some (some x.list)
  pPrivateMetaData : m.read x.list .pPrivateMetaData = some (some x.pPrivateMetaData)
  pBuffers : m.read x.list .pBuffers = some (some x.pBuffers)
  pData : m.read x.pBuffers .pData = some x.pData

/-- The clean-up cannot pass through entry `e`. -/
def Broken (m : Mem) (a : BlockId) (e : ℕ) : Prop :=
  ∀ list flat, m.read a (.entry e) = some (some list) →
    m.read list .pBuffers ≠ some (some flat)

theorem broken_of_entry {m : Mem} {a : BlockId} {e : ℕ}
    (h : ∀ list, m.read a (.entry e) ≠ some (some list)) : Broken m a e :=
  fun list _ hlist => absurd hlist (h list)

theorem broken_of_list {m : Mem} {a list : BlockId} {e : ℕ}
    (hentry : m.read a (.entry e) = some (some list))
    (h : ∀ flat, m.read list .pBuffers ≠ some (some flat)) : Broken m a e := by
  intro list' flat hlist
  obtain rfl : list = list' := by simpa [hentry] using hlist
  exact h flat

/-- The loop body for entry `k` got through to the last allocation. -/
structure ElementRun (g : Tracking) (a : BlockId) (k : ℕ) (out : List BlockId) (x : Element)
    (g' : Tracking) : Prop where
  built : Built g'.mem a k x
  holds : g'.Holds (x.blocks ++ out)
  kept : ∀ b f, g.mem.Live b → (b = a → f ≠ .entry k) → g'.mem.read b f = g.mem.read b f
  live : g'.mem.Live a
  allocations : g'.allocations = g.allocations + 4
  failures : g'.failures = if x.pData = none then (g.allocations + 3) :: g.failures else g.failures

/-- It was left at an allocation before that. -/
structure ElementLeft (g : Tracking) (a : BlockId) (k : ℕ) (g' : Tracking) : Prop where
  broken : Broken g'.mem a k
  failures : ∃ j < 3, g'.failures = (g.allocations + j) :: g.failures

def ElementEnd (g : Tracking) (a : BlockId) (k : ℕ) (out : List BlockId) (st : CpaStatus)
    (g' : Tracking) : Prop :=
  SameRest g g' ∧ ((∃ x, ElementRun g a k out x g' ∧ (st = success ↔ x.pData ≠ none)) ∨
    (st ≠ success ∧ ElementLeft g a k g'))

theorem track_loadAllocField {b p : BlockId} {f : Field} (hload : g.mem.read b f = some (some p))
    (h : g.Holds out) (hp : g.mem.Live p) (f' : Field) (n : ℕ) :
    Meets trackProtocol (do
        let q ← invoke (.load (some b) f)
        physContigAllocField q f' n)
      (fun st g' => ∃ v, (st = success ↔ v ≠ none) ∧ FieldSet g p f' v out g') g := by
  refine meets_seq (track_load hload) ?_
  rintro q g₁ ⟨rfl, rfl⟩
  exact track_allocField h hp f' n

section element
variable {a list priv flat : BlockId} {k : ℕ} {v : Ptr} {g₁ g₂ g₃ g₄ : Tracking}

theorem FieldSet.other_of_ne {b b' : BlockId} {f : Field} (h : FieldSet g b f v out g')
    (hne : b' ≠ b) (f' : Field) : g'.mem.read b' f' = g.mem.read b' f' :=
  h.other b' f' fun he => absurd he hne

theorem FieldSet.failures_granted {b c : BlockId} {f : Field} (h : FieldSet g b f (some c) out g') :
    g'.failures = g.failures := h.failures

theorem FieldSet.ne_of_live {b b' c : BlockId} {f : Field} (h : FieldSet g b f (some c) out g')
    (hb : g.mem.Live b') : b' ≠ c := fun he => h.fresh c rfl (he ▸ hb)

theorem elementRun_of_sets (ha : g.mem.Live a) (h₁ : FieldSet g a (.entry k) (some list) out g₁)
    (h₂ : FieldSet g₁ list .pPrivateMetaData (some priv) ([list] ++ out) g₂)
    (h₃ : FieldSet g₂ list .pBuffers (some flat) ([priv] ++ ([list] ++ out)) g₃)
    (h₄ : FieldSet g₃ flat .pData v ([flat] ++ ([priv] ++ ([list] ++ out))) g₄) :
    ElementRun g a k out ⟨list, priv, flat, v⟩ g₄ := by
  have hlive₂ : ∀ b, g.mem.Live b → g₂.mem.Live b := fun b hb =>
    h₂.live b (.inl (h₁.live b (.inl hb)))
  have hlist₂ : g₂.mem.Live list := h₂.live list (.inl (h₁.live list (.inr rfl)))
  have hkept : ∀ b f, g.mem.Live b → (b = a → f ≠ .entry k) →
      g₄.mem.read b f = g.mem.read b f := by
    intro b f hb hne
    have hlist : b ≠ list := h₁.ne_of_live hb
    have hflat : b ≠ flat := h₃.ne_of_live (hlive₂ b hb)
    rw [h₄.other_of_ne hflat, h₃.other_of_ne hlist, h₂.other_of_ne hlist, h₁.other b f hne]
  have hlist : list ≠ flat := h₃.ne_of_live hlist₂
  have halist : a ≠ list := h₁.ne_of_live ha
  have haflat : a ≠ flat := h₃.ne_of_live (hlive₂ a ha)
  refine ⟨⟨?_, ?_, ?_, h₄.stored⟩, ?_, hkept, ?_, ?_, ?_⟩
  · rw [h₄.other_of_ne haflat, h₃.other_of_ne halist, h₂.other_of_ne halist, h₁.stored]
  · rw [h₄.other_of_ne hlist, h₃.other list _ (by simp), h₂.stored]
  · rw [h₄.other_of_ne hlist, h₃.stored]
  · have hholds := h₄.holds
    simpa [Element.blocks] using hholds
  · exact h₄.live a (.inl (h₃.live a (.inl (hlive₂ a ha))))
  · rw [h₄.allocations, h₃.allocations, h₂.allocations, h₁.allocations]
  · rw [h₄.failures, h₃.failures_granted, h₂.failures_granted, h₁.failures_granted,
      h₃.allocations, h₂.allocations, h₁.allocations]

end element

theorem track_allocInterBuffer {a : BlockId} (h : g.Holds out) (ha : g.mem.Live a) (size k : ℕ) :
    Meets trackProtocol (allocInterBuffer (some a) size k success) (ElementEnd g a k out) g := by
  unfold allocInterBuffer
  rw [whenOk_success]
  refine meets_seq (track_allocField h ha (.entry k) 32) ?_
  rintro st g₁ ⟨v, hst, h₁⟩
  -- one case split for each of the four allocations; a refusal ends the turn
  cases v with
  | none =>
    have hne : st ≠ success := fun he => hst.mp he rfl
    simp only [whenOk_ne hne, ret_bind]
    have hbroken : Broken g₁.mem a k := broken_of_entry fun list => by simp [h₁.stored]
    exact ⟨h₁.rest, .inr ⟨hne, hbroken, 0, by decide, h₁.failures⟩⟩
  | some list =>
    obtain rfl : st = success := hst.mpr (by simp)
    rw [whenOk_success]
    have hlive : g₁.mem.Live list := h₁.live list (.inr rfl)
    have hne : a ≠ list := h₁.ne_of_live ha
    refine meets_seq (track_loadAllocField h₁.stored h₁.holds hlive .pPrivateMetaData size) ?_
    rintro st g₂ ⟨v, hst, h₂⟩
    have hentry : g₂.mem.read a (.entry k) = some (some list) :=
      (h₂.other_of_ne hne _).trans h₁.stored
    cases v with
    | none =>
      have hfail : st ≠ success := fun he => hst.mp he rfl
      simp only [whenOk_ne hfail, ret_bind]
      -- the list's `pBuffers` was not stored to
      have hunset : g₂.mem.read list .pBuffers = none := by
        rw [h₂.other list _ (by simp), h₁.other_of_ne (Ne.symm hne)]
        exact Memory.read_dead (h₁.fresh list rfl) _
      have hbroken : Broken g₂.mem a k := broken_of_list hentry fun flat => by simp [hunset]
      refine ⟨h₁.rest.trans h₂.rest, .inr ⟨hfail, hbroken, 1, by decide, ?_⟩⟩
      rw [h₂.failures, h₁.allocations, h₁.failures_granted]
      rfl
    | some priv =>
      obtain rfl : st = success := hst.mpr (by simp)
      rw [whenOk_success]
      refine meets_seq (track_loadAllocField hentry h₂.holds (h₂.live list (.inl hlive))
        .pBuffers 16) ?_
      rintro st g₃ ⟨v, hst, h₃⟩
      have hentry₃ : g₃.mem.read a (.entry k) = some (some list) :=
        (h₃.other_of_ne hne _).trans hentry
      cases v with
      | none =>
        have hfail : st ≠ success := fun he => hst.mp he rfl
        simp only [whenOk_ne hfail]
        have hbroken : Broken g₃.mem a k := broken_of_list hentry₃ fun flat => by simp [h₃.stored]
        refine ⟨(h₁.rest.trans h₂.rest).trans h₃.rest, .inr ⟨hfail, hbroken, 2, by decide, ?_⟩⟩
        rw [h₃.failures, h₂.allocations, h₁.allocations, h₂.failures_granted, h₁.failures_granted]
        rfl
      | some flat =>
        obtain rfl : st = success := hst.mpr (by simp)
        rw [whenOk_success]
        refine meets_seq (track_load hentry₃) ?_
        rintro q g' ⟨rfl, rfl⟩
        refine meets_mono (track_loadAllocField h₃.stored h₃.holds (h₃.live flat (.inr rfl)) .pData
          (2 * sampleMaxBuff)) ?_
        rintro st g₄ ⟨v, hst, h₄⟩
        refine ⟨((h₁.rest.trans h₂.rest).trans h₃.rest).trans h₄.rest, .inl ?_⟩
        exact ⟨⟨list, priv, flat, v⟩, elementRun_of_sets ha h₁ h₂ h₃ h₄, hst⟩

/-! ### The loop -/

def Shape (m : Mem) (a : BlockId) (xs : List Element) : Prop :=
  ∀ e x, xs[e]? = some x → Built m a e x

def structureBlocks (a : BlockId) (xs : List Element) : List BlockId :=
  xs.flatMap Element.blocks ++ [a]

theorem Built.mono {m m' : Mem} {a : BlockId} {e : ℕ} {x : Element} (h : Built m a e x)
    (harray : m'.read a (.entry e) = m.read a (.entry e))
    (hkept : ∀ b ∈ x.blocks, ∀ f, m.Live b → m'.read b f = m.read b f) : Built m' a e x := by
  have hlist : x.list ∈ x.blocks := by simp [Element.blocks]
  have hflat : x.pBuffers ∈ x.blocks := by simp [Element.blocks]
  have hl := Memory.live_of_read h.pBuffers
  refine ⟨harray.trans h.list, ?_, ?_, ?_⟩
  · exact (hkept _ hlist _ hl).trans h.pPrivateMetaData
  · exact (hkept _ hlist _ hl).trans h.pBuffers
  · exact (hkept _ hflat _ (Memory.live_of_read h.pData)).trans h.pData

/-- The first `k` entries are built, and the others were not stored to. -/
structure BuiltUpTo (g : Tracking) (a : BlockId) (xs : List Element) : Prop where
  shape : Shape g.mem a xs
  holds : g.Holds (structureBlocks a xs)
  live : g.mem.Live a
  unset : ∀ e, xs.length ≤ e → g.mem.read a (.entry e) = none

theorem structureBlocks_concat (a : BlockId) (xs : List Element) (x : Element) :
    (x.blocks ++ structureBlocks a xs).Perm (structureBlocks a (xs ++ [x])) := by
  have hlast : structureBlocks a (xs ++ [x]) = xs.flatMap Element.blocks ++ x.blocks ++ [a] := by
    simp [structureBlocks]
  rw [hlast, structureBlocks, ← List.append_assoc]
  exact (List.perm_append_comm).append_right [a]

theorem mem_elementBlocks {xs : List Element} {e : ℕ} {x : Element}
    (hx : xs[e]? = some x) {b : BlockId} (hb : b ∈ x.blocks) : b ∈ xs.flatMap Element.blocks :=
  List.mem_flatMap.mpr ⟨x, List.mem_of_getElem? hx, hb⟩

theorem Tracking.Holds.not_array {a : BlockId} {xs : List Element}
    (h : g.Holds (structureBlocks a xs)) {e : ℕ} {x : Element} (hx : xs[e]? = some x) {b : BlockId}
    (hb : b ∈ x.blocks) : b ≠ a := by
  have hdisj := (List.nodup_append.mp h.nodup).2.2
  exact hdisj b (mem_elementBlocks hx hb) a (by simp)

theorem BuiltUpTo.step {a : BlockId} {xs : List Element} {x : Element} (h : BuiltUpTo g a xs)
    (hx : ElementRun g a xs.length (structureBlocks a xs) x g') : BuiltUpTo g' a (xs ++ [x]) := by
  refine ⟨fun e y hy => ?_, hx.holds.reorder (structureBlocks_concat a xs x), hx.live,
    fun e he => ?_⟩
  · by_cases hlt : e < xs.length
    · have hy' : xs[e]? = some y := by rwa [List.getElem?_append_left hlt] at hy
      refine (h.shape e y hy').mono (hx.kept a _ h.live fun _ hf => ?_) fun b hb f hlive => ?_
      · have he : e = xs.length := by simpa using hf
        omega
      · exact hx.kept b f hlive fun he => absurd he (h.holds.not_array hy' hb)
    · have hee : e = xs.length := by
        have hlen := (List.getElem?_eq_some_iff.mp hy).1
        simp only [List.length_append, List.length_singleton] at hlen
        omega
      subst hee
      obtain rfl : x = y := by simpa using hy
      exact hx.built
  · have hlen : xs.length + 1 ≤ e := by simpa using he
    rw [hx.kept a _ h.live fun _ hf => ?_]
    · exact h.unset e (by omega)
    · have : e = xs.length := by simpa using hf
      omega

theorem allocInterLoop_ne {st : CpaStatus} (h : st ≠ success) (arr : Ptr) (size n : ℕ) :
    ∀ k, allocInterLoop arr size n k st = .ret st := by
  induction n with
  | zero => exact fun _ => rfl
  | succ n ih =>
    intro k
    have hturn : allocInterBuffer arr size k st = .ret st := by
      simp only [allocInterBuffer, whenOk_ne h, ret_bind]
    simp only [allocInterLoop, hturn, ret_bind]
    exact ih (k + 1)

/-- What the loop leaves of the structure with `n` entries: all of it, all but the last
data pointer, or an entry that was given up. -/
def LoopEnd (a : BlockId) (n : ℕ) (st : CpaStatus) (g : Tracking) : Prop :=
  (∃ xs : List Element, xs.length = n ∧ Shape g.mem a xs ∧ g.Holds (structureBlocks a xs) ∧
    (st = success ∧ g.failures = [] ∧ g.allocations = 1 + 4 * n ∨
      st ≠ success ∧ n ≠ 0 ∧ g.failures = [4 * n])) ∨
  (st ≠ success ∧ (∃ e < n, Broken g.mem a e) ∧ ∃ f, g.failures = [f] ∧ 0 < f ∧ f < 4 * n)

theorem track_allocInterLoop (a : BlockId) (size n : ℕ) :
    ∀ (k : ℕ) (g : Tracking) (xs : List Element), xs.length = k → BuiltUpTo g a xs →
      g.failures = [] → g.allocations = 1 + 4 * k →
      Meets trackProtocol (allocInterLoop (some a) size n k success)
        (fun st g' => SameRest g g' ∧ LoopEnd a (k + n) st g') g := by
  -- on the turns that are left; `BuiltUpTo` is the invariant, `xs` what was built before turn `k`
  induction n with
  | zero =>
    intro k g xs hk h hfail halloc
    exact ⟨⟨rfl, rfl⟩, .inl ⟨xs, hk, h.shape, h.holds, .inl ⟨rfl, hfail, halloc⟩⟩⟩
  | succ n ih =>
    intro k g xs hk h hfail halloc
    subst hk
    refine meets_seq (track_allocInterBuffer h.holds h.live size xs.length) ?_
    rintro st g₁ ⟨hrest, ⟨x, hx, hst⟩ | ⟨hne, hleft⟩⟩
    · have hstep := h.step hx
      have hlen : (xs ++ [x]).length = xs.length + 1 := List.length_append
      by_cases hdata : x.pData = none
      · have hne : st ≠ success := fun he => hst.mp he hdata
        rw [allocInterLoop_ne hne]
        have hfail' : g₁.failures = [4 * (xs.length + 1)] := by
          rw [hx.failures, if_pos hdata, halloc, hfail]
          congr 1
          omega
        refine ⟨hrest, ?_⟩
        cases n with
        | zero =>
          refine .inl ⟨xs ++ [x], hlen, hstep.shape, hstep.holds, .inr ⟨hne, ?_, hfail'⟩⟩
          exact Nat.succ_ne_zero _
        | succ n =>
          -- the next entry was not stored to
          have hbroken : Broken g₁.mem a (xs.length + 1) :=
            broken_of_entry fun list => by simp [hstep.unset _ (Nat.le_of_eq hlen)]
          exact .inr ⟨hne, ⟨xs.length + 1, by omega, hbroken⟩, _, hfail', by omega, by omega⟩
      · obtain rfl : st = success := hst.mpr hdata
        have hfail' : g₁.failures = [] := by
          rw [hx.failures, if_neg hdata, hfail]
        have halloc' : g₁.allocations = 1 + 4 * (xs.length + 1) := by
          rw [hx.allocations, halloc]
          omega
        refine meets_mono (ih (xs.length + 1) g₁ (xs ++ [x]) hlen hstep hfail' halloc') ?_
        intro st g₂ h₂
        rw [Nat.add_right_comm] at h₂
        exact ⟨hrest.trans h₂.1, h₂.2⟩
    · obtain ⟨j, hj, hfail'⟩ := hleft.failures
      rw [allocInterLoop_ne hne]
      refine ⟨hrest, .inr ⟨hne, ⟨xs.length, by omega, hleft.broken⟩, g.allocations + j, ?_, ?_, ?_⟩⟩
      · rw [hfail', hfail]
      · omega
      · omega

/-! ### The whole construction -/

/-- The construction and its result: without an array, or as the loop leaves it. -/
def InterEnd (r : CpaStatus × ℕ × Ptr) (g : Tracking) : Prop :=
  g.inits = [] ∧ g.numInterBuffLists = r.2.1 ∧
    match r.2.2 with
    | none => g.Holds [] ∧ (r.1 = success → r.2.1 = 0 ∧ g.failures = [] ∧ g.allocations = 0) ∧
        ∀ k ∈ g.failures, k = 0
    | some a => r.2.1 ≠ 0 ∧ LoopEnd a r.2.1 r.1 g

def Tracking.counted (m : Mem) (n : ℕ) : Tracking :=
  { Tracking.start m with numInterBuffLists := n }

theorem holds_counted (m : Mem) (n : ℕ) : (Tracking.counted m n).Holds [] :=
  ⟨Ledger.owes_empty, fun _ h => absurd h List.not_mem_nil, rfl, rfl⟩

theorem interEnd_none {m : Mem} {st : CpaStatus} {n : ℕ} (h : st = success → n = 0) :
    InterEnd (st, n, none) (Tracking.counted m n) :=
  ⟨rfl, rfl, holds_counted m n, fun hst => ⟨h hst, rfl, rfl⟩, fun _ hk => absurd hk List.not_mem_nil⟩

theorem builtUpTo_nil {m : Mem} (n size base : ℕ) :
    BuiltUpTo ((Tracking.counted m n).next (.memAlloc .contig size) (some (m.next, base)))
      m.next [] where
  shape e x h := by cases h
  holds := (holds_counted m n).alloc .contig size base
  live := (m.live_alloc _ _ _).mpr (.inr rfl)
  unset e _ := (m.read_alloc _ _ _ _).trans (Memory.read_dead (fun h => Nat.lt_irrefl _ h.1) _)

theorem track_allocInterArray (m : Mem) (st : CpaStatus) (n size : ℕ) :
    Meets trackProtocol (do
        let r ← allocInterArray st n
        let status ← allocInterLoop r.2 size n 0 r.1
        pure (status, n, r.2)) InterEnd (Tracking.counted m n) := by
  unfold allocInterArray
  split
  · next h =>
    refine meets_seq (M := fun r g => (r = (resource, none) ∧
        g = (Tracking.counted m n).next (.memAlloc .contig (n * 8)) none) ∨
      ∃ base, r = (success, some m.next) ∧
        g = (Tracking.counted m n).next (.memAlloc .contig (n * 8)) (some (m.next, base)))
      (track_memAlloc (.inl ⟨rfl, rfl⟩) fun base => .inr ⟨base, rfl, rfl⟩) ?_
    rintro r g (⟨rfl, rfl⟩ | ⟨base, rfl, rfl⟩)
    · rw [allocInterLoop_ne resource_ne_success, ret_bind]
      refine ⟨rfl, rfl, (holds_counted m n).refused _ _, ?_, ?_⟩
      · exact fun hst => absurd hst resource_ne_success
      · exact fun k hk => List.mem_singleton.mp hk
    · refine meets_seq (track_allocInterLoop m.next size n 0 _ [] rfl (builtUpTo_nil n (n * 8) base)
        rfl rfl) fun st g h' => ?_
      rw [Nat.zero_add] at h'
      exact ⟨h'.1.1, h'.1.2, h.2, h'.2⟩
  · next h =>
    have hloop : allocInterLoop none size n 0 st = .ret st := by
      by_cases hst : st = success
      · have hn : n = 0 := by
          by_contra hn
          exact h ⟨hst, hn⟩
        rw [hn]
        rfl
      · exact allocInterLoop_ne hst none size n 0
    show Meets trackProtocol (allocInterLoop none size n 0 st >>= _) _ _
    rw [hloop]
    refine interEnd_none fun hst => ?_
    by_contra hn
    exact h ⟨hst, hn⟩

theorem track_interBuffers (m : Mem) (i : ℕ) (cap : CpaDcInstanceCapabilities) (st : CpaStatus) :
    Meets trackProtocol (interBuffers i cap st) InterEnd (Tracking.start m) := by
  unfold interBuffers
  split
  · refine meets_seq (track_silent (silent_dcInstHandle i) _) ?_
    rintro inst g rfl
    refine meets_seq (track_silent ((only_perform _ (.apiSize .cpaDcBufferListGetMetaSize inst)).mpr
      (by simp [Call.Silent])) _) ?_
    rintro ⟨st, size⟩ g rfl
    dsimp only
    refine meets_seq (M := fun r g => g = Tracking.counted m r.2) ?_ ?_
    · unfold whenOkSet
      split
      · refine meets_seq (track_silent (silent_dcInstHandle i) _) ?_
        rintro inst g rfl
        exact ⟨trivial, fun _ _ => rfl⟩
      · rfl
    · rintro ⟨st, n⟩ g rfl
      exact track_allocInterArray m st n size
  · exact interEnd_none fun _ => rfl

end QatDcSample
