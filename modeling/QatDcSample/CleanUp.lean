import QatDcSample.BufferStructure
import QatDcSample.Replay
import QatDcSample.RequestMemory

/-!
# The clean-up of a worker

The loop of lines 552-558 passes through all `numInterBuffLists` entries. Where the
construction left one the pointers it follows are not those of allocations, and where
an allocation of `compPerformOp` fails, completions are destroyed that were never
initialised (`dc_qat_funcs.c:319-330`). After every other run all is freed once.
-/

namespace QatDcSample
open EventProgram Prog BlockMemory CpaStatus Transition

namespace Tracking

/-- Only sound pointers were followed, every block allocated was freed once and nothing
else was, and only completions were destroyed that had been initialised. -/
def Clean (g : Tracking) : Prop := g.unsound = false ∧ g.blocks.Exact ∧ g.bare = false

instance (g : Tracking) : Decidable g.Clean := inferInstanceAs (Decidable (_ ∧ _ ∧ _))

/-- The allocation is that of the array, of the last data buffer or of the session. -/
def Harmless (num k : ℕ) : Prop := k = 0 ∨ num ≠ 0 ∧ (k = 4 * num ∨ k = 4 * num + 1)

instance (num k : ℕ) : Decidable (Harmless num k) := inferInstanceAs (Decidable (_ ∨ _))

def FailsHarmlessly (g : Tracking) : Prop := ∀ k ∈ g.failures, Harmless g.numInterBuffLists k

/-- The clean-up is right just in case no other allocation failed. -/
def Settled (g : Tracking) : Prop := g.Clean ↔ g.FailsHarmlessly

end Tracking

variable {g g' : Tracking} {out extra : List BlockId} {arr : Ptr} {num : ℕ}

theorem Tracking.Holds.settled (h : g.Holds []) (hf : g.FailsHarmlessly) : g.Settled :=
  ⟨fun _ => hf, fun _ => ⟨h.sound, h.owes.exact_iff.mpr rfl, h.proper⟩⟩

structure Steady (g g' : Tracking) : Prop where
  rest : SameRest g g'
  failures : g'.failures = g.failures
  allocations : g'.allocations = g.allocations

theorem Steady.refl (g : Tracking) : Steady g g := ⟨⟨rfl, rfl⟩, rfl, rfl⟩

theorem Steady.trans {g₁ g₂ g₃ : Tracking} (h : Steady g₁ g₂) (h' : Steady g₂ g₃) : Steady g₁ g₃ :=
  ⟨h.rest.trans h'.rest, h'.failures.trans h.failures, h'.allocations.trans h.allocations⟩

theorem Steady.failsHarmlessly_iff (h : Steady g g') :
    g'.FailsHarmlessly ↔ g.FailsHarmlessly := by
  unfold Tracking.FailsHarmlessly
  rw [h.failures, h.rest.2]

/-! ### Freeing an element -/

/-- `PHYS_CONTIG_FREE(p->f)` where the field holds `v`. -/
structure FieldFreed (g : Tracking) (b : BlockId) (f : Field) (v : Ptr) (out : List BlockId)
    (g' : Tracking) : Prop where
  holds : g'.Holds out
  other : ∀ b' f', v ≠ some b' → (b' = b → f' ≠ f) → g'.mem.read b' f' = g.mem.read b' f'

theorem track_freeField {b : BlockId} {f : Field} {v : Ptr} (h : g.Holds (v.toList ++ out))
    (hread : g.mem.read b f = some v) (hne : v ≠ some b) :
    Meets trackProtocol (physContigFreeField (some b) f)
      (fun _ g' => FieldFreed g b f v out g') g := by
  refine meets_seq (track_load hread) ?_
  rintro r g₁ ⟨rfl, rfl⟩
  cases r with
  | none => exact ⟨h, fun _ _ _ _ => rfl⟩
  | some d =>
    have hlive : (g₁.mem.free d).Live b :=
      (g₁.mem.live_free d b).mpr ⟨Memory.live_of_read hread, fun he => hne (congrArg some he.symm)⟩
    refine meets_call trivial fun _ _ => ⟨trivial, fun _ _ => ?_⟩
    refine ⟨(h.free .contig).store hlive f none, fun b' f' hd hne' => ?_⟩
    have hdb : b' ≠ d := fun he => hd (congrArg some he.symm)
    exact (Memory.read_write_other _ hne' none).trans (Memory.read_free_other _ hdb f')

theorem FieldFreed.other_of_ne {b b' : BlockId} {f : Field} {v : Ptr}
    (h : FieldFreed g b f v out g') (hv : v ≠ some b') (hne : b' ≠ b) (f' : Field) :
    g'.mem.read b' f' = g.mem.read b' f' := h.other b' f' hv fun he => absurd he hne

theorem track_loadFreeField {α : Type} {b p : BlockId} {f f' : Field} {v : Ptr} {k : Code α}
    {Q : α → Tracking → Prop} (hload : g.mem.read b f = some (some p))
    (h : g.Holds (v.toList ++ out)) (hread : g.mem.read p f' = some v) (hne : v ≠ some p)
    (hk : ∀ g₁, FieldFreed g p f' v out g₁ → Meets trackProtocol k Q g₁) :
    Meets trackProtocol (do
        let q ← invoke (.load (some b) f)
        physContigFreeField q f'
        k) Q g := by
  refine meets_seq (track_load hload) ?_
  rintro q g₁ ⟨rfl, rfl⟩
  exact meets_seq (track_freeField h hread hne) fun _ => hk

/-- The blocks of an element are distinct and not among `rest`. -/
structure ElementApart (x : Element) (rest : List BlockId) : Prop where
  list : x.list ∉ rest
  priv : x.pPrivateMetaData ∉ rest ∧ x.pPrivateMetaData ≠ x.list
  flat : x.pBuffers ∉ rest ∧ x.pBuffers ≠ x.list
  data : ∀ b, b ∈ rest ∨ b = x.list ∨ b = x.pBuffers → x.pData ≠ some b

theorem elementApart_of_nodup {x : Element} {rest : List BlockId} (h : (x.blocks ++ rest).Nodup) :
    ElementApart x rest := by
  simp only [Element.blocks, List.append_assoc, List.cons_append, List.nil_append] at h
  obtain ⟨-, hothers, hdata⟩ := List.nodup_append.mp h
  simp only [List.nodup_cons, List.mem_cons, not_or] at hothers
  obtain ⟨⟨-, hfl, hfr⟩, ⟨hpl, hpr⟩, hlr, -⟩ := hothers
  refine ⟨hlr, ⟨hpr, hpl⟩, ⟨hfr, hfl⟩, fun b hb he => ?_⟩
  refine hdata b (by simp [he]) b ?_ rfl
  rcases hb with hb | rfl | rfl <;> simp [*]

structure ElementFreed (g : Tracking) (a : BlockId) (k : ℕ) (rest : List BlockId) (g' : Tracking) :
    Prop where
  holds : g'.Holds rest
  kept : ∀ b ∈ rest, ∀ f, (b = a → f ≠ .entry k) → g'.mem.read b f = g.mem.read b f

section element
variable {a : BlockId} {k : ℕ} {x : Element} {rest : List BlockId}

theorem track_freeInterBuffer (h : g.Holds (x.blocks ++ rest)) (hb : Built g.mem a k x)
    (ha : a ∈ rest) :
    Meets trackProtocol (freeInterBuffer (some a) k) (fun _ g' => ElementFreed g a k rest g') g := by
  obtain ⟨hlist, hpriv, hflat, hdata⟩ := elementApart_of_nodup h.nodup
  have hne : ∀ b ∈ rest, b ≠ x.list ∧ b ≠ x.pPrivateMetaData ∧ b ≠ x.pBuffers ∧ x.pData ≠ some b :=
    fun b hm => ⟨fun he => hlist (he ▸ hm), fun he => hpriv.1 (he ▸ hm),
      fun he => hflat.1 (he ▸ hm), hdata b (.inl hm)⟩
  obtain ⟨hal, hap, haf, had⟩ := hne a ha
  have hblocks : x.blocks ++ rest =
      x.pData.toList ++ (x.pBuffers :: x.pPrivateMetaData :: x.list :: rest) := by
    simp [Element.blocks]
  rw [hblocks] at h
  refine meets_seq (track_load hb.list) ?_
  rintro l g₀ ⟨rfl, rfl⟩
  refine track_loadFreeField hb.pBuffers h hb.pData (hdata _ (.inr (.inr rfl))) fun g₁ h₁ => ?_
  have hlist₁ := h₁.other_of_ne (hdata _ (.inr (.inl rfl))) hflat.2.symm
  have harray₁ := h₁.other_of_ne had haf
  have hflat' : some x.pBuffers ≠ some x.list := by simpa using hflat.2
  refine track_loadFreeField ((harray₁ _).trans hb.list) h₁.holds ((hlist₁ _).trans hb.pBuffers)
    hflat' fun g₂ h₂ => ?_
  have hlist₂ : g₂.mem.read x.list .pPrivateMetaData = some (some x.pPrivateMetaData) := by
    rw [h₂.other x.list _ hflat' (by simp), hlist₁, hb.pPrivateMetaData]
  have harray₂ := h₂.other_of_ne (by simpa using haf.symm) hal
  have hpriv' : some x.pPrivateMetaData ≠ some x.list := by simpa using hpriv.2
  have hentry₂ : g₂.mem.read a (.entry k) = some (some x.list) := by
    rw [harray₂, harray₁, hb.list]
  refine track_loadFreeField hentry₂ h₂.holds hlist₂ hpriv' fun g₃ h₃ => ?_
  have hentry₃ : g₃.mem.read a (.entry k) = some (some x.list) :=
    (h₃.other_of_ne (by simpa using hap.symm) hal _).trans hentry₂
  refine meets_mono (track_freeField h₃.holds hentry₃ (by simpa using hal.symm)) fun _ g₄ h₄ => ?_
  refine ⟨h₄.holds, fun b hm f hf => ?_⟩
  obtain ⟨hbl, hbp, hbf, hbd⟩ := hne b hm
  rw [h₄.other b f (by simpa using hbl.symm) hf, h₃.other_of_ne (by simpa using hbp.symm) hbl,
    h₂.other_of_ne (by simpa using hbf.symm) hbl, h₁.other_of_ne hbd hbf]

theorem track_freeInterLoop (xs : List Element) : ∀ (k : ℕ) (g : Tracking),
    g.Holds (structureBlocks a xs) → (∀ e x, xs[e]? = some x → Built g.mem a (k + e) x) →
    Meets trackProtocol (freeInterLoop (some a) xs.length k)
      (fun _ g' => g'.Holds [a]) g := by
  -- on the elements that are left after `k` turns
  induction xs with
  | nil => exact fun k g h _ => h
  | cons x xs ih =>
    intro k g h hb
    have hblocks : structureBlocks a (x :: xs) = x.blocks ++ structureBlocks a xs := by
      simp [structureBlocks]
    have ha : a ∈ structureBlocks a xs := by simp [structureBlocks]
    rw [hblocks] at h
    refine meets_seq (track_freeInterBuffer h (hb 0 x rfl) ha) fun _ g₁ h₁ => ?_
    refine ih (k + 1) g₁ h₁.holds fun e y hy => ?_
    have hbuilt : Built g.mem a (k + 1 + e) y := by
      rw [Nat.add_assoc, Nat.add_comm 1 e]
      exact hb (e + 1) y hy
    refine hbuilt.mono (h₁.kept a ha _ fun _ he => ?_) fun b hm f _ => h₁.kept b ?_ f fun he => ?_
    · have : k + 1 + e = k := by simpa using he
      omega
    · exact List.mem_append_left _ (mem_elementBlocks hy hm)
    · exact absurd he (h₁.holds.not_array hy hm)

end element

/-! ### The clean-up -/

/-- The clean-up of `arr` frees exactly `out`. -/
def Cleanable (m : Mem) (arr : Ptr) (num : ℕ) (out : List BlockId) : Prop :=
  match arr with
  | none => out = []
  | some a => ∃ xs : List Element, xs.length = num ∧ Shape m a xs ∧ out = structureBlocks a xs

theorem Cleanable.mono {m m' : Mem} (h : Cleanable m arr num out)
    (hkept : ∀ b ∈ out, ∀ f, m'.read b f = m.read b f) : Cleanable m' arr num out := by
  cases arr with
  | none => exact h
  | some a =>
    obtain ⟨xs, hlen, hshape, rfl⟩ := h
    refine ⟨xs, hlen, fun e x hx => (hshape e x hx).mono ?_ fun b hb f _ => ?_, rfl⟩
    · exact hkept a (by simp [structureBlocks]) _
    · exact hkept b (List.mem_append_left _ (mem_elementBlocks hx hb)) f

/-- A worker that holds its intermediate buffers and, before them, `extra`. -/
structure Held (g : Tracking) (arr : Ptr) (num : ℕ) (extra out : List BlockId) : Prop where
  cleanable : Cleanable g.mem arr num out
  holds : g.Holds (extra ++ out)
  counted : g.numInterBuffLists = num

theorem Held.alloc (h : Held g arr num extra out) (a : Allocator) (n base : ℕ) :
    Held (g.next (.memAlloc a n) (some (g.mem.next, base))) arr num (g.mem.next :: extra) out :=
  ⟨h.cleanable.mono fun b _ f => g.mem.read_alloc _ _ b f, h.holds.alloc a n base, h.counted⟩

theorem Held.refused (h : Held g arr num extra out) (a : Allocator) (n : ℕ) :
    Held (g.next (.memAlloc a n) none) arr num extra out :=
  ⟨h.cleanable, h.holds.refused a n, h.counted⟩

theorem Held.free {b : BlockId} (h : Held g arr num (b :: extra) out) (a : Allocator) :
    Held (g.next (.memFree a b) ()) arr num extra out := by
  refine ⟨h.cleanable.mono fun b' hb' f => Memory.read_free_other _ ?_ f, h.holds.free a, h.counted⟩
  rintro rfl
  exact (List.nodup_cons.mp h.holds.nodup).1 (List.mem_append_right _ hb')

theorem track_memFree {p : Ptr} (h : Held g arr num (p.toList ++ extra) out) (a : Allocator) :
    Meets trackProtocol (memFree a p) (fun _ g' => Held g' arr num extra out ∧ Steady g g') g := by
  cases p with
  | none => exact ⟨h, Steady.refl g⟩
  | some b => exact ⟨trivial, fun _ _ => ⟨h.free a, ⟨rfl, rfl⟩, rfl, rfl⟩⟩

theorem track_cleanUp {session : Ptr} (h : Held g arr num session.toList out) :
    Meets trackProtocol (cleanUp session arr num) (fun _ g' => g'.Holds []) g := by
  rw [← List.append_nil session.toList] at h
  refine meets_seq (track_memFree h .contig) fun _ g₁ h₁ => ?_
  have hclean := h₁.1.cleanable
  cases arr with
  | none =>
    obtain rfl : out = [] := hclean
    exact h₁.1.holds
  | some a =>
    obtain ⟨xs, rfl, hshape, rfl⟩ := hclean
    rw [if_neg (by simp)]
    have hbuilt : ∀ e x, xs[e]? = some x → Built g₁.mem a (0 + e) x := by
      intro e x hx
      rw [Nat.zero_add]
      exact hshape e x hx
    refine meets_seq (track_freeInterLoop xs 0 g₁ h₁.1.holds hbuilt) fun _ g₂ h₂ => ?_
    exact ⟨trivial, fun _ _ => h₂.free .contig⟩

/-! ### Where it goes wrong -/

theorem unsound_next (h : g.unsound = true) (c : Call) (r : c.Resp) :
    (g.next c r).unsound = true := by
  cases c <;> first | exact h | simp [Tracking.next, Tracking.unsoundAfter, h]

theorem broken_next {a : BlockId} {e : ℕ} (h : Broken g.mem a e) {c : Call} (hc : c.Clearing)
    (r : c.Resp) : Broken (g.next c r).mem a e := by
  -- what reads as a pointer did so before
  have hread : ∀ b f d, (g.next c r).mem.read b f = some (some d) → g.mem.read b f = some (some d) := by
    intro b f d hd
    cases c <;> try exact hc.elim
    case load p f' => exact hd
    case memFree a' b' =>
      by_cases hb : b = b'
      · subst hb
        rw [show (g.next (.memFree a' b) r).mem = g.mem.free b from rfl,
          Memory.read_free_self] at hd
        cases hd
      · rwa [show (g.next (.memFree a' b') r).mem = g.mem.free b' from rfl,
          Memory.read_free_other _ hb] at hd
    case store p f' v =>
      obtain rfl : v = none := hc
      cases p with
      | none => exact hd
      | some b' =>
        rw [show (g.next (.store (some b') f' none) r).mem = g.mem.write b' f' none from rfl] at hd
        by_cases hbf : b = b' ∧ f = f'
        · obtain ⟨rfl, rfl⟩ := hbf
          rw [Memory.read_write_self ((g.mem.write_live b b f none).mp (Memory.live_of_read hd))] at hd
          cases hd
        · rwa [Memory.read_write_other _ fun hb hf => hbf ⟨hb, hf⟩] at hd
  exact fun list flat hlist hflat => h list flat (hread _ _ _ hlist) (hread _ _ _ hflat)

theorem bare_next (h : g.bare = true) (c : Call) (r : c.Resp) : (g.next c r).bare = true := by
  cases c <;> first | exact h | simp [Tracking.next, Tracking.bareAfter, h]

theorem track_persists {T : Tracking → Prop} (hT : ∀ g c r, T g → T (g.next c r)) {α : Type}
    (p : Code α) : ∀ g : Tracking, T g → Meets trackProtocol p (fun _ g' => T g') g := by
  induction p with
  | ret a => exact fun g h => h
  | call c k ih => exact fun g h => ⟨trivial, fun r _ => ih r _ (hT g c r h)⟩

theorem track_unsound {α : Type} (p : Code α) (g : Tracking) (h : g.unsound = true) :
    Meets trackProtocol p (fun _ g' => g'.unsound = true) g :=
  track_persists (fun _ c r h => unsound_next h c r) p g h

theorem unsound_of_load {p : Ptr} {f : Field} (h : fieldOf g.mem p f = none) (r : Ptr) :
    (g.next (.load p f) r).unsound = true := by
  simp [Tracking.next, Tracking.unsoundAfter, h]

/-- Following a pointer read from a field: unsound, or it is what was stored. -/
theorem track_follow {α : Type} {p : Ptr} {f : Field} {k : Ptr → Code α}
    (h : ∀ v, fieldOf g.mem p f = some v →
      Meets trackProtocol (k v) (fun _ g' => g'.unsound = true) g) :
    Meets trackProtocol (invoke (.load p f) >>= k) (fun _ g' => g'.unsound = true) g := by
  refine meets_call trivial fun r hr => ?_
  -- an unset field or a `NULL` answers anything, and the access counts as unsound
  cases hv : fieldOf g.mem p f with
  | none => exact track_unsound (k r) _ (unsound_of_load hv r)
  | some v =>
    obtain rfl : r = v := hr v hv
    show Meets trackProtocol (k r) _ (g.next (.load p f) r)
    rw [Tracking.next_load hv]
    exact h r hv

theorem track_freeInterBuffer_broken {a : BlockId} {e : ℕ} (h : Broken g.mem a e) :
    Meets trackProtocol (freeInterBuffer (some a) e) (fun _ g' => g'.unsound = true) g := by
  refine track_follow fun list hlist => track_follow fun flat hflat => ?_
  cases list with
  | none => cases hflat
  | some list =>
    cases flat with
    | some flat => exact absurd hflat (h list flat hlist)
    | none =>
      refine meets_seq (track_follow fun v hv => ?_) fun _ g' h' => track_unsound _ g' h'
      cases hv

theorem track_freeInterLoop_broken {a : BlockId} {e : ℕ} (n : ℕ) : ∀ (k : ℕ) (g : Tracking),
    Broken g.mem a e → k ≤ e → e < k + n →
    Meets trackProtocol (freeInterLoop (some a) n k) (fun _ g' => g'.unsound = true) g := by
  -- `Broken` survives the turns before the one for entry `e`
  induction n with
  | zero =>
    intro k g h hle hlt
    omega
  | succ n ih =>
    intro k g h hle hlt
    by_cases hk : k = e
    · subst hk
      exact meets_seq (track_freeInterBuffer_broken h) fun _ g₁ h₁ => track_unsound _ g₁ h₁
    · refine meets_seq (meets_of_only (fun g : Tracking => Broken g.mem a e) (fun g c hc hg =>
        ⟨trivial, fun r _ => broken_next hg hc r⟩) (clearing_freeInterBuffer (some a) k) h) ?_
      exact fun _ g₁ h₁ => ih (k + 1) g₁ h₁ (by omega) (by omega)

theorem track_cleanUp_broken {a : BlockId} {e : ℕ} (h : Broken g.mem a e) (hlt : e < num) :
    Meets trackProtocol (cleanUp none (some a) num) (fun _ g' => g'.unsound = true) g := by
  show Meets trackProtocol (freeInterLoop (some a) num 0 >>= _) _ g
  refine meets_seq (track_freeInterLoop_broken num 0 g h (Nat.zero_le e) (by omega)) ?_
  exact fun _ g₂ h₂ => track_unsound _ g₂ h₂

theorem steady_next (g : Tracking) {c : Call} (hc : c.After) (r : c.Resp) :
    Steady g (g.next c r) := by
  cases c <;> first | exact ⟨⟨rfl, rfl⟩, rfl, rfl⟩ | exact hc.elim

/-- After the operation nothing is allocated. -/
theorem track_steady {α : Type} {p : Code α} {Q : α → Tracking → Prop} (hp : Only Call.After p) :
    ∀ g : Tracking, Meets trackProtocol p Q g →
      Meets trackProtocol p (fun a g' => Q a g' ∧ Steady g g') g := by
  induction p with
  | ret a => exact fun g h => ⟨h, Steady.refl g⟩
  | call c k ih =>
    refine fun g h => ⟨trivial, fun r hr => ?_⟩
    have hstep := steady_next g hp.1 r
    exact meets_mono (ih r (hp.2 r) _ (h.2 r hr)) fun a g' h' => ⟨h'.1, hstep.trans h'.2⟩

/-! ### compPerformOp -/

def owned (ps : List Ptr) : List BlockId := ps.flatMap Option.toList

theorem whenOkSet_success {α : Type} (old : α) (p : Code (CpaStatus × α)) :
    whenOkSet success old p = p := if_pos rfl

/-- The guarded allocations so far, of which `ps` are the results: all of them granted,
or one of them failed. -/
structure OpAllocRun (arr : Ptr) (num : ℕ) (out extra : List BlockId) (m : ℕ) (st : CpaStatus)
    (ps : List Ptr) (g : Tracking) : Prop where
  held : Held g arr num (owned ps ++ extra) out
  inits : g.inits = []
  run : st = success ∧ g.failures = [] ∧ g.allocations = m + ps.length ∨
    st ≠ success ∧ ∃ i < ps.length, g.failures = [m + i]

theorem track_guardedAlloc {m : ℕ} {st : CpaStatus} {ps : List Ptr}
    (h : OpAllocRun arr num out extra m st ps g) (a : Allocator) (n : ℕ) :
    Meets trackProtocol (whenOkSet st none (memAlloc a n))
      (fun r g' => OpAllocRun arr num out extra m r.1 (r.2 :: ps) g') g := by
  rcases h.run with ⟨rfl, hfail, halloc⟩ | ⟨hne, i, hi, hfail⟩
  · rw [whenOkSet_success]
    refine track_memAlloc ⟨h.held.refused a n, h.inits, .inr ⟨resource_ne_success, ?_⟩⟩ fun base => ?_
    · refine ⟨ps.length, by simp, ?_⟩
      show g.allocations :: g.failures = _
      rw [hfail, halloc]
    · refine ⟨h.held.alloc a n base, h.inits, .inl ⟨rfl, hfail, ?_⟩⟩
      show g.allocations + 1 = _
      rw [halloc, List.length_cons]
      rfl
  · rw [whenOkSet_ne hne]
    refine ⟨h.held, h.inits, .inr ⟨hne, i, ?_, hfail⟩⟩
    exact Nat.lt_succ_of_lt hi

namespace OpBuffers

def pointers (b : OpBuffers) : List Ptr :=
  [b.pDstBuffer, b.pBufferListDst, b.pBufferMetaDst, b.pSrcBuffer, b.pBufferListSrc,
    b.pBufferMetaSrc]

def freeOrder (b : OpBuffers) : List Ptr :=
  [b.pSrcBuffer, b.pBufferListSrc, b.pBufferMetaSrc, b.pDstBuffer, b.pBufferListDst,
    b.pBufferMetaDst]

theorem owned_perm (b : OpBuffers) : (owned b.pointers).Perm (owned b.freeOrder) := by
  have hperm : ([b.pDstBuffer, b.pBufferListDst, b.pBufferMetaDst] ++
      [b.pSrcBuffer, b.pBufferListSrc, b.pBufferMetaSrc]).Perm b.freeOrder :=
    List.perm_append_comm
  exact hperm.flatMap_right _

end OpBuffers

theorem track_allocOpBuffers {m : ℕ} (h : Held g arr num extra out) (hinits : g.inits = [])
    (hfail : g.failures = []) (halloc : g.allocations = m) (n n' : ℕ) :
    Meets trackProtocol (allocOpBuffers n n')
      (fun r g' => OpAllocRun arr num out extra m r.1 r.2.pointers g') g := by
  have hstart : OpAllocRun arr num out extra m success [] g :=
    ⟨h, hinits, .inl ⟨rfl, hfail, halloc⟩⟩
  have hfirst := track_guardedAlloc hstart .contig n
  rw [whenOkSet_success] at hfirst
  refine meets_seq hfirst fun r₁ g₁ h₁ => ?_
  refine meets_seq (track_guardedAlloc h₁ .os bufferListMemSize) fun r₂ g₂ h₂ => ?_
  refine meets_seq (track_guardedAlloc h₂ .contig sampleMaxBuff) fun r₃ g₃ h₃ => ?_
  refine meets_seq (track_guardedAlloc h₃ .contig n) fun r₄ g₄ h₄ => ?_
  refine meets_seq (track_guardedAlloc h₄ .os bufferListMemSize) fun r₅ g₅ h₅ => ?_
  exact meets_seq (track_guardedAlloc h₅ .contig n') fun r₆ g₆ h₆ => h₆

theorem track_freeOpBuffers {b : OpBuffers} (h : Held g arr num (owned b.pointers ++ extra) out) :
    Meets trackProtocol (freeOpBuffers b)
      (fun _ g' => Held g' arr num extra out ∧ Steady g g') g := by
  have hfree : Held g arr num (owned b.freeOrder ++ extra) out :=
    ⟨h.cleanable, h.holds.reorder ((b.owned_perm.append_right extra).append_right out), h.counted⟩
  simp only [OpBuffers.freeOrder, owned, List.flatMap_cons, List.flatMap_nil, List.append_nil,
    List.append_assoc] at hfree
  refine meets_seq (track_memFree hfree .contig) fun _ g₁ h₁ => ?_
  refine meets_seq (track_memFree h₁.1 .os) fun _ g₂ h₂ => ?_
  refine meets_seq (track_memFree h₂.1 .contig) fun _ g₃ h₃ => ?_
  refine meets_seq (track_memFree h₃.1 .contig) fun _ g₄ h₄ => ?_
  refine meets_seq (track_memFree h₄.1 .os) fun _ g₅ h₅ => ?_
  refine meets_mono (track_memFree h₅.1 .contig) fun _ g₆ h₆ => ⟨h₆.1, ?_⟩
  exact ((((h₁.2.trans h₂.2).trans h₃.2).trans h₄.2).trans h₅.2).trans h₆.2

theorem Held.init (h : Held g arr num extra out) (k : Completion) :
    Held (g.next (.completionInit k) ()) arr num extra out :=
  ⟨h.cleanable, ⟨h.holds.owes, h.holds.named, h.holds.sound, h.holds.proper⟩, h.counted⟩

theorem Held.enterFrame (h : Held g arr num extra out) (base : ℕ) :
    Held (g.next .enterFrame (g.mem.next, base)) arr num extra out := by
  refine ⟨h.cleanable.mono fun b _ f => g.mem.read_alloc _ _ b f, ?_, h.counted⟩
  refine ⟨h.holds.owes, fun b hb => ?_, h.holds.sound, h.holds.proper⟩
  exact Nat.lt_succ_of_lt (h.holds.named b hb)

theorem Held.leaveFrame {frame : BlockId} (h : Held g arr num extra out) (hframe : frame ∉ out) :
    Held (g.next (.leaveFrame frame) ()) arr num extra out := by
  refine ⟨h.cleanable.mono fun b hb f => Memory.read_free_other _ ?_ f, ?_, h.counted⟩
  · rintro rfl
    exact hframe hb
  · exact ⟨h.holds.owes, h.holds.named, h.holds.sound, h.holds.proper⟩

def AllInit (g : Tracking) : Prop := ∀ k, k ∈ g.inits

theorem track_destroy (h : AllInit g) (k : Completion) :
    Meets trackProtocol (invoke (.completionDestroy k)) (fun _ g' => g' = g) g := by
  refine ⟨trivial, fun _ _ => ?_⟩
  simp [Meets, Tracking.next, memAfter, Tracking.blocksAfter, Tracking.unsoundAfter,
    Tracking.initsAfter, Tracking.bareAfter, Tracking.allocationsAfter, Tracking.failuresAfter,
    Tracking.numAfter, h k]

theorem silent_afterSubmit (st : CpaStatus) :
    Only Call.Silent (do
      let status ← waitAll st
      whenOk status checkResults) := by
  have hwait : ∀ k, Only Call.Silent (waitFor k) := fun k =>
    only_bind ((only_perform _ _).mpr trivial) fun ok => by split <;> trivial
  refine only_bind (only_bind (only_whenOk (hwait _)) fun st => ?_) fun st => ?_
  · exact only_bind (only_whenOk (hwait _)) fun st => only_whenOk (hwait _)
  · exact only_whenOk (only_bind ((only_perform _ _).mpr trivial) fun r => by split <;> trivial)

theorem track_init (h : Held g arr num extra out) (k : Completion) :
    Meets trackProtocol (invoke (.completionInit k)) (fun _ g' => Held g' arr num extra out ∧
      g'.inits = k :: g.inits ∧ g'.failures = g.failures) g :=
  ⟨trivial, fun _ _ => ⟨h.init k, rfl, rfl⟩⟩

theorem silent_submits (inst : ℕ) (session : Ptr) (src dst : CpaBufferList) (frame : BlockId) :
    Only Call.Silent (do
      let _ ← invoke (.cpaDcCompressData2 inst session src dst frame .complete1)
      let _ ← invoke (.cpaDcCompressData2 inst session src dst frame .complete2)
      invoke (.cpaDcCompressData2 inst session src dst frame .complete3)) := by
  refine only_bind ((only_perform _ _).mpr trivial) fun _ => ?_
  exact only_bind ((only_perform _ _).mpr trivial) fun _ => (only_perform _ _).mpr trivial

theorem track_performOp (inst : ℕ) (session : Ptr) (src dst : CpaBufferList) (frame : BlockId)
    (h : Held g arr num extra out) :
    Meets trackProtocol (performOp inst session src dst frame)
      (fun _ g' => Held g' arr num extra out ∧ AllInit g' ∧ g'.failures = g.failures) g := by
  have hcopy : Only Call.Silent (invoke .memcpyInput) := (only_perform _ Call.memcpyInput).mpr trivial
  refine meets_seq (track_silent hcopy g) ?_
  rintro - g₀ rfl
  refine meets_seq (M := fun _ (g' : Tracking) => Held g' arr num extra out ∧ AllInit g' ∧
    g'.failures = g₀.failures) ?_ fun st g₁ h₁ => ?_
  · refine meets_seq (track_init h .complete1) fun _ g₁ h₁ => ?_
    refine meets_seq (track_init h₁.1 .complete2) fun _ g₂ h₂ => ?_
    refine meets_seq (track_init h₂.1 .complete3) fun _ g₃ h₃ => ?_
    refine meets_mono (track_silent (silent_submits inst session src dst frame) g₃) ?_
    rintro - g₄ rfl
    refine ⟨h₃.1, fun k => ?_, h₃.2.2.trans (h₂.2.2.trans h₁.2.2)⟩
    rw [h₃.2.1, h₂.2.1, h₁.2.1]
    cases k <;> simp
  · refine meets_mono (track_silent (silent_afterSubmit st) g₁) ?_
    rintro - g' rfl
    exact h₁

/-- The operation leaves what was held, or destroyed completions that it had not
initialised because one of its six allocations failed. -/
def OpEnd (arr : Ptr) (num : ℕ) (out extra : List BlockId) (m : ℕ) (g : Tracking) : Prop :=
  Held g arr num extra out ∧ g.failures = [] ∨
    g.bare = true ∧ g.numInterBuffLists = num ∧ ∃ i < 6, g.failures = [m + i]

theorem track_compPerformOp {m : ℕ} (h : Held g arr num extra out) (hinits : g.inits = [])
    (hfail : g.failures = []) (halloc : g.allocations = m) (inst : ℕ) (session : Ptr) :
    Meets trackProtocol (compPerformOp inst session) (fun _ g' => OpEnd arr num out extra m g') g := by
  refine meets_call trivial fun r hr => ?_
  obtain ⟨frame, base⟩ := r
  obtain rfl : frame = g.mem.next := hr
  have hframe : g.mem.next ∉ out := fun hm =>
    Nat.lt_irrefl _ (h.holds.lt_next (List.mem_append_right _ hm))
  have h₀ := h.enterFrame base
  refine meets_call trivial fun r _ => ?_
  refine meets_call trivial fun r' _ => ?_
  show Meets trackProtocol (if r'.1 ≠ success then _ else _) _ (g.next .enterFrame (g.mem.next, base))
  split
  · exact meets_call trivial fun _ _ => .inl ⟨h₀.leaveFrame hframe, hfail⟩
  refine meets_seq (track_allocOpBuffers h₀ hinits hfail halloc r.2 r'.2) fun x g₁ h₁ => ?_
  obtain ⟨st, b⟩ := x
  rcases h₁.run with ⟨hst, hfail₁, -⟩ | ⟨hne, i, hi, hfail₁⟩
  · obtain rfl : st = success := hst
    show Meets trackProtocol (whenOk success _ >>= _) _ g₁
    rw [whenOk_success]
    refine meets_seq (track_performOp inst session _ _ _ h₁.held) fun st g₂ h₂ => ?_
    refine meets_seq (track_freeOpBuffers h₂.1) fun _ g₃ h₃ => ?_
    have hinit : AllInit g₃ := fun k => h₃.2.rest.1 ▸ h₂.2.1 k
    refine meets_seq (track_destroy hinit .complete1) ?_
    rintro - _ rfl
    refine meets_seq (track_destroy hinit .complete2) ?_
    rintro - _ rfl
    refine meets_seq (track_destroy hinit .complete3) ?_
    rintro - g₄ rfl
    refine meets_call trivial fun _ _ => .inl ⟨h₃.1.leaveFrame hframe, ?_⟩
    exact h₃.2.failures.trans (h₂.2.2.trans hfail₁)
  -- an allocation failed: the completions are destroyed all the same
  · show Meets trackProtocol (whenOk st _ >>= _) _ g₁
    rw [whenOk_ne hne, ret_bind]
    refine meets_seq (track_freeOpBuffers h₁.held) fun _ g₂ h₂ => ?_
    have hinits₂ : g₂.inits = [] := h₂.2.rest.1.trans h₁.inits
    refine meets_call trivial fun _ _ => ?_
    refine meets_call trivial fun _ _ => ?_
    refine meets_call trivial fun _ _ => ?_
    refine meets_call trivial fun _ _ => .inr ⟨?_, ?_, i, hi, ?_⟩
    · simp [Tracking.next, Tracking.bareAfter, Tracking.initsAfter, hinits₂]
    · exact h₂.2.rest.2.trans h₁.held.counted
    · exact h₂.2.failures.trans hfail₁

/-! ### The whole worker -/

theorem startInstance_ne {st : CpaStatus} (h : st ≠ success) (i n : ℕ) (arr : Ptr) :
    startInstance i st n arr = .ret st := by
  simp only [startInstance, whenOk_ne h, ret_bind]

theorem initSession_ne {st : CpaStatus} (h : st ≠ success) (i : ℕ) :
    initSession i st = .ret (st, none) := by
  simp only [initSession, whenOkSet_ne h, ret_bind, whenOk_ne h]
  rfl

/-- The allocations a successful construction makes. -/
def constructions (num : ℕ) : ℕ := if num = 0 then 0 else 1 + 4 * num

theorem harmless_session (num : ℕ) : Tracking.Harmless num (constructions num) := by
  unfold constructions
  split
  · exact .inl rfl
  · next h => exact .inr ⟨h, .inr (Nat.add_comm 1 _)⟩

theorem not_harmless_operation (num i : ℕ) :
    ¬ Tracking.Harmless num (constructions num + 1 + i) := by
  unfold constructions
  rintro (h | ⟨hnum, h⟩)
  · omega
  · rw [if_neg hnum] at h
    omega

/-- What is held while nothing went wrong. -/
structure Going (arr : Ptr) (num : ℕ) (out extra : List BlockId) (made : ℕ) (st : CpaStatus)
    (g : Tracking) : Prop where
  held : Held g arr num extra out
  inits : g.inits = []
  harmless : g.FailsHarmlessly
  granted : st = success → g.failures = [] ∧ g.allocations = made

theorem InterEnd.going_or_broken {st : CpaStatus} (h : InterEnd (st, num, arr) g) :
    (∃ out, Going arr num out [] (constructions num) st g) ∨
      (st ≠ success ∧ ∃ a, arr = some a ∧ (∃ e < num, Broken g.mem a e) ∧ ¬ g.FailsHarmlessly) := by
  obtain ⟨hinits, hnum, h⟩ := h
  dsimp only at hnum h
  cases arr with
  | none =>
    obtain ⟨hholds, hst, hfail⟩ := h
    refine .inl ⟨[], ⟨rfl, hholds, hnum⟩, hinits, fun k hk => .inl (hfail k hk), fun he => ?_⟩
    obtain ⟨rfl, hgranted⟩ := hst he
    exact hgranted
  | some a =>
    obtain ⟨hne, ⟨xs, hlen, hshape, hholds, hrun⟩ | ⟨hst, hbroken, k, hfail, hpos, hlt⟩⟩ := h
    · refine .inl ⟨structureBlocks a xs, ⟨⟨xs, hlen, hshape, rfl⟩, hholds, hnum⟩, hinits, ?_, ?_⟩
      · intro k hk
        rcases hrun with ⟨-, hfail, -⟩ | ⟨-, -, hfail⟩
        · rw [hfail] at hk
          cases hk
        · rw [hfail, List.mem_singleton] at hk
          rw [hnum]
          exact .inr ⟨hne, .inl hk⟩
      · intro hst
        rcases hrun with ⟨-, hfail, halloc⟩ | ⟨hno, -⟩
        · exact ⟨hfail, by rw [halloc, constructions, if_neg hne]⟩
        · exact absurd hst hno
    -- the loop broke off at allocation `k` with `0 < k < 4 * num`, which is not harmless
    · refine .inr ⟨hst, a, rfl, hbroken, fun hharm => ?_⟩
      have hk := hharm k (by simp [hfail])
      rw [hnum] at hk
      rcases hk with hk | ⟨-, hk⟩ <;> omega

variable {made : ℕ} {st : CpaStatus}

theorem track_initSession (i : ℕ) (h : Going arr num out [] (constructions num) st g) :
    Meets trackProtocol (initSession i st) (fun r g' =>
      Going arr num out r.2.toList (constructions num + 1) r.1 g') g := by
  have hnone : ∀ {st' : CpaStatus}, st' ≠ success →
      Going arr num out [] (constructions num + 1) st' g :=
    fun hne => ⟨h.held, h.inits, h.harmless, fun he => absurd he hne⟩
  by_cases hst : st = success
  · subst hst
    obtain ⟨hfail, halloc⟩ := h.granted rfl
    refine meets_seq (M := fun _ g' => g' = g) ?_ ?_
    · rw [whenOkSet_success]
      exact track_silent (silent_startPolling i) g
    rintro ⟨st, size⟩ g₁ rfl
    refine meets_seq (M := fun r g' => Going arr num out r.2.toList (constructions num + 1) r.1 g')
      ?_ ?_
    · by_cases hst : st = success
      · subst hst
        rw [whenOkSet_success]
        refine track_memAlloc ⟨h.held.refused .contig size, h.inits, fun k hk => ?_, ?_⟩ fun base => ?_
        · have hk' : k ∈ g₁.allocations :: g₁.failures := hk
          rw [hfail, halloc, List.mem_singleton] at hk'
          rw [hk', (h.held.refused .contig size).counted]
          exact harmless_session num
        · exact fun he => absurd he resource_ne_success
        · refine ⟨h.held.alloc .contig size base, h.inits, h.harmless, fun _ => ⟨hfail, ?_⟩⟩
          exact congrArg (· + 1) halloc
      · rw [whenOkSet_ne hst]
        exact hnone hst
    · rintro ⟨st, p⟩ g₂ h₂
      dsimp only at h₂ ⊢
      by_cases hst : st = success
      · subst hst
        refine meets_seq (track_silent (silent_apiWhenOk i success .cpaDcInitSession) g₂) ?_
        rintro st' g₃ rfl
        exact ⟨h₂.held, h₂.inits, h₂.harmless, fun _ => h₂.granted rfl⟩
      · rw [whenOk_ne hst]
        exact h₂
  · rw [initSession_ne hst]
    exact hnone hst

/-- Before the clean-up: all that is held is known, or the operation went wrong. -/
def BeforeCleanUp (arr : Ptr) (num : ℕ) (out extra : List BlockId) (g : Tracking) : Prop :=
  Held g arr num extra out ∧ g.FailsHarmlessly ∨ g.bare = true ∧ ¬ g.FailsHarmlessly

theorem track_runSession (i : ℕ) {session : Ptr}
    (h : Going arr num out extra (constructions num + 1) success g) :
    Meets trackProtocol (runSession i session)
      (fun _ g' => BeforeCleanUp arr num out extra g') g := by
  obtain ⟨hfail, halloc⟩ := h.granted rfl
  refine meets_call trivial fun _ _ => ?_
  refine meets_seq (track_silent (silent_dcInstHandle i) g) ?_
  rintro inst g₁ rfl
  refine meets_seq (track_compPerformOp h.held h.inits hfail halloc inst session) fun st g₂ h₂ => ?_
  have hafter : Only Call.Silent (do
      let inst ← dcInstHandle i
      let sessionStatus ← invoke (.api .cpaDcRemoveSession inst)
      if st = success then pure sessionStatus else pure st) := by
    refine only_bind (silent_dcInstHandle i) fun inst => ?_
    refine only_bind ((only_perform _ _).mpr trivial) fun st' => ?_
    split <;> trivial
  refine meets_mono (track_silent hafter g₂) ?_
  rintro - g₃ rfl
  rcases h₂ with ⟨hheld, hfail₂⟩ | ⟨hbare, hnum, k, -, hfail₂⟩
  · refine .inl ⟨hheld, fun k hk => ?_⟩
    rw [hfail₂] at hk
    cases hk
  · refine .inr ⟨hbare, fun hharm => not_harmless_operation num k ?_⟩
    have hk := hharm (constructions num + 1 + k) (by simp [hfail₂])
    rwa [hnum] at hk

theorem track_fault_settled {T : Tracking → Prop} {session : Ptr}
    (hfault : Meets trackProtocol (cleanUp session arr num) (fun _ g' => T g') g)
    (hT : ∀ g', T g' → ¬ g'.Clean) (hharm : ¬ g.FailsHarmlessly) :
    Meets trackProtocol (cleanUp session arr num) (fun _ g' => g'.Settled) g := by
  -- the clean-up allocates nothing, so the failures are those before it
  refine meets_mono (track_steady (after_cleanUp session arr num) g hfault) ?_
  rintro - g' ⟨hg', hsteady⟩
  have hharm' : ¬ g'.FailsHarmlessly := fun hf => hharm (hsteady.failsHarmlessly_iff.mp hf)
  exact iff_of_false (hT g' hg') hharm'

theorem track_cleanUp_settled {session : Ptr}
    (h : BeforeCleanUp arr num out session.toList g) :
    Meets trackProtocol (cleanUp session arr num) (fun _ g' => g'.Settled) g := by
  rcases h with ⟨hheld, hharm⟩ | ⟨hbare, hharm⟩
  · refine meets_mono (track_steady (after_cleanUp session arr num) g (track_cleanUp hheld)) ?_
    exact fun _ g' h' => h'.1.settled (h'.2.failsHarmlessly_iff.mpr hharm)
  · have hkeep := track_persists (T := fun g => g.bare = true) (fun _ c r h => bare_next h c r)
      (cleanUp session arr num) g hbare
    refine track_fault_settled hkeep (fun g' hbare' hclean => ?_) hharm
    exact absurd (hbare'.symm.trans hclean.2.2) (by decide)

theorem track_broken_settled {a : BlockId} {e : ℕ} (h : Broken g.mem a e) (hlt : e < num)
    (hharm : ¬ g.FailsHarmlessly) :
    Meets trackProtocol (cleanUp none (some a) num) (fun _ g' => g'.Settled) g := by
  refine track_fault_settled (track_cleanUp_broken h hlt) (fun g' hunsound hclean => ?_) hharm
  exact absurd (hunsound.symm.trans hclean.1) (by decide)

theorem track_enqueueQATWork (m : Mem) (i : ℕ) :
    Meets trackProtocol (enqueueQATWork i) (fun _ g => g.Settled) (Tracking.start m) := by
  refine meets_call trivial fun _ _ => ?_
  refine meets_seq (track_silent (silent_dcInstHandle i) (Tracking.start m)) ?_
  rintro inst g rfl
  refine meets_seq (track_silent
    ((only_perform Call.Silent (.cpaDcQueryCapabilities inst)).mpr trivial) (Tracking.start m)) ?_
  rintro ⟨st, cap⟩ g rfl
  dsimp only
  split
  · exact (holds_counted m 0).settled fun k hk => absurd hk List.not_mem_nil
  refine meets_seq (track_interBuffers m i cap st) ?_
  rintro ⟨st, num, arr⟩ g h
  dsimp only
  rcases h.going_or_broken with ⟨out, h⟩ | ⟨hne, a, rfl, ⟨e, hlt, hbroken⟩, hharm⟩
  · refine meets_seq (M := fun st g' => Going arr num out [] (constructions num) st g') ?_ ?_
    · by_cases hst : st = success
      · subst hst
        refine meets_mono (track_silent (silent_startInstance i success num arr) g) ?_
        rintro st g' rfl
        exact ⟨h.held, h.inits, h.harmless, fun _ => h.granted rfl⟩
      · rw [startInstance_ne hst]
        exact h
    intro st g₁ h₁
    refine meets_seq (track_initSession i h₁) ?_
    rintro ⟨st, session⟩ g₂ h₂
    dsimp only at h₂ ⊢
    refine meets_seq (M := fun _ g' => BeforeCleanUp arr num out session.toList g') ?_ ?_
    · by_cases hst : st = success
      · subst hst
        rw [whenOk_success]
        exact track_runSession i h₂
      · rw [whenOk_ne hst]
        exact .inl ⟨h₂.held, h₂.harmless⟩
    intro st g₃ h₃
    refine meets_seq (track_silent (silent_apiWhenOk i st .cpaDcGetStats) g₃) ?_
    rintro st g₄ rfl
    exact meets_seq (track_cleanUp_settled h₃) fun _ _ h => h
  -- everything up to the clean-up is skipped
  · rw [startInstance_ne hne, ret_bind, initSession_ne hne, ret_bind]
    dsimp only
    rw [whenOk_ne hne, ret_bind, whenOk_ne hne, ret_bind]
    exact meets_seq (track_broken_settled hbroken hlt hharm) fun _ _ h => h

/-! ### Every run -/

def tracking (cfg : Cfg) (l : List Entry) : Tracking :=
  ghost trackProtocol (Tracking.start (World.initial cfg).mem) (.worker 0) l

variable {cfg : Cfg} {s : State}

/-- A worker alone is the only one to use memory. -/
theorem tracking_mem {p : Code CpaStatus} (hr : Reach (Step cfg) (solo cfg p) s) :
    Alone s ∧ (tracking cfg s.log).mem = s.world.mem := by
  refine hr.invariant (I := fun s => Alone s ∧ (tracking cfg s.log).mem = s.world.mem)
    ⟨alone_solo cfg p, rfl⟩ ?_
  rintro s e s' - ⟨hone, hmem⟩ hst -
  refine ⟨alone_step hone hst, ?_⟩
  cases hst with
  | main hm ha =>
    rw [hone.main] at hm
    cases hm
  | @worker j c k r hrun hw ha =>
    obtain rfl := hone.worker j _ hw
    show (ghost trackProtocol _ _ (.call (.worker 0) c r :: s.log)).mem = _
    rw [ghost_own]
    exact congrArg (fun m => memAfter (.worker 0) m c r) hmem
  | @poller j p c k r hrun hp hn ha =>
    show (ghost trackProtocol _ _ (.call (.poller j) c r :: s.log)).mem = _
    rw [ghost_other _ _ (by simp)]
    exact hmem.trans (memAfter_poller (.poller j) _ (ofPoller_next hn) r).symm
  | callback hrun hq hresp => exact hmem

theorem rely_of_allowed {g : Tracking} (hmem : g.mem = s.world.mem) {c : Call} {r : c.Resp}
    (ha : Allowed cfg s (.worker 0) c r) : g.Rely c r := by
  cases c <;> try trivial
  case memAlloc a n =>
    cases r with
    | none => trivial
    | some x => exact ha.1.trans (congrArg Memory.next hmem.symm)
  case enterFrame => exact ha.1.trans (congrArg Memory.next hmem.symm)
  case load p f =>
    show ∀ v' ∈ fieldOf g.mem p f, r = v'
    rw [hmem]
    exact ha

/-- When a worker returns, its clean-up was sound, each of its blocks was freed once
and nothing else was, and no completion was destroyed that had not been initialised,
exactly if no allocation failed but that of the array, of the last data buffer or of
the session memory. -/
theorem clean_up_iff (cfg : Cfg) (i : ℕ) (s : State) (st : CpaStatus)
    (hr : Reach (Step cfg) (solo cfg (enqueueQATWork i)) s)
    (hw : s.worker 0 = some (.ret st)) :
    (tracking cfg s.log).Clean ↔ (tracking cfg s.log).FailsHarmlessly := by
  have hmeets : WorkerMeets 0 trackProtocol (Tracking.start (World.initial cfg).mem)
      (fun _ g => g.Settled) s := by
    refine worker_meets (workerMeets_solo cfg 0 (track_enqueueQATWork _ i)) ?_ hr
    rintro s e s' hreach hst - c r rfl
    cases hst with
    | worker hrun hw ha => exact rely_of_allowed (tracking_mem hreach).2 ha
  exact hmeets.left _ hw

set_option maxRecDepth 20000 in
theorem clean_up_iff_run :
    ∃ s : State, (tracking oneUnpolled s.log).blocks.released.length = 12 ∧
      (tracking oneUnpolled s.log).Clean := by
  have hrun : (replay oneUnpolled (requiresBuffers oneUnpolled) (fun _ _ => true)
      (solo oneUnpolled (enqueueQATWork 0)) (List.replicate 49 (.worker 0) ++
        [.callback 2 .ok none, .callback 1 .ok none, .callback 0 .ok none] ++
        List.replicate 36 (.worker 0))).any
      (fun s => returnedWith (s.worker 0) = some success ∧
        (tracking oneUnpolled s.log).blocks.released.length = 12 ∧
        (tracking oneUnpolled s.log).failures = []) = true := by decide +kernel
  obtain ⟨s, hr, hT⟩ := exists_reached hrun
  obtain ⟨hret, hlen, hfail⟩ := of_decide_eq_true hT
  refine ⟨s, hlen, (clean_up_iff oneUnpolled 0 s success hr.reach (eq_of_returnedWith hret)).mpr ?_⟩
  intro k hk
  rw [hfail] at hk
  cases hk

/-- The list behind the array cannot be allocated. -/
def listRefused (cfg : Cfg) (s : State) : (c : Call) → c.Resp
  | .memAlloc a n => if s.world.mem.next = 1 then none else requiresBuffers cfg s (.memAlloc a n)
  | c => requiresBuffers cfg s c

set_option maxRecDepth 20000 in
theorem null_followed :
    ∃ s st, Reach (Step oneUnpolled) (solo oneUnpolled (enqueueQATWork 0)) s ∧
      s.worker 0 = some (.ret st) ∧ ¬ (tracking oneUnpolled s.log).Clean := by
  have hrun : (replay oneUnpolled (listRefused oneUnpolled) (fun _ _ => true)
      (solo oneUnpolled (enqueueQATWork 0)) (List.replicate 19 (.worker 0))).any
      (fun s => returnedWith (s.worker 0) = some resource ∧
        ¬ (tracking oneUnpolled s.log).Clean) = true := by decide +kernel
  obtain ⟨s, hr, hT⟩ := exists_reached hrun
  obtain ⟨hret, hnot⟩ := of_decide_eq_true hT
  exact ⟨s, resource, hr.reach, eq_of_returnedWith hret, hnot⟩

end QatDcSample
