import QatDcSample.NumaRuns
import QatDcSample.Lib.Transition

/-!
# The memory library as a whole

`qaeMemAllocNUMA` and `qaeMemFreeNUMA` on any state they can reach, from an empty
library on: they refine an abstract memory of blocks that lie apart.
-/

namespace QatDcSample
namespace Numa

open Slab PageTable
open BlockMemory (Region)

variable {hugepages : Bool}

namespace Memory

variable {m m' : Memory hugepages}

/-! ### Allocation -/

/-- What the kernel is relied on for when a request asks it for a slab: the offer fits
the state in which it is asked. -/
def KernelOk (m : Memory hugepages) (size : ℕ) (node : ℤ) (phys_alignment_byte : ℕ)
    (kernel : SlabRequest → SlabAnswer) : Prop :=
  ∀ m₁ new, kernel (slabRequest hugepages size node phys_alignment_byte) = .ok new →
    (if isLarge size phys_alignment_byte then m₁ = m
      else m.findSlab size node (phys_alignment_byte / UNIT_SIZE) = some (none, m₁)) →
    Offer m₁ (slabRequest hugepages size node phys_alignment_byte) new

theorem slabRequest_large (hugepages : Bool) {size phys_alignment_byte : ℕ} (node : ℤ)
    (hl : isLarge size phys_alignment_byte = true)
    (hmax : size + UNIT_SIZE ≤ UInt64.size)
    (halign : phys_alignment_byte + UNIT_SIZE ≤ UInt64.size) :
    (slabRequest hugepages size node phys_alignment_byte).type = .LARGE ∧
      size ≤ (slabRequest hugepages size node phys_alignment_byte).size := by
  have hdiv := divRoundUp_eq (show max size phys_alignment_byte + UNIT_SIZE ≤ UInt64.size by omega)
  rw [slabRequest, if_pos hl]
  refine ⟨rfl, ?_⟩
  change size ≤ divRoundUp (max size phys_alignment_byte) UNIT_SIZE * UNIT_SIZE
  have hu : UNIT_SIZE = 1024 := rfl
  rw [hdiv, hu]
  omega

theorem slabRequest_small (hugepages : Bool) {size phys_alignment_byte : ℕ} (node : ℤ)
    (hl : ¬ isLarge size phys_alignment_byte = true) :
    (slabRequest hugepages size node phys_alignment_byte).type ≠ .LARGE ∧
      (slabRequest hugepages size node phys_alignment_byte).size = SLAB_SIZE := by
  rw [slabRequest, if_neg hl]
  constructor
  · change (if hugepages then SlabType.HUGE_PAGE else .SMALL) ≠ .LARGE
    cases hugepages <;> decide
  · rfl

/-- What an allocation does to the blocks alive. -/
def AllocResult (m m' : Memory hugepages) (size phys_alignment_byte : ℕ)
    (answer : Option ℕ) : Prop :=
  Inv m' none ∧ ((answer = none ∧ SameLive m m') ∨
    ∃ a n, answer = some a ∧ size ≤ n ∧ Added m m' ⟨a, n⟩ ∧
      (isLarge size phys_alignment_byte = false → AtUnit m' (phys_alignment_byte / UNIT_SIZE) a))

section
variable {size phys_alignment_byte : ℕ} {node : ℤ} {kernel : SlabRequest → SlabAnswer}
  {mmaps : ℕ → ℕ → Bool}

theorem allocAddr_spec (h : Inv m none) (hsize : size ≠ 0) (hmax : size + UNIT_SIZE ≤ UInt64.size)
    (halign : phys_alignment_byte + UNIT_SIZE ≤ UInt64.size)
    (hk : KernelOk m size node phys_alignment_byte kernel) (hall : ∀ i l, mmaps i l = true) :
    ∃ answer m', m.allocAddr size node phys_alignment_byte kernel mmaps = some (answer, m') ∧
      AllocResult m m' size phys_alignment_byte answer := by
  unfold allocAddr
  by_cases hl : isLarge size phys_alignment_byte = true
  · obtain ⟨htype, hle⟩ := slabRequest_large hugepages node hl hmax halign
    simp only [if_pos hl]
    split
    · exact ⟨none, m, rfl, h, .inl ⟨rfl, fun _ => Iff.rfl⟩⟩
    · cases hn : kernel (slabRequest hugepages size node phys_alignment_byte) with
      | error nodeId =>
        simp only [allocSlab, hn]
        exact ⟨none, _, rfl, h.noteNode, .inl ⟨rfl, fun _ => Iff.rfl⟩⟩
      | ok new =>
        have ho := hk m new hn (by rw [if_pos hl])
        obtain ⟨answer, m', huse, hinv', hout⟩ := useSlab_spec (phys_alignment_byte / UNIT_SIZE)
          h ho hall (fun hne => absurd htype hne) (fun _ => hle) hsize hmax hn
          (by simp only [allocSlab, hn]; rfl)
        simp only [allocSlab, hn]
        refine ⟨answer, m', huse, hinv', ?_⟩
        obtain hnone | ⟨a, n, ha, hn, hadd, _⟩ := hout
        · exact .inl hnone
        · refine .inr ⟨a, n, ha, hn, hadd, fun hno => ?_⟩
          rw [hl] at hno
          cases hno
  · obtain ⟨htype, hreq⟩ := slabRequest_small hugepages node hl
    obtain ⟨res, m₁, hfind, hcase⟩ := findSlab_spec (phys_alignment_byte / UNIT_SIZE) node
      h hsize hmax
    simp only [if_neg hl, hfind]
    obtain ⟨rfl, hinv, hlive⟩ | ⟨p, addr, rfl, hinv, hadd, hunit⟩ := hcase
    · cases hn : kernel (slabRequest hugepages size node phys_alignment_byte) with
      | error nodeId =>
        simp only [allocSlab, hn]
        exact ⟨none, _, rfl, hinv.noteNode, .inl ⟨rfl, hlive⟩⟩
      | ok new =>
        have ho := hk m₁ new hn (by rw [if_neg hl]; exact hfind)
        obtain ⟨answer, m', huse, hinv', hout⟩ := useSlab_spec
          (phys_alignment_byte / UNIT_SIZE) hinv ho hall (fun _ => hreq)
          (fun ht => absurd ht htype) hsize hmax hn
          (by simp only [allocSlab, hn]; rfl)
        simp only [allocSlab, hn]
        refine ⟨answer, m', huse, hinv', ?_⟩
        obtain ⟨hnone, hsame⟩ | ⟨a, n, ha, hn, hadd, hunit⟩ := hout
        · exact .inl ⟨hnone, fun x => (hsame x).trans (hlive x)⟩
        · refine .inr ⟨a, n, ha, hn, ⟨fun hx => hadd.new ((hlive _).mpr hx), fun x => ?_⟩,
            fun _ => hunit htype⟩
          rw [← hlive x]
          exact hadd.live x
    · exact ⟨some addr, _, rfl, hinv, .inr ⟨addr, _, rfl, le_blockAt addr size, hadd,
        fun _ => hunit⟩⟩

theorem alignmentOk_le (h : alignmentOk phys_alignment_byte = true) :
    phys_alignment_byte ≤ QAE_MAX_PHYS_ALIGN := by
  simp only [alignmentOk, Bool.and_eq_true, decide_eq_true_eq] at h
  exact h.1.2

/-- Every request is answered: with no block, or with one of at least the size asked
for that no block alive meets. -/
theorem qaeMemAllocNUMA_spec (h : Inv m none)
    (hk : KernelOk m size node phys_alignment_byte kernel) (hall : ∀ i l, mmaps i l = true) :
    ∃ answer m', m.qaeMemAllocNUMA size node phys_alignment_byte kernel mmaps =
      some (answer, m') ∧ AllocResult m m' size phys_alignment_byte answer := by
  have hnone : AllocResult m m size phys_alignment_byte none := ⟨h, .inl ⟨rfl, fun _ => Iff.rfl⟩⟩
  unfold qaeMemAllocNUMA
  split
  · exact ⟨none, m, rfl, hnone⟩
  · next hsize =>
    split
    · exact ⟨none, m, rfl, hnone⟩
    · next hmax =>
      split
      · exact ⟨none, m, rfl, hnone⟩
      · next hok =>
        have hle := alignmentOk_le (by simpa using hok)
        have hs : UInt64.size = 18446744073709551616 := rfl
        have hu : UNIT_SIZE = 1024 := rfl
        have hm : QAE_MAX_ALLOC_SIZE = 4194304 := rfl
        have ha : QAE_MAX_PHYS_ALIGN = 4194304 := rfl
        exact allocAddr_spec h hsize (by omega) (by omega) hk hall

end

/-! ### Release -/

/-- What a release of the address `va` does to the blocks alive. -/
def FreeResult (m m' : Memory hugepages) (va : ℕ) : Prop :=
  Inv m' none ∧ ((∃ r, Removed m m' r ∧ r.base ≤ va ∧ va < r.base + r.size) ∨
    ((∀ r, LiveRegion m r → r.base ≠ va) ∧ SameLive m m'))

theorem recycle_spec {p : ℕ} (h : Inv { m with userMem := m.userMem.erase p } (some p))
    (hu : InUse (m.slab p) p) (hz : (m.slab p).allocations = 0) :
    Inv (m.recycle p) none ∧ ∀ x, LiveRegion (m.recycle p) x ↔
      LiveRegion { m with userMem := m.userMem.erase p } x := by
  unfold recycle pushSlab
  by_cases hroom : m.cache_size + (m.slab p).size ≤ MAX_CACHE
  · rw [if_pos hroom]
    exact ⟨h.toCache hu hz hroom, fun _ => Iff.rfl⟩
  · rw [if_neg hroom]
    exact ⟨h.free, fun _ => Iff.rfl⟩

/-- The updates of a slab whose block was taken back. -/
theorem setCtrl_decr (p : ℕ) (c' : BlockCtrl) :
    (m.setCtrl p c').setSlab p { (m.setCtrl p c').slab p with
      allocations := decr32 ((m.setCtrl p c').slab p).allocations } =
      m.setSlab p (givenInfo (m.slab p) c') := by
  simp only [setCtrl, setSlab, Function.update_self, Function.update_idem, givenInfo]

theorem fromLarge_live (h : Inv m none) {p : ℕ} (hp : p ∈ m.userLargeMem) (x : Region) :
    LiveRegion { m with userLargeMem := m.userLargeMem.erase p } x ↔
      LiveRegion m x ∧ x ≠ ⟨(m.slab p).virt_addr, (m.slab p).size⟩ := by
  have hmem := fun q => h.largeNodup.mem_erase_iff (a := q) (b := p)
  obtain ⟨htype, hpos⟩ := h.large p hp
  have hmap : m.Mapped p := (h.all p).mpr (.inr (.inl hp))
  have hself : (m.slab p).virt_addr ≤ (m.slab p).virt_addr ∧
      (m.slab p).virt_addr < (m.slab p).virt_addr + (m.slab p).size :=
    ⟨Nat.le_refl _, Nat.lt_add_of_pos_right hpos⟩
  constructor
  · intro hx
    obtain ⟨q, hq, hr⟩ | ⟨q, hq, hr⟩ := hx
    · refine ⟨.inl ⟨q, hq, hr⟩, fun he => ?_⟩
      obtain ⟨hu, _⟩ := h.user q hq
      have hin := hr.inside hu.wellFormed
      rw [he] at hin
      dsimp only at hin
      have hsame : q = p := by
        apply h.core.same_slab ((h.all q).mpr (.inl hq)) hmap _ hself
        rw [hu.virt, hu.size]
        omega
      subst hsame
      exact hu.type htype
    · obtain ⟨hqp, hq⟩ := (hmem q).mp hq
      refine ⟨.inr ⟨q, hq, hr⟩, fun he => ?_⟩
      have hbase := congrArg Region.base (hr.symm.trans he)
      have hqpos := (h.large q hq).2
      have hbase' : (m.slab q).virt_addr = (m.slab p).virt_addr := hbase
      apply hqp
      apply h.core.same_slab ((h.all q).mpr (.inr (.inl hq))) hmap _ hself
      omega
  · intro ⟨hx, hne⟩
    obtain ⟨q, hq, hr⟩ | ⟨q, hq, hr⟩ := hx
    · exact .inl ⟨q, hq, hr⟩
    · refine .inr ⟨q, (hmem q).mpr ⟨fun he => ?_, hq⟩, hr⟩
      subst he
      exact hne hr

theorem freeAddr_spec (h : Inv m none) {va : ℕ} (hva : va < UInt64.size) (secure_free : Bool) :
    ∃ m', m.freeAddr va secure_free = some m' ∧ FreeResult m m' va := by
  unfold freeAddr
  cases hf : m.findSlabInHash va with
  | none =>
    refine ⟨m, rfl, h, .inr ⟨fun r hr he => ?_, fun _ => Iff.rfl⟩⟩
    -- a block alive is in a slab, and the slab would have been found
    obtain ⟨p, hp, hlo, hhi, hpos, _⟩ := hr.slab h
    have hfound := (findSlabInHash_iff h.core (p := p) hva).mpr ⟨hp, by omega, by omega⟩
    rw [hf] at hfound
    cases hfound
  | some p =>
    obtain ⟨hp, hlo, hhi⟩ := (findSlabInHash_iff h.core hva).mp hf
    obtain hu | hl | hc | hloose := (h.all p).mp hp
    · obtain ⟨hin, _⟩ := h.user p hu
      rw [hin.virt] at hlo hhi
      rw [hin.size] at hhi
      obtain ⟨r, hcall, hcase⟩ := qaeMemFree_spec hin.wellFormed hin.placed hlo hhi secure_free
      dsimp only
      rw [if_neg hin.type, hcall]
      obtain ⟨hno, rfl⟩ | ⟨s, rfl, hne, hrel, _, hg⟩ := hcase
      · refine ⟨m, ?_, h, .inr ⟨fun r hr he => ?_, fun _ => Iff.rfl⟩⟩
        · dsimp only
          rw [setCtrl_self]
          rfl
        · obtain ⟨b, hb, rfl⟩ := SlabRegion.only h hu (by omega) (by omega) hr
          exact hb (hno b he.symm)
      · have hpos : 0 < extent (m.slab p).ctrl s * UNIT_SIZE :=
          Nat.mul_pos (Nat.pos_of_ne_zero hne) (by decide)
        have hold : LiveRegion m ⟨p + s * UNIT_SIZE, extent (m.slab p).ctrl s * UNIT_SIZE⟩ :=
          .inl ⟨p, hu, s, hne, rfl⟩
        have hinfo := givenInfo_inUse h hu hg hne
        have hslab : (m.setSlab p (givenInfo (m.slab p) r.block_ctrl)).slab p =
            givenInfo (m.slab p) r.block_ctrl := Function.update_self ..
        dsimp only
        rw [if_pos hrel, setCtrl_decr]
        have halloc : decr32 ((m.setCtrl p r.block_ctrl).slab p).allocations =
            (givenInfo (m.slab p) r.block_ctrl).allocations := by
          simp only [setCtrl, setSlab, Function.update_self, givenInfo]
        rw [halloc]
        by_cases hmore : (givenInfo (m.slab p) r.block_ctrl).allocations ≠ 0
        · rw [if_pos hmore]
          refine ⟨_, rfl, h.giveBack hu hg hne hmore, .inl ⟨_, ⟨hold, fun x => ?_⟩, ?_, ?_⟩⟩
          · rw [live_split h hu, givenInfo_ctrl]
            exact giveBack_live h hu hg hne x
          · exact Nat.le_refl _
          · exact Nat.lt_add_of_pos_right hpos
        · rw [if_neg hmore]
          have hz : (givenInfo (m.slab p) r.block_ctrl).allocations = 0 := not_not.mp hmore
          obtain ⟨hinv, hlive⟩ := recycle_spec
            (h.lastBack hu (givenInfo (m.slab p) r.block_ctrl) (samePlace_given p _))
            (by rw [hslab]; exact hinfo) (by rw [hslab]; exact hz)
          refine ⟨_, rfl, hinv, .inl ⟨_, ⟨hold, fun x => ?_⟩, ?_, ?_⟩⟩
          · have hcount := hinfo.count
            rw [hz, givenInfo_ctrl] at hcount
            rw [hlive x, ← giveBack_live h hu hg hne x]
            have hnone := slabRegion_none (p := p) hcount.symm x
            exact (lastBack_live h hu _ x).trans (or_iff_right hnone).symm
          · exact Nat.le_refl _
          · exact Nat.lt_add_of_pos_right hpos
    · obtain ⟨htype, hpos⟩ := h.large p hl
      dsimp only
      rw [if_pos htype]
      have hi := h.fromLarge hl
      refine ⟨_, rfl, hi.free, .inl ⟨⟨(m.slab p).virt_addr, (m.slab p).size⟩, ⟨?_, ?_⟩, hlo, hhi⟩⟩
      · exact .inr ⟨p, hl, rfl⟩
      · exact fromLarge_live h hl
    · obtain ⟨hin, hz⟩ := h.cache p hc
      rw [hin.virt] at hlo hhi
      rw [hin.size] at hhi
      have hnone : ∀ s, extent (m.slab p).ctrl s = 0 := by
        apply liveCount_eq_zero
        rw [← hin.count]
        exact hz
      obtain ⟨r, hcall, hcase⟩ := qaeMemFree_spec hin.wellFormed hin.placed hlo hhi secure_free
      dsimp only
      rw [if_neg hin.type, hcall]
      obtain ⟨hno, rfl⟩ | ⟨s, _, hne, _⟩ := hcase
      · refine ⟨m, ?_, h, .inr ⟨fun r hr he => ?_, fun _ => Iff.rfl⟩⟩
        · dsimp only
          rw [setCtrl_self]
          rfl
        · -- a slab of the cache has no block alive
          obtain ⟨q, hq, hqlo, hqhi, hpos, hcase⟩ := hr.slab h
          have hsame : q = p := by
            apply h.core.same_slab (a := va) hq hp
            · omega
            · rw [hin.virt, hin.size]
              exact ⟨hlo, hhi⟩
          subst hsame
          obtain ⟨hu, _⟩ | ⟨hl, _⟩ := hcase
          · have := (h.user q hu).2
            omega
          · exact hin.type (h.large q hl).1
      · exact absurd (hnone s) hne
    · cases hloose

/-! ### Runs -/

/-- A process that has not allocated yet. -/
def empty (hugepages : Bool) : Memory hugepages where
  slab := fun _ => ⟨0, 0, .SMALL, 0, 0, 0, blankCtrl⟩
  userMem := []
  userLargeMem := []
  userCache := []
  slab_list := fun _ => []
  page_table := emptyTable (paging hugepages)
  cache_size := 0
  strict_node := true

/-- A call with what it answers. -/
inductive Call where
  | alloc (size : ℕ) (node : ℤ) (phys_alignment_byte : ℕ) (answer : Option ℕ)
  | free (va : ℕ) (secure_free : Bool)

/-- One call, with a kernel that keeps its word and maps every page table level that an
allocation needs. Where it does not, the slab is used all the same, and a release
does not find it. -/
def Step (m : Memory hugepages) : Call → Memory hugepages → Prop
  | .alloc size node phys_alignment_byte answer, m' =>
      ∃ kernel mmaps, KernelOk m size node phys_alignment_byte kernel ∧
        (∀ i l, mmaps i l = true) ∧
        m.qaeMemAllocNUMA size node phys_alignment_byte kernel mmaps = some (answer, m')
  | .free va secure_free, m' =>
      va < UInt64.size ∧ m.qaeMemFreeNUMA va secure_free = some m'

/-- The states that calls lead to, whatever their order. -/
def Reachable (m : Memory hugepages) : Prop := Transition.Reach Step (empty hugepages) m

theorem empty_inv : Inv (empty hugepages) none := by
  have hmap : ∀ p, ¬ (empty hugepages).Mapped p := fun p hp => by cases hp
  constructor
  · constructor
    · intro k p hp
      cases hp
    · intro k
      exact List.nodup_nil
    · intro p hp
      exact absurd hp (hmap p)
    · intro p q hp
      exact absurd hp (hmap p)
    · intro p q hp
      exact absurd hp (hmap p)
    · intro p hp
      exact absurd hp (hmap p)
  · exact List.nodup_nil
  · exact List.nodup_nil
  · exact List.nodup_nil
  · intro p hp
    cases hp
  · intro p hp
    cases hp
  · intro p hp
    cases hp
  · intro p hp
    cases hp
  · intro p
    constructor
    · intro hp
      exact absurd hp (hmap p)
    · intro hp
      obtain hp | hp | hp | hp := hp <;> cases hp
  · rfl
  · exact Nat.zero_le _

theorem qaeMemFreeNUMA_spec (h : Inv m none) {va : ℕ} (hva : va < UInt64.size)
    (secure_free : Bool) : ∃ m', m.qaeMemFreeNUMA va secure_free = some m' ∧
      (va = 0 ∧ m' = m ∨ FreeResult m m' va) := by
  unfold qaeMemFreeNUMA
  split
  · next hz => exact ⟨m, rfl, .inl ⟨hz, rfl⟩⟩
  · obtain ⟨m', hcall, hout⟩ := freeAddr_spec h hva secure_free
    exact ⟨m', hcall, .inr hout⟩

theorem Step.inv {c : Call} (hs : Step m c m') (h : Inv m none) : Inv m' none := by
  cases c with
  | alloc size node phys_alignment_byte answer =>
    obtain ⟨kernel, mmaps, hk, hall, hcall⟩ := hs
    obtain ⟨answer', m₁, hspec, hinv, _⟩ := qaeMemAllocNUMA_spec h hk hall
    rw [hcall, Option.some.injEq, Prod.mk.injEq] at hspec
    rw [hspec.2]
    exact hinv
  | free va secure_free =>
    obtain ⟨hva, hcall⟩ := hs
    obtain ⟨m₁, hspec, hout⟩ := qaeMemFreeNUMA_spec h hva secure_free
    rw [hcall, Option.some.injEq] at hspec
    subst hspec
    obtain ⟨_, rfl⟩ | ⟨hinv, _⟩ := hout
    · exact h
    · exact hinv

theorem Reachable.inv (hr : Reachable m) : Inv m none :=
  Transition.ReachVia.invariant (I := fun m => Inv m none) empty_inv
    (fun _ _ _ _ h hs _ => Step.inv hs h) hr

/-- A kernel with one slab to give. -/
def oneSlab (request : SlabRequest) : SlabAnswer :=
  .ok ⟨0x40000000, 0x40000000, 0x80000000#64, request.size, request.node⟩

theorem oneSlab_ok : KernelOk (empty true) 5000 0 2048 oneSlab := by
  intro m₁ new hnew hfind
  have hm : (empty true).findSlab 5000 0 (2048 / UNIT_SIZE) = some (none, empty true) := rfl
  rw [if_neg (by decide), hm, Option.some.injEq, Prod.mk.injEq] at hfind
  obtain ⟨-, rfl⟩ := hfind
  cases hnew
  have hmap : ∀ p, ¬ (empty true).Mapped p := fun p hp => by cases hp
  constructor
  · intro k hk
    cases hk
  · decide
  · constructor <;> decide
  · exact fun p hp => absurd hp (hmap p)
  · exact fun p hp => absurd hp (hmap p)
  · intro ht
    exact absurd ht (by decide)
  · exact fun _ => ⟨rfl, by decide⟩

theorem empty_live (r : Region) : ¬ LiveRegion (empty hugepages) r := by
  intro hr
  obtain ⟨p, hp, _⟩ | ⟨p, hp, _⟩ := hr <;> cases hp

/-- The first block of a process. -/
theorem first_alloc : ∃ (m : Memory true) (n : ℕ), 5000 ≤ n ∧
    Step (empty true) (.alloc 5000 0 2048 (some 0x40001800)) m ∧
    (∀ x, LiveRegion m x ↔ x = ⟨0x40001800, n⟩) ∧ AtUnit m 2 0x40001800 := by
  have hk := oneSlab_ok
  have hall : ∀ i l : ℕ, (fun _ _ => true : ℕ → ℕ → Bool) i l = true := fun _ _ => rfl
  obtain ⟨answer, m, hcall, _, hout⟩ := qaeMemAllocNUMA_spec empty_inv hk hall
  have ha : ((empty true).qaeMemAllocNUMA 5000 0 2048 oneSlab fun _ _ => true).map Prod.fst =
      some (some 0x40001800) := by decide +kernel
  rw [hcall, Option.map_some, Option.some.injEq] at ha
  subst ha
  obtain ⟨hnone, _⟩ | ⟨a, n, ha, hn, hadd, hunit⟩ := hout
  · cases hnone
  · cases ha
    refine ⟨m, n, hn, ⟨oneSlab, _, hk, hall, hcall⟩, fun x => ?_, hunit (by decide)⟩
    rw [hadd.live x]
    exact or_iff_right (empty_live x)

/-! ### The abstract memory -/

section
variable {τ F V : Type}

/-- A call on the abstract memory: an allocation answers with any fresh region of at
least the size; a release takes the block that the address is in, and can only miss
where no block starts. -/
def BlockStep (o : τ) (b : BlockMemory.Memory τ F V) : Call → BlockMemory.Memory τ F V → Prop
  | .alloc _ _ _ none, b' => b' = b
  | .alloc size _ _ (some a), b' =>
      ∃ n, size ≤ n ∧ b.Fresh b.next ⟨a, n⟩ ∧ b' = b.alloc o ⟨a, n⟩
  | .free va _, b' =>
      (∃ i, b.Live i ∧ (b.block i).region.base ≤ va ∧
        va < (b.block i).region.base + (b.block i).region.size ∧ b' = b.free i) ∨
      (b' = b ∧ ∀ i, b.Live i → (b.block i).region.base = va → va = 0)

/-- The blocks alive are those of the abstract memory. -/
structure Represents (m : Memory hugepages) (b : BlockMemory.Memory τ F V) : Prop where
  inv : Inv m none
  live : ∀ r, LiveRegion m r ↔ ∃ i, b.Live i ∧ (b.block i).region = r
  separated : b.Separated

variable {b : BlockMemory.Memory τ F V} {r : Region}

theorem Represents.same (h : Represents m b) (hinv : Inv m' none) (hs : SameLive m m') :
    Represents m' b :=
  ⟨hinv, fun r => (hs r).trans (h.live r), h.separated⟩

theorem Represents.alloc (h : Represents m b) (hinv : Inv m' none) (ha : Added m m' r) (o : τ) :
    b.Fresh b.next r ∧ Represents m' (b.alloc o r) := by
  have hfresh : b.Fresh b.next r := by
    refine ⟨rfl, fun i hi hlive => ?_⟩
    have hold : LiveRegion m (b.block i).region := (h.live _).mpr ⟨i, ⟨hi, hlive⟩, rfl⟩
    obtain heq | hdis := LiveRegion.apart hinv ((ha.live r).mpr (.inr rfl))
      ((ha.live _).mpr (.inl hold))
    · rw [← heq] at hold
      exact absurd hold ha.new
    · exact hdis
  refine ⟨hfresh, hinv, fun x => ?_, BlockMemory.Memory.separated_alloc h.separated hfresh⟩
  rw [ha.live x, h.live x]
  constructor
  · intro hx
    obtain ⟨i, hi, hreg⟩ | rfl := hx
    · exact ⟨i, (b.live_alloc o r i).mpr (.inl hi), by rw [b.alloc_block_old o r hi.1]; exact hreg⟩
    · exact ⟨b.next, (b.live_alloc o x _).mpr (.inr rfl), by rw [b.alloc_block_new]⟩
  · intro ⟨i, hi, hreg⟩
    obtain hi | rfl := (b.live_alloc o r i).mp hi
    · rw [b.alloc_block_old o r hi.1] at hreg
      exact .inl ⟨i, hi, hreg⟩
    · rw [b.alloc_block_new] at hreg
      exact .inr hreg.symm

theorem Represents.free (h : Represents m b) (hinv : Inv m' none) (hr : Removed m m' r) :
    ∃ i, b.Live i ∧ (b.block i).region = r ∧ Represents m' (b.free i) := by
  obtain ⟨i, hi, hreg⟩ := (h.live r).mp hr.old
  obtain ⟨_, _, _, _, hpos, _⟩ := hr.old.slab h.inv
  refine ⟨i, hi, hreg, hinv, fun x => ?_, BlockMemory.Memory.separated_free h.separated i⟩
  rw [hr.live x, h.live x]
  constructor
  · intro ⟨⟨j, hj, hx⟩, hne⟩
    refine ⟨j, (b.live_free i j).mpr ⟨hj, fun hji => ?_⟩, by rw [b.free_region]; exact hx⟩
    subst hji
    exact hne (hx.symm.trans hreg)
  · intro ⟨j, hj, hx⟩
    obtain ⟨hj, hji⟩ := (b.live_free i j).mp hj
    rw [b.free_region] at hx
    refine ⟨⟨j, hj, hx⟩, fun hxr => ?_⟩
    have hdis := h.separated j i hj hi hji
    rw [hx, hreg, hxr] at hdis
    simp only [Region.Disjoint] at hdis
    omega

theorem Step.represented {c : Call} (hs : Step m c m') (h : Represents m b) (o : τ) :
    ∃ b', BlockStep o b c b' ∧ Represents m' b' := by
  cases c with
  | alloc size node phys_alignment_byte answer =>
    obtain ⟨kernel, mmaps, hk, hall, hcall⟩ := hs
    obtain ⟨answer', m₁, hspec, hinv, hout⟩ := qaeMemAllocNUMA_spec h.inv hk hall
    rw [hcall, Option.some.injEq, Prod.mk.injEq] at hspec
    obtain ⟨rfl, rfl⟩ := hspec
    obtain ⟨rfl, hsame⟩ | ⟨a, n, rfl, hn, hadd, _⟩ := hout
    · exact ⟨b, rfl, h.same hinv hsame⟩
    · obtain ⟨hfresh, hrep⟩ := h.alloc hinv hadd o
      exact ⟨_, ⟨n, hn, hfresh, rfl⟩, hrep⟩
  | free va secure_free =>
    obtain ⟨hva, hcall⟩ := hs
    obtain ⟨m₁, hspec, hout⟩ := qaeMemFreeNUMA_spec h.inv hva secure_free
    rw [hcall, Option.some.injEq] at hspec
    subst hspec
    obtain ⟨hz, rfl⟩ | ⟨hinv, ⟨r, hrem, hlo, hhi⟩ | ⟨hno, hsame⟩⟩ := hout
    · exact ⟨b, .inr ⟨rfl, fun _ _ _ => hz⟩, h⟩
    · obtain ⟨i, hi, hreg, hrep⟩ := h.free hinv hrem
      refine ⟨_, .inl ⟨i, hi, ?_, ?_, rfl⟩, hrep⟩
      · rw [hreg]
        exact hlo
      · rw [hreg]
        exact hhi
    · refine ⟨b, .inr ⟨rfl, fun i hi hbase => ?_⟩, h.same hinv hsame⟩
      exact absurd hbase (hno _ ((h.live _).mpr ⟨i, hi, rfl⟩))

/-- No block yet. -/
def noBlocks (o : τ) : BlockMemory.Memory τ F V := ⟨0, fun _ => ⟨⟨0, 0⟩, o, false, fun _ => none⟩⟩

theorem empty_represents (o : τ) : Represents (empty hugepages) (noBlocks (F := F) (V := V) o) := by
  refine ⟨empty_inv, fun r => ?_, fun i j hi => absurd hi.1 (Nat.not_lt_zero i)⟩
  constructor
  · intro hr
    obtain ⟨p, hp, _⟩ | ⟨p, hp, _⟩ := hr <;> cases hp
  · intro ⟨i, hi, _⟩
    exact absurd hi.1 (Nat.not_lt_zero i)

end

/-- Whatever the calls and their order, what they answer is what an abstract memory of
blocks that never meet answers, and the blocks alive are its blocks. -/
theorem numa_refines {calls : List Call} (ht : Transition.Trace Step (empty hugepages) calls m) :
    ∃ b : BlockMemory.Memory Unit Empty Empty,
      Transition.Trace (BlockStep ()) (noBlocks ()) calls b ∧ b.Separated ∧
        ∀ r, LiveRegion m r ↔ ∃ i, b.Live i ∧ (b.block i).region = r := by
  obtain ⟨b, htrace, hrep⟩ := ht.simulate (R := fun m b => Represents m b)
    (fun _ _ _ _ hR hs => hs.represented hR ()) (empty_represents ())
  exact ⟨b, htrace, hrep.separated, hrep.live⟩

theorem numa_refines_first : ∃ (m : Memory true) (b : BlockMemory.Memory Unit Empty Empty),
    Transition.Trace (BlockStep ()) (noBlocks ()) [.alloc 5000 0 2048 (some 0x40001800)] b ∧
      ∀ r, LiveRegion m r ↔ ∃ i, b.Live i ∧ (b.block i).region = r := by
  obtain ⟨m, _, _, hstep, _⟩ := first_alloc
  obtain ⟨b, htrace, _, hlive⟩ := numa_refines (.cons hstep .nil)
  exact ⟨m, b, htrace, hlive⟩

/-- In every state the calls can lead to, each function comes to its end without an
access outside the bitmap or the sizes of any slab, whatever it is asked for. -/
theorem numa_total (hr : Reachable m) :
    (∀ size node phys_alignment_byte kernel mmaps,
      KernelOk m size node phys_alignment_byte kernel → (∀ i l, mmaps i l = true) →
      ∃ answer m', m.qaeMemAllocNUMA size node phys_alignment_byte kernel mmaps =
        some (answer, m')) ∧
      ∀ va secure_free, va < UInt64.size → ∃ m', m.qaeMemFreeNUMA va secure_free = some m' := by
  constructor
  · intro size node phys_alignment_byte kernel mmaps hk hall
    obtain ⟨answer, m', hcall, _⟩ := qaeMemAllocNUMA_spec hr.inv hk hall
    exact ⟨answer, m', hcall⟩
  · intro va secure_free hva
    obtain ⟨m', hcall, _⟩ := qaeMemFreeNUMA_spec hr.inv hva secure_free
    exact ⟨m', hcall⟩

/-- With a slab in use: a request while the kernel has no further slab, and a release. -/
theorem numa_total_first : ∃ m : Memory true, (∃ r, LiveRegion m r) ∧
    (∃ answer m', m.qaeMemAllocNUMA 3000 0 1024 (fun _ => .error none) (fun _ _ => true) =
      some (answer, m')) ∧
    ∃ m', m.qaeMemFreeNUMA 0x40001800 true = some m' := by
  obtain ⟨m, n, _, hstep, hlive, _⟩ := first_alloc
  obtain ⟨halloc, hfree⟩ := numa_total (.tail .refl hstep trivial)
  refine ⟨m, ⟨_, (hlive _).mpr rfl⟩, ?_, hfree 0x40001800 true (by decide)⟩
  exact halloc 3000 0 1024 _ _ (fun _ _ hnew _ => by cases hnew) fun _ _ => rfl

/-- A block alive starts above address 0 and within 64 bits. -/
theorem LiveRegion.bounds (h : Inv m none) {r : Region} (hr : LiveRegion m r) :
    r.base + r.size ≤ ADDRESS_SPACE ∧ 0 < r.size := by
  obtain ⟨p, hp, _, hhi, hpos, _⟩ := hr.slab h
  exact ⟨Nat.le_trans hhi (h.core.top hp), hpos⟩

/-- The address a block was handed out at gives back exactly that block. -/
theorem free_releases (hr : Reachable m) {r : Region} (hlive : LiveRegion m r) (hbase : r.base ≠ 0)
    (secure_free : Bool) :
    ∃ m', m.qaeMemFreeNUMA r.base secure_free = some m' ∧
      ∀ x, LiveRegion m' x ↔ LiveRegion m x ∧ x ≠ r := by
  have h := hr.inv
  obtain ⟨htop, hpos⟩ := hlive.bounds h
  have hsp : ADDRESS_SPACE = 144115188075855872 := rfl
  have hsz : UInt64.size = 18446744073709551616 := rfl
  obtain ⟨m', hcall, hout⟩ := qaeMemFreeNUMA_spec h
    (show r.base < UInt64.size by omega) secure_free
  refine ⟨m', hcall, ?_⟩
  obtain ⟨hz, _⟩ | ⟨_, ⟨r', hrem, hlo, hhi⟩ | ⟨hno, _⟩⟩ := hout
  · exact absurd hz hbase
  · obtain heq | hdis := LiveRegion.apart h hlive hrem.old
    · rw [heq]
      exact hrem.live
    · simp only [Region.Disjoint] at hdis
      omega
  · exact absurd rfl (hno r hlive)

theorem free_releases_first : ∃ m m' : Memory true, (∃ r, LiveRegion m r) ∧
    m.qaeMemFreeNUMA 0x40001800 true = some m' ∧ ∀ x, ¬ LiveRegion m' x := by
  obtain ⟨m, n, _, hstep, hlive, _⟩ := first_alloc
  obtain ⟨m', hfree, hleft⟩ := free_releases (.tail .refl hstep trivial) ((hlive _).mpr rfl)
    (show 0x40001800 ≠ 0 by decide) true
  refine ⟨m, m', ⟨_, (hlive _).mpr rfl⟩, hfree, fun x hx => ?_⟩
  obtain ⟨hold, hne⟩ := (hleft x).mp hx
  exact hne ((hlive x).mp hold)

/-- When every block was given back, no slab stays mapped but those of the cache, at
most four. -/
theorem nothing_kept (hr : Reachable m) (hnone : ∀ r, ¬ LiveRegion m r) :
    (∀ p, m.Mapped p ↔ p ∈ m.userCache) ∧ m.userCache.length ≤ 4 := by
  have h := hr.inv
  have huser : ∀ p, p ∉ m.userMem := by
    intro p hp
    obtain ⟨hu, hpos⟩ := h.user p hp
    -- the count is positive, so some allocation is alive
    rw [hu.count] at hpos
    obtain ⟨v, hv, hne⟩ := List.countP_pos_iff.mp hpos
    obtain ⟨s, hs, rfl⟩ := List.mem_iff_getElem.mp hv
    apply hnone ⟨p + s * UNIT_SIZE, extent (m.slab p).ctrl s * UNIT_SIZE⟩
    refine .inl ⟨p, hp, s, ?_, rfl⟩
    intro hz
    rw [extent, List.getD_eq_getElem?_getD, List.getElem?_eq_getElem hs, Option.getD_some] at hz
    have hzero : (m.slab p).ctrl.sizes[s] = 0 := UInt16.toNat_inj.mp hz
    simp [hzero] at hne
  have hlarge : ∀ p, p ∉ m.userLargeMem := fun p hp => hnone _ (.inr ⟨p, hp, rfl⟩)
  constructor
  · intro p
    rw [h.all p]
    simp only [huser p, hlarge p, false_or, reduceCtorEq, or_false]
  · have hc := h.cached
    have hb := h.bounded
    have hs : SLAB_SIZE = 2097152 := rfl
    have hm : MAX_CACHE = 8388608 := rfl
    rw [hc, hs, hm] at hb
    omega

theorem nothing_kept_first : ∃ m m' : Memory true, (∃ r, LiveRegion m r) ∧
    m.qaeMemFreeNUMA 0x40001800 true = some m' ∧ (∀ p, m'.Mapped p ↔ p ∈ m'.userCache) ∧
      m'.userCache.length ≤ 4 := by
  obtain ⟨m, n, _, hstep, hlive, _⟩ := first_alloc
  have hr : Reachable m := .tail .refl hstep trivial
  obtain ⟨m', hfree, hout⟩ := qaeMemFreeNUMA_spec hr.inv
    (show 0x40001800 < UInt64.size by decide) true
  have hstep' : Step m (.free 0x40001800 true) m' := ⟨by decide, hfree⟩
  have hr' : Reachable m' := .tail hr hstep' trivial
  have hnone : ∀ r, ¬ LiveRegion m' r := by
    obtain ⟨hz, _⟩ | ⟨_, ⟨r, hrem, _⟩ | ⟨hno, _⟩⟩ := hout
    · exact absurd hz (by decide)
    · intro x hx
      obtain ⟨hold, hne⟩ := (hrem.live x).mp hx
      exact hne (((hlive x).mp hold).trans ((hlive r).mp hrem.old).symm)
    · exact absurd rfl (hno _ ((hlive _).mpr rfl))
  exact ⟨m, m', ⟨_, (hlive _).mpr rfl⟩, hfree, nothing_kept hr' hnone⟩

/-! ### Physical addresses -/

/-- The physical address of every byte of a slab mapped. -/
theorem virtToPhys_slab (h : Inv m none) {p a : ℕ} (hp : m.Mapped p)
    (hlo : (m.slab p).virt_addr ≤ a) (hhi : a < (m.slab p).virt_addr + (m.slab p).size) :
    (m.qaeVirtToPhysNUMA a).toNat = (m.slab p).phy_addr.toNat + (a - (m.slab p).virt_addr) := by
  have hl := paging_lawful hugepages
  have hcov := mem_covers (m := m) hlo hhi
  obtain ⟨haddr, _⟩ := mappedEntry_parts hl (h.core.valid p hp) hcov
  have ht := (translates_of_found hl (h.core.translated p hp a hcov)).1
  rw [haddr] at ht
  exact ht

/-- Every block handed out is contiguous in physical memory, and blocks that differ
have no physical address in common. -/
theorem physically_contiguous (hr : Reachable m) {r : Region} (hlive : LiveRegion m r) :
    (∀ i, i < r.size → (m.qaeVirtToPhysNUMA (r.base + i)).toNat =
      (m.qaeVirtToPhysNUMA r.base).toNat + i) ∧
      ∀ r', LiveRegion m r' → r' ≠ r → ∀ i j, i < r.size → j < r'.size →
        m.qaeVirtToPhysNUMA (r.base + i) ≠ m.qaeVirtToPhysNUMA (r'.base + j) := by
  have h := hr.inv
  obtain ⟨p, hp, hlo, hhi, hpos, _⟩ := hlive.slab h
  constructor
  · intro i hi
    rw [virtToPhys_slab h hp (by omega) (by omega), virtToPhys_slab h hp hlo (by omega)]
    omega
  · intro r' hlive' hne i j hi hj he
    obtain ⟨q, hq, hlo', hhi', _, _⟩ := hlive'.slab h
    have heq := congrArg BitVec.toNat he
    rw [virtToPhys_slab h hp (by omega) (by omega),
      virtToPhys_slab h hq (by omega) (by omega)] at heq
    by_cases hpq : p = q
    · subst hpq
      obtain hsame | hdis := LiveRegion.apart h hlive hlive'
      · exact hne hsame.symm
      · simp only [Region.Disjoint] at hdis
        omega
    · have hphys := h.core.physApart p q hp hq hpq
      simp only [PhysApart] at hphys
      omega

theorem physically_contiguous_first : ∃ m : Memory true,
    ∀ i, i < 5000 → (m.qaeVirtToPhysNUMA (0x40001800 + i)).toNat =
      (m.qaeVirtToPhysNUMA 0x40001800).toNat + i := by
  obtain ⟨m, n, hn, hstep, hlive, _⟩ := first_alloc
  have h := (physically_contiguous (.tail .refl hstep trivial) ((hlive _).mpr rfl)).1
  exact ⟨m, fun i hi => h i (Nat.lt_of_lt_of_le hi hn)⟩

/-- The test of `qaePhysToVirtNUMA` on one slab: the difference of 64-bit addresses does
not wrap inside the slab, and is beyond its size outside. -/
theorem sub_lt_iff {x y : BitVec 64} {n : ℕ} (hroom : y.toNat + n ≤ UInt64.size) :
    (x - y).toNat < n ↔ y.toNat ≤ x.toNat ∧ x.toNat < y.toNat + n := by
  have hsz : UInt64.size = 18446744073709551616 := rfl
  have hx := x.isLt
  have hy := y.isLt
  rw [hsz] at hroom
  rw [BitVec.toNat_sub]
  omega

/-- The physical addresses of a slab end below 2 ^ 64. -/
theorem phys_room (h : Inv m none) {p : ℕ} (hp : m.Mapped p) :
    (m.slab p).phy_addr.toNat + (m.slab p).size ≤ UInt64.size := by
  apply Nat.le_trans (Nat.add_le_add_left _ _) (h.core.valid p hp).room
  exact le_pageCount (paging_lawful hugepages).pos (m.slab p).size

/-- A byte of a mapped slab passes the test of that slab and of no other one mapped. -/
theorem offset_lt_iff (h : Inv m none) {p q a : ℕ} (hp : m.Mapped p) (hq : m.Mapped q)
    (hlo : (m.slab p).virt_addr ≤ a) (hhi : a < (m.slab p).virt_addr + (m.slab p).size) :
    (m.qaeVirtToPhysNUMA a - (m.slab q).phy_addr).toNat < (m.slab q).size ↔ q = p := by
  have hphys := virtToPhys_slab h hp hlo hhi
  rw [sub_lt_iff (phys_room h hq), hphys]
  constructor
  · intro hin
    by_contra hne
    have hapart := h.core.physApart p q hp hq (fun he => hne he.symm)
    simp only [PhysApart] at hapart
    omega
  · intro he
    subst he
    omega

/-- The physical address of every byte of a small slab in use leads back to the byte; the
list of the large blocks is not searched. -/
theorem physToVirt_virtToPhys (hr : Reachable m) {p a : ℕ} (hp : m.Mapped p)
    (hlo : (m.slab p).virt_addr ≤ a) (hhi : a < (m.slab p).virt_addr + (m.slab p).size) :
    m.qaePhysToVirtNUMA (m.qaeVirtToPhysNUMA a) = if p ∈ m.userMem then some a else none := by
  have h := hr.inv
  have hphys := virtToPhys_slab h hp hlo hhi
  have hother : ∀ q ∈ m.userMem,
      ((m.qaeVirtToPhysNUMA a - (m.slab q).phy_addr).toNat < (m.slab q).size ↔ q = p) :=
    fun q hq => offset_lt_iff h hp ((h.all q).mpr (.inl hq)) hlo hhi
  unfold qaePhysToVirtNUMA
  simp only
  generalize hfind : m.userMem.find? _ = result
  cases result with
  | none =>
    rw [List.find?_eq_none] at hfind
    rw [if_neg]
    intro hmem
    apply hfind p hmem
    simpa using (hother p hmem).mpr rfl
  | some q =>
    have hmem := List.mem_of_find?_eq_some hfind
    have hq : q = p := (hother q hmem).mp (by simpa using List.find?_some hfind)
    subst hq
    rw [if_pos hmem]
    have hlt := (m.qaeVirtToPhysNUMA a).isLt
    have hsub : (m.qaeVirtToPhysNUMA a - (m.slab q).phy_addr).toNat =
        a - (m.slab q).virt_addr := by
      rw [BitVec.toNat_sub]
      omega
    simp only [hsub, Option.some.injEq]
    omega

theorem physToVirt_virtToPhys_first : ∃ m : Memory true,
    m.qaePhysToVirtNUMA (m.qaeVirtToPhysNUMA 0x40001800) = some 0x40001800 := by
  obtain ⟨m, _, _, hstep, _, p, hp, s, hs, haddr, _⟩ := first_alloc
  have hr : Reachable m := .tail .refl hstep trivial
  obtain ⟨hu, _⟩ := hr.inv.user p hp
  have hin : s * UNIT_SIZE < SLAB_SIZE :=
    Nat.mul_lt_mul_of_pos_right hs (show 0 < UNIT_SIZE by decide)
  have h := physToVirt_virtToPhys (a := 0x40001800) hr ((hr.inv.all p).mpr (.inl hp))
    (by rw [hu.virt]; omega) (by rw [hu.virt, hu.size]; omega)
  rw [if_pos hp] at h
  exact ⟨m, h⟩

theorem dvd_or_dvd {x y : ℕ} (hx : x.isPowerOfTwo) (hy : y.isPowerOfTwo) : x ∣ y ∨ y ∣ x := by
  obtain ⟨i, rfl⟩ := hx
  obtain ⟨j, rfl⟩ := hy
  obtain hle | hle := Nat.le_total i j
  · exact .inl (Nat.pow_dvd_pow _ hle)
  · exact .inr (Nat.pow_dvd_pow _ hle)

theorem alignmentOk_isPowerOfTwo {align : ℕ} (h : alignmentOk align = true) :
    align.isPowerOfTwo := by
  simp only [alignmentOk, Bool.and_eq_true, decide_eq_true_eq] at h
  exact Nat.ne_zero_and_sub_one_eq_zero_iff_isPowerOfTwo.mp ⟨h.1.1, h.2⟩

/-- A unit on the alignment counted in units is on the alignment in bytes. -/
theorem dvd_unit {align s : ℕ} (hp : align.isPowerOfTwo)
    (hs : FirstFit.Aligned (align / UNIT_SIZE) s) : align ∣ s * UNIT_SIZE := by
  have hu : UNIT_SIZE.isPowerOfTwo := ⟨10, rfl⟩
  obtain hd | hd := dvd_or_dvd hp hu
  · exact Nat.dvd_mul_left_of_dvd hd s
  · have hpos := Nat.pos_of_ne_zero (Nat.ne_zero_and_sub_one_eq_zero_iff_isPowerOfTwo.mpr hp).1
    have hne : align / UNIT_SIZE ≠ 0 :=
      Nat.ne_of_gt (Nat.div_pos (Nat.le_of_dvd hpos hd) (by decide))
    have hmul := Nat.mul_dvd_mul_right (Nat.dvd_of_mod_eq_zero (hs hne)) UNIT_SIZE
    rw [Nat.div_mul_cancel hd] at hmul
    exact hmul

/-- An alignment served by a small slab is below the slab's own. -/
theorem dvd_slab {size align : ℕ} (hp : align.isPowerOfTwo) (hsmall : isLarge size align = false) :
    align ∣ SLAB_SIZE := by
  simp only [isLarge, Bool.or_eq_false_iff, decide_eq_false_iff_not] at hsmall
  have hs : SLAB_SIZE.isPowerOfTwo := ⟨21, rfl⟩
  have hpos := Nat.pos_of_ne_zero (Nat.ne_zero_and_sub_one_eq_zero_iff_isPowerOfTwo.mpr hp).1
  obtain hd | hd := dvd_or_dvd hp hs
  · exact hd
  · have hle := Nat.le_of_dvd hpos hd
    omega

/-- A block of a small slab starts at a physical address on the alignment asked for. -/
theorem alloc_aligned (hr : Reachable m) {size phys_alignment_byte a : ℕ} {node : ℤ}
    (hs : Step m (.alloc size node phys_alignment_byte (some a)) m')
    (hsmall : isLarge size phys_alignment_byte = false) :
    (m'.qaeVirtToPhysNUMA a).toNat % phys_alignment_byte = 0 := by
  obtain ⟨kernel, mmaps, hk, hall, hcall⟩ := hs
  have hok : alignmentOk phys_alignment_byte = true := by
    unfold qaeMemAllocNUMA at hcall
    split at hcall
    · simp at hcall
    · split at hcall
      · simp at hcall
      · split at hcall
        · simp at hcall
        · next h => simpa using h
  obtain ⟨answer, m₁, hspec, hinv, hout⟩ := qaeMemAllocNUMA_spec hr.inv hk hall
  rw [hcall, Option.some.injEq, Prod.mk.injEq] at hspec
  obtain ⟨rfl, rfl⟩ := hspec
  obtain ⟨hnone, _⟩ | ⟨a', n, ha, hn, hadd, hunit⟩ := hout
  · cases hnone
  · cases ha
    obtain ⟨p, hp, s, hs, rfl, hal⟩ := hunit hsmall
    obtain ⟨hu, _⟩ := hinv.user p hp
    have hunits : BLOCK_SIZES * UNIT_SIZE = SLAB_SIZE := rfl
    have hin := Nat.mul_lt_mul_of_pos_right hs (show 0 < UNIT_SIZE by decide)
    have hphys := virtToPhys_slab hinv ((hinv.all p).mpr (.inl hp)) (a := p + s * UNIT_SIZE)
      (by rw [hu.virt]; omega) (by rw [hu.virt, hu.size]; omega)
    rw [hu.virt, Nat.add_sub_cancel_left] at hphys
    rw [hphys]
    have hpow := alignmentOk_isPowerOfTwo hok
    apply Nat.mod_eq_zero_of_dvd
    exact Nat.dvd_add (Nat.dvd_trans (dvd_slab hpow hsmall) (Nat.dvd_of_mod_eq_zero hu.phys))
      (dvd_unit hpow hal)

theorem alloc_aligned_first : ∃ m : Memory true, (∃ r, LiveRegion m r) ∧
    (m.qaeVirtToPhysNUMA 0x40001800).toNat % 2048 = 0 := by
  obtain ⟨m, _, _, hstep, hlive, _⟩ := first_alloc
  exact ⟨m, ⟨_, (hlive _).mpr rfl⟩, alloc_aligned .refl hstep (by decide)⟩

end Memory

end Numa
end QatDcSample
