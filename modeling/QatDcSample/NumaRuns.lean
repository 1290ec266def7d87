import QatDcSample.NumaSlabs

/-!
# Runs of the memory library

What each allocation and release does to the blocks handed out, and what follows for
any sequence of them: the blocks alive are those of an abstract memory.
-/

namespace QatDcSample
namespace Numa

open Slab PageTable
open BlockMemory (Region)

namespace Memory

variable {hugepages : Bool} {m m' : Memory hugepages}

/-! ### Blocks handed out and taken back -/

/-- `addr` is the start of the blocks that an allocation took from the slab at `p`. -/
def Served (p : ℕ) (c c' : BlockCtrl) (size align addr : ℕ) : Prop :=
  ∃ s, addr = p + s * UNIT_SIZE ∧ Taken c c' s (blocksFor size) ∧
    Fits c.bitmap (blocksFor size) align s

/-- The block that serves a request of `size` bytes at `addr`. -/
def blockAt (addr size : ℕ) : Region := ⟨addr, blocksFor size * UNIT_SIZE⟩

theorem blocksFor_pos {size : ℕ} (h : size ≠ 0) : 0 < blocksFor size := by
  unfold blocksFor
  omega

theorem le_blockAt (addr size : ℕ) : size ≤ (blockAt addr size).size := by
  have hu : UNIT_SIZE = 1024 := rfl
  simp only [blockAt, blocksFor, hu]
  omega

section
variable {p size align addr : ℕ} {c c' : BlockCtrl}

theorem Served.wellFormed (h : Served p c c' size align addr) (hw : WellFormed c)
    (hsize : size ≠ 0) : WellFormed c' ∧ liveCount c' = liveCount c + 1 := by
  obtain ⟨s, _, ht, hfit⟩ := h
  exact ⟨ht.wellFormed hw (blocksFor_pos hsize) hfit,
    ht.liveCount hw (blocksFor_pos hsize) hfit⟩

theorem Served.region (h : Served p c c' size align addr) (hw : WellFormed c)
    (hsize : size ≠ 0) : ¬ SlabRegion p c (blockAt addr size) ∧
      ∀ x, SlabRegion p c' x ↔ SlabRegion p c x ∨ x = blockAt addr size := by
  obtain ⟨s, haddr, ht, hfit⟩ := h
  have hneed := blocksFor_pos hsize
  have hin := hfit.inside
  have hblocks : BITMAP_LEN * QWORD_WIDTH = 2048 := rfl
  have hl : c.sizes.length = 2048 := hw.sizes
  have hzero := hw.fit_extent hneed hfit
  have he := ht.extent (by omega) (by omega)
  subst haddr
  constructor
  · intro ⟨b, hb, hr⟩
    have hu : UNIT_SIZE = 1024 := rfl
    simp only [blockAt, Region.mk.injEq, hu] at hr
    have hbs : b = s := by omega
    subst hbs
    exact hb hzero
  · intro x
    constructor
    · intro ⟨b, hb, hr⟩
      rw [he b] at hb hr
      by_cases hbs : b = s
      · subst hbs
        rw [if_pos rfl] at hr
        exact .inr hr
      · rw [if_neg hbs] at hb hr
        exact .inl ⟨b, hb, hr⟩
    · intro hx
      obtain ⟨b, hb, hr⟩ | hr := hx
      · refine ⟨b, ?_, ?_⟩
        · rw [he b]
          split
          · omega
          · exact hb
        · rw [he b, if_neg]
          · exact hr
          · intro hbs
            subst hbs
            exact hb hzero
      · refine ⟨s, ?_, ?_⟩
        · rw [he s, if_pos rfl]
          omega
        · rw [he s, if_pos rfl]
          exact hr

theorem given_region {s : ℕ} (hg : Given c c' s) (hne : extent c s ≠ 0) :
    ∀ x, SlabRegion p c' x ↔
      SlabRegion p c x ∧ x ≠ ⟨p + s * UNIT_SIZE, extent c s * UNIT_SIZE⟩ := by
  have he := hg.extent (extent_lt hne)
  intro x
  constructor
  · intro ⟨b, hb, hr⟩
    rw [he b] at hb hr
    by_cases hbs : b = s
    · rw [if_pos hbs] at hb
      exact absurd rfl hb
    · rw [if_neg hbs] at hb hr
      refine ⟨⟨b, hb, hr⟩, ?_⟩
      intro hx
      rw [hr] at hx
      have hu : UNIT_SIZE = 1024 := rfl
      simp only [Region.mk.injEq, hu] at hx
      omega
  · intro ⟨⟨b, hb, hr⟩, hx⟩
    have hbs : b ≠ s := by
      intro hbs
      subst hbs
      exact hx hr
    refine ⟨b, ?_, ?_⟩
    · rw [he b, if_neg hbs]
      exact hb
    · rw [he b, if_neg hbs]
      exact hr

end

/-- The blocks alive, those of one slab apart. -/
theorem live_split {loose : Option ℕ} (h : Inv m loose) {p : ℕ} (hp : p ∈ m.userMem)
    (info : DevMemInfo) (x : Region) : LiveRegion (m.setSlab p info) x ↔
      SlabRegion p info.ctrl x ∨ (∃ q ∈ m.userMem, q ≠ p ∧ SlabRegion q (m.slab q).ctrl x) ∨
        ∃ q ∈ m.userLargeMem, x = ⟨(m.slab q).virt_addr, (m.slab q).size⟩ := by
  have hlarge : p ∉ m.userLargeMem := fun hl => (h.user p hp).1.type (h.large p hl).1
  have hself : (m.setSlab p info).slab p = info := Function.update_self ..
  have hother : ∀ q, q ≠ p → (m.setSlab p info).slab q = m.slab q :=
    fun q hq => Function.update_of_ne hq ..
  constructor
  · intro hx
    obtain ⟨q, hq, hr⟩ | ⟨q, hq, hr⟩ := hx
    · by_cases hqp : q = p
      · subst hqp
        rw [hself] at hr
        exact .inl hr
      · rw [hother q hqp] at hr
        exact .inr (.inl ⟨q, hq, hqp, hr⟩)
    · have hqp : q ≠ p := fun he => hlarge (by rw [← he]; exact hq)
      rw [hother q hqp] at hr
      exact .inr (.inr ⟨q, hq, hr⟩)
  · intro hx
    obtain hr | ⟨q, hq, hqp, hr⟩ | ⟨q, hq, hr⟩ := hx
    · refine .inl ⟨p, hp, ?_⟩
      rw [hself]
      exact hr
    · refine .inl ⟨q, hq, ?_⟩
      rw [hother q hqp]
      exact hr
    · have hqp : q ≠ p := fun he => hlarge (by rw [← he]; exact hq)
      refine .inr ⟨q, hq, ?_⟩
      rw [hother q hqp]
      exact hr

theorem setSlab_self (p : ℕ) : m.setSlab p (m.slab p) = m := by
  unfold setSlab
  rw [Function.update_eq_self]

/-- An address of a slab's block is in no other slab of the list. -/
theorem SlabRegion.only {loose : Option ℕ} (h : Inv m loose) {p : ℕ} (hp : p ∈ m.userMem)
    {r : Region} (hlo : p ≤ r.base) (hhi : r.base < p + SLAB_SIZE) (hr : LiveRegion m r) :
    SlabRegion p (m.slab p).ctrl r := by
  obtain ⟨hu, _⟩ := h.user p hp
  obtain ⟨q, hq, hqlo, hqhi, hpos, hin⟩ := hr.slab h
  have hsame : q = p := by
    apply h.core.same_slab (a := r.base) hq ((h.all p).mpr (.inl hp))
    · omega
    · rw [hu.virt, hu.size]
      exact ⟨hlo, hhi⟩
  subst hsame
  obtain ⟨_, hs⟩ | ⟨hl, _⟩ := hin
  · exact hs
  · exact absurd (h.large q hl).1 hu.type

theorem liveCount_le {c : BlockCtrl} (hw : WellFormed c) : liveCount c ≤ 2048 := by
  have hle := List.countP_le_length (p := fun v : UInt16 => decide (v ≠ 0)) (l := c.sizes)
  rw [hw.sizes] at hle
  exact hle

theorem incr32_of_le {n : ℕ} (h : n ≤ 2048) : incr32 n = n + 1 := by
  have hsz : UInt32.size = 4294967296 := rfl
  rw [incr32, if_neg (by omega)]

theorem decr32_of_pos {n : ℕ} (hpos : 0 < n) : decr32 n = n - 1 := by
  rw [decr32, if_neg (by omega)]

/-- A slab of the list serves a request. -/
theorem Inv.serve {p size align addr : ℕ} (h : Inv m none) (hp : p ∈ m.userMem) {c' : BlockCtrl}
    (hs : Served p (m.slab p).ctrl c' size align addr) (hsize : size ≠ 0) :
    let m' := m.setSlab p { m.slab p with
      ctrl := c'
      allocations := incr32 (m.slab p).allocations }
    Inv m' none ∧ Added m m' (blockAt addr size) := by
  intro m'
  obtain ⟨hu, hpos⟩ := h.user p hp
  obtain ⟨hw, hcount⟩ := hs.wellFormed hu.wellFormed hsize
  obtain ⟨hnew, hreg⟩ := hs.region hu.wellFormed hsize
  have hle := liveCount_le hw
  have hcnt := hu.count
  have hmod : incr32 (m.slab p).allocations = liveCount c' := by
    rw [incr32_of_le (by omega)]
    omega
  have hsame : SamePlace m m' := samePlace_setSlab rfl rfl rfl
  constructor
  · apply h.setSlab hsame
    · intro _
      refine ⟨⟨hu.type, hu.virt, hu.size, hu.phys, hu.placed, hw, hmod⟩, ?_⟩
      change 0 < incr32 (m.slab p).allocations
      omega
    · intro hl
      exact absurd (h.large p hl).1 hu.type
    · intro hc
      have := (h.cache p hc).2
      omega
  · constructor
    · intro hlive
      obtain ⟨s, haddr, ht, hfit⟩ := hs
      apply hnew
      have hin := hfit.inside
      have hneed := blocksFor_pos hsize
      have hu' : UNIT_SIZE = 1024 := rfl
      have hss : SLAB_SIZE = 2097152 := rfl
      have hbl : BITMAP_LEN * QWORD_WIDTH = 2048 := rfl
      apply SlabRegion.only h hp _ _ hlive
      · simp only [blockAt]
        omega
      · simp only [blockAt, hu'] at haddr ⊢
        omega
    · intro x
      have hold := live_split h hp (m.slab p) x
      rw [setSlab_self] at hold
      rw [live_split h hp _ x, hold, hreg x]
      exact or_right_comm

/-- The blocks alive outside the slab at `p`. -/
def Elsewhere (m : Memory hugepages) (p : ℕ) (x : Region) : Prop :=
  (∃ q ∈ m.userMem, q ≠ p ∧ SlabRegion q (m.slab q).ctrl x) ∨
    ∃ q ∈ m.userLargeMem, x = ⟨(m.slab q).virt_addr, (m.slab q).size⟩

theorem Inv.not_elsewhere {loose : Option ℕ} (h : Inv m loose) {p : ℕ} (hp : p ∈ m.userMem)
    {r : Region} (hr : SlabRegion p (m.slab p).ctrl r) : ¬ m.Elsewhere p r := by
  obtain ⟨hu, _⟩ := h.user p hp
  have hin := hr.inside hu.wellFormed
  have hmap : m.Mapped p := (h.all p).mpr (.inl hp)
  have hrange : (m.slab p).virt_addr ≤ r.base ∧
      r.base < (m.slab p).virt_addr + (m.slab p).size := by
    rw [hu.virt, hu.size]
    omega
  intro he
  obtain ⟨q, hq, hqp, hs⟩ | ⟨q, hq, hx⟩ := he
  · obtain ⟨hv, _⟩ := h.user q hq
    have hin' := hs.inside hv.wellFormed
    apply hqp
    apply h.core.same_slab ((h.all q).mpr (.inl hq)) hmap _ hrange
    rw [hv.virt, hv.size]
    omega
  · obtain ⟨ht, hpos⟩ := h.large q hq
    have hqp : q = p := by
      apply h.core.same_slab ((h.all q).mpr (.inr (.inl hq))) hmap _ hrange
      rw [hx]
      exact ⟨Nat.le_refl _, Nat.lt_add_of_pos_right hpos⟩
    subst hqp
    exact hu.type ht

/-- The information block of a slab after a block was given back to it. -/
def givenInfo (info : DevMemInfo) (c' : BlockCtrl) : DevMemInfo :=
  { info with
    ctrl := c'
    allocations := decr32 info.allocations }

@[simp] theorem givenInfo_allocations (info : DevMemInfo) (c' : BlockCtrl) :
    (givenInfo info c').allocations = decr32 info.allocations := by
  simp only [givenInfo]

@[simp] theorem givenInfo_ctrl (info : DevMemInfo) (c' : BlockCtrl) :
    (givenInfo info c').ctrl = c' := by
  simp only [givenInfo]

@[simp] theorem givenInfo_type (info : DevMemInfo) (c' : BlockCtrl) :
    (givenInfo info c').type = info.type := by
  simp only [givenInfo]

@[simp] theorem givenInfo_virt (info : DevMemInfo) (c' : BlockCtrl) :
    (givenInfo info c').virt_addr = info.virt_addr := by
  simp only [givenInfo]

@[simp] theorem givenInfo_phys (info : DevMemInfo) (c' : BlockCtrl) :
    (givenInfo info c').phy_addr = info.phy_addr := by
  simp only [givenInfo]

@[simp] theorem givenInfo_size (info : DevMemInfo) (c' : BlockCtrl) :
    (givenInfo info c').size = info.size := by
  simp only [givenInfo]

theorem samePlace_given (p : ℕ) (c' : BlockCtrl) :
    SamePlace m (m.setSlab p (givenInfo (m.slab p) c')) :=
  samePlace_setSlab (givenInfo_virt _ _) (givenInfo_phys _ _) (givenInfo_size _ _)

section
variable {p s : ℕ} {c' : BlockCtrl}

theorem givenInfo_inUse (h : Inv m none) (hp : p ∈ m.userMem) (hg : Given (m.slab p).ctrl c' s)
    (hne : extent (m.slab p).ctrl s ≠ 0) : InUse (givenInfo (m.slab p) c') p := by
  obtain ⟨hu, hpos⟩ := h.user p hp
  have hcount := hg.liveCount hne
  have hle := liveCount_le hu.wellFormed
  have hcnt := hu.count
  constructor
  · rw [givenInfo_type]
    exact hu.type
  · rw [givenInfo_virt]
    exact hu.virt
  · rw [givenInfo_size]
    exact hu.size
  · rw [givenInfo_phys]
    exact hu.phys
  · exact hu.placed
  · rw [givenInfo_ctrl]
    exact hg.wellFormed hu.wellFormed hne
  · rw [givenInfo_allocations, givenInfo_ctrl, decr32_of_pos hpos]
    omega

/-- A block leaves a slab that keeps others. -/
theorem Inv.giveBack (h : Inv m none) (hp : p ∈ m.userMem) (hg : Given (m.slab p).ctrl c' s)
    (hne : extent (m.slab p).ctrl s ≠ 0) (hmore : (givenInfo (m.slab p) c').allocations ≠ 0) :
    Inv (m.setSlab p (givenInfo (m.slab p) c')) none := by
  obtain ⟨hu, hpos⟩ := h.user p hp
  apply h.setSlab (samePlace_given p c')
  · intro _
    exact ⟨givenInfo_inUse h hp hg hne, Nat.pos_of_ne_zero hmore⟩
  · intro hl
    exact absurd (h.large p hl).1 hu.type
  · intro hc
    have := (h.cache p hc).2
    omega

theorem giveBack_live (h : Inv m none) (hp : p ∈ m.userMem) (hg : Given (m.slab p).ctrl c' s)
    (hne : extent (m.slab p).ctrl s ≠ 0) (x : Region) :
    SlabRegion p c' x ∨ m.Elsewhere p x ↔
      LiveRegion m x ∧ x ≠ ⟨p + s * UNIT_SIZE, extent (m.slab p).ctrl s * UNIT_SIZE⟩ := by
  have hold := live_split h hp (m.slab p) x
  rw [setSlab_self] at hold
  have hreg := given_region (p := p) hg hne x
  have hout : m.Elsewhere p x →
      x ≠ ⟨p + s * UNIT_SIZE, extent (m.slab p).ctrl s * UNIT_SIZE⟩ := by
    intro he hx
    subst hx
    exact h.not_elsewhere hp ⟨s, hne, rfl⟩ he
  change (LiveRegion m x ↔ _ ∨ m.Elsewhere p x) at hold
  rw [hold, hreg]
  tauto

/-- A slab that its last block left, off the list. -/
theorem Inv.lastBack (h : Inv m none) (hp : p ∈ m.userMem) (info : DevMemInfo)
    (hsame : SamePlace m (m.setSlab p info)) :
    Inv ({ m with userMem := m.userMem.erase p }.setSlab p info) (some p) := by
  have hi := h.fromUser hp
  have hout := hi.out p rfl
  have hsame' : SamePlace { m with userMem := m.userMem.erase p }
      ({ m with userMem := m.userMem.erase p }.setSlab p info) :=
    ⟨hsame.virt, hsame.phys, hsame.size, rfl, rfl⟩
  apply hi.setSlab hsame'
  · intro hu
    exact absurd hu hout.1
  · intro hl
    exact absurd hl hout.2.1
  · intro hc
    exact absurd hc hout.2.2

theorem lastBack_live (h : Inv m none) (hp : p ∈ m.userMem) (info : DevMemInfo) (x : Region) :
    LiveRegion ({ m with userMem := m.userMem.erase p }.setSlab p info) x ↔
      m.Elsewhere p x := by
  have hmem := fun q => h.userNodup.mem_erase_iff (a := q) (b := p)
  have hlarge : p ∉ m.userLargeMem := fun hl => (h.user p hp).1.type (h.large p hl).1
  have hother : ∀ q, q ≠ p →
      ({ m with userMem := m.userMem.erase p }.setSlab p info).slab q = m.slab q :=
    fun q hq => Function.update_of_ne hq ..
  constructor
  · intro hx
    obtain ⟨q, hq, hr⟩ | ⟨q, hq, hr⟩ := hx
    · obtain ⟨hqp, hq⟩ := (hmem q).mp hq
      rw [hother q hqp] at hr
      exact .inl ⟨q, hq, hqp, hr⟩
    · have hqp : q ≠ p := fun he => hlarge (by rw [← he]; exact hq)
      rw [hother q hqp] at hr
      exact .inr ⟨q, hq, hr⟩
  · intro hx
    obtain ⟨q, hq, hqp, hr⟩ | ⟨q, hq, hr⟩ := hx
    · refine .inl ⟨q, (hmem q).mpr ⟨hqp, hq⟩, ?_⟩
      rw [hother q hqp]
      exact hr
    · have hqp : q ≠ p := fun he => hlarge (by rw [← he]; exact hq)
      refine .inr ⟨q, hq, ?_⟩
      rw [hother q hqp]
      exact hr

end

/-! ### A slab at hand comes into use -/

theorem live_congr (hu : m'.userMem = m.userMem) (hl : m'.userLargeMem = m.userLargeMem)
    (hs : ∀ q, q ∈ m.userMem ∨ q ∈ m.userLargeMem → m'.slab q = m.slab q) : SameLive m m' := by
  intro x
  unfold LiveRegion
  rw [hu, hl]
  apply or_congr
  · apply exists_congr
    intro q
    apply and_congr_right
    intro hq
    rw [hs q (.inl hq)]
  · apply exists_congr
    intro q
    apply and_congr_right
    intro hq
    rw [hs q (.inr hq)]

section
variable {p size align addr : ℕ}

theorem live_loose (h : Inv m (some p)) (info : DevMemInfo) : SameLive m (m.setSlab p info) := by
  have hout := h.out p rfl
  refine live_congr (show (m.setSlab p info).userMem = m.userMem from rfl) rfl ?_
  intro q hq
  apply Function.update_of_ne
  intro he
  subst he
  obtain hq | hq := hq
  · exact hout.1 hq
  · exact hout.2.1 hq

/-- No block alive starts in the slab at hand. -/
theorem Inv.not_live (h : Inv m (some p)) {r : Region} (hlo : (m.slab p).virt_addr ≤ r.base)
    (hhi : r.base < (m.slab p).virt_addr + (m.slab p).size) : ¬ LiveRegion m r := by
  intro hr
  have hout := h.out p rfl
  obtain ⟨q, hq, hqlo, hqhi, hpos, hin⟩ := hr.slab h
  have hsame : q = p := by
    apply h.core.same_slab (a := r.base) hq ((h.all p).mpr (.inr (.inr (.inr rfl))))
    · omega
    · exact ⟨hlo, hhi⟩
  subst hsame
  obtain ⟨hu, _⟩ | ⟨hl, _⟩ := hin
  · exact hout.1 hu
  · exact hout.2.1 hl

theorem Inv.setLoose (h : Inv m (some p)) {info : DevMemInfo}
    (hsame : SamePlace m (m.setSlab p info)) : Inv (m.setSlab p info) (some p) := by
  have hout := h.out p rfl
  apply h.setSlab hsame
  · intro hu
    exact absurd hu hout.1
  · intro hl
    exact absurd hl hout.2.1
  · intro hc
    exact absurd hc hout.2.2

theorem slabRegion_none {c : BlockCtrl} (hz : liveCount c = 0) (x : Region) :
    ¬ SlabRegion p c x := by
  intro ⟨b, hb, _⟩
  exact hb (liveCount_eq_zero hz b)

/-- The first block of a slab: it joins the user list. -/
theorem Inv.enlist (h : Inv m (some p)) {info : DevMemInfo} {c₁ : BlockCtrl}
    (hsame : SamePlace m (m.setSlab p info)) (hu : InUse info p) (hpos : 0 < info.allocations)
    (hw : WellFormed c₁) (hz : liveCount c₁ = 0) (hsize : size ≠ 0)
    (hs : Served p c₁ info.ctrl size align addr) :
    let m' := { m.setSlab p info with userMem := p :: m.userMem }
    Inv m' none ∧ Added m m' (blockAt addr size) := by
  intro m'
  have hself : (m.setSlab p info).slab p = info := Function.update_self ..
  have hi := h.setLoose hsame
  constructor
  · apply hi.toUser
    · rw [hself]
      exact hu
    · rw [hself]
      exact hpos
  · constructor
    · obtain ⟨s, haddr, ht, hfit⟩ := hs
      have hin := hfit.inside
      have hneed := blocksFor_pos hsize
      have hss : SLAB_SIZE = 2097152 := rfl
      have hu' : UNIT_SIZE = 1024 := rfl
      have hbl : BITMAP_LEN * QWORD_WIDTH = 2048 := rfl
      have hv : (m.slab p).virt_addr = p := by
        rw [← hsame.virt p, hself]
        exact hu.virt
      have hz : (m.slab p).size = SLAB_SIZE := by
        rw [← hsame.size p, hself]
        exact hu.size
      apply h.not_live
      · rw [hv]
        simp only [blockAt]
        omega
      · rw [hv, hz]
        simp only [blockAt, hu'] at haddr ⊢
        omega
    · intro x
      have hlive := live_loose h info x
      have hreg := (hs.region hw hsize).2 x
      have hnone := slabRegion_none (p := p) hz x
      have hsplit : LiveRegion m' x ↔
          SlabRegion p info.ctrl x ∨ LiveRegion (m.setSlab p info) x := by
        constructor
        · intro hx
          obtain ⟨q, hq, hr⟩ | hr := hx
          · rcases List.mem_cons.mp hq with rfl | hq
            · left
              rw [← hself]
              exact hr
            · exact .inr (.inl ⟨q, hq, hr⟩)
          · exact .inr (.inr hr)
        · intro hx
          obtain hr | ⟨q, hq, hr⟩ | hr := hx
          · refine .inl ⟨p, List.mem_cons_self .., ?_⟩
            change SlabRegion p ((m.setSlab p info).slab p).ctrl x
            rw [hself]
            exact hr
          · exact .inl ⟨q, List.mem_cons_of_mem _ hq, hr⟩
          · exact .inr hr
      rw [hsplit, hlive, hreg]
      tauto

/-- The block of a large slab: it joins the other list. -/
theorem Inv.enlistLarge (h : Inv m (some p)) (ht : (m.slab p).type = .LARGE)
    (hpos : 0 < (m.slab p).size) :
    let m' := { m with userLargeMem := p :: m.userLargeMem }
    Inv m' none ∧ Added m m' ⟨(m.slab p).virt_addr, (m.slab p).size⟩ := by
  intro m'
  constructor
  · exact h.toLarge ht hpos
  · constructor
    · exact h.not_live (Nat.le_refl _) (Nat.lt_add_of_pos_right hpos)
    · intro x
      constructor
      · intro hx
        obtain hr | ⟨q, hq, hr⟩ := hx
        · exact .inl (.inl hr)
        · rcases List.mem_cons.mp hq with rfl | hq
          · exact .inr hr
          · exact .inl (.inr ⟨q, hq, hr⟩)
      · intro hx
        obtain (hr | ⟨q, hq, hr⟩) | hr := hx
        · exact .inl hr
        · exact .inr ⟨q, List.mem_cons_of_mem _ hq, hr⟩
        · exact .inr ⟨p, List.mem_cons_self .., hr⟩

end

/-! ### The functions -/

theorem setCtrl_self (p : ℕ) : m.setCtrl p (m.slab p).ctrl = m := setSlab_self p

section
variable {size align : ℕ} {node : ℤ}

theorem lookup_spec (align : ℕ) (node : ℤ) (h : Inv m none) (hsize : size ≠ 0)
    (hmax : size + UNIT_SIZE ≤ UInt64.size) (list : List ℕ) :
    ∀ link_num, (∀ p ∈ list, p ∈ m.userMem) →
      ∃ res m', userMemLookupBySize size node align link_num list m = some (res, m') ∧
        ((res = none ∧ m' = m) ∨ ∃ p addr c', res = some (p, addr) ∧ p ∈ m.userMem ∧
          m' = m.setCtrl p c' ∧ Served p (m.slab p).ctrl c' size align addr) := by
  induction list with
  | nil =>
    intro link_num _
    exact ⟨none, m, rfl, .inl ⟨rfl, rfl⟩⟩
  | cons p rest ih =>
    intro link_num hmem
    have hp := hmem p (List.mem_cons_self ..)
    have hrest := fun n => ih n fun q hq => hmem q (List.mem_cons_of_mem _ hq)
    obtain ⟨hu, _⟩ := h.user p hp
    obtain ⟨answer, c', hcall, hout⟩ :=
      qaeMemAlloc_spec align hu.wellFormed hu.placed.nonzero hsize hmax
    rw [userMemLookupBySize]
    split
    · exact hrest link_num
    · rw [hcall]
      obtain ⟨rfl, rfl, _⟩ | ⟨s, rfl, ht, hfirst⟩ := hout
      · dsimp only
        rw [setCtrl_self]
        split
        · exact ⟨none, m, rfl, .inl ⟨rfl, rfl⟩⟩
        · exact hrest (link_num + 1)
      · exact ⟨_, _, rfl, .inr ⟨p, _, c', rfl, hp, rfl, s, rfl, ht, hfirst.fit⟩⟩

/-- `init_slab_and_alloc` on a slab without allocations. -/
theorem initSlabAndAlloc_spec (m : Memory hugepages) (align p : ℕ) (hp : p ≠ 0) (hs : (m.slab p).size = SLAB_SIZE)
    (hun : Unused (m.slab p).ctrl) (hsize : size ≠ 0) (hmax : size + UNIT_SIZE ≤ UInt64.size) :
    ∃ res m' c₁, m.initSlabAndAlloc p size align = some (res, m') ∧ WellFormed c₁ ∧
      liveCount c₁ = 0 ∧ ((res = none ∧ m' = m.setCtrl p c₁) ∨
        ∃ addr c', res = some addr ∧ Served p c₁ c' size align addr ∧
          m' = { m.setCtrl p c' with userMem := p :: m.userMem }) := by
  obtain ⟨c₁, hinit, hw, hz⟩ := initSlab_spec hun _ hs
  obtain ⟨answer, c', hcall, hout⟩ := qaeMemAlloc_spec align hw hp hsize hmax
  unfold initSlabAndAlloc
  rw [hinit]
  dsimp only
  rw [hcall]
  obtain ⟨rfl, rfl, _⟩ | ⟨s, rfl, ht, hfirst⟩ := hout
  · exact ⟨_, _, c', rfl, hw, hz, .inl ⟨rfl, rfl⟩⟩
  · exact ⟨_, _, c₁, rfl, hw, hz, .inr ⟨_, c', rfl, ⟨s, rfl, ht, hfirst.fit⟩, rfl⟩⟩

/-- What `popSlab` does: a slab of the cache, and the rest of it. -/
theorem popSlab_cases (m : Memory hugepages) (node : ℤ) : m.popSlab node = none ∨
    ∃ p ∈ m.userCache, m.popSlab node = some (p, { m with
      cache_size := m.cache_size - (m.slab p).size
      userCache := m.userCache.erase p }) := by
  unfold popSlab
  cases hf : m.userCache.find? (fun p =>
      !(decide (node ≠ NUMA_ANY_NODE) && m.strict_node && decide (node ≠ (m.slab p).nodeId))) with
  | none => exact .inl rfl
  | some p => exact .inr ⟨p, List.mem_of_find?_eq_some hf, rfl⟩

/-- `a` is a block of the slab at `p` on the alignment. -/
def AtUnit (m : Memory hugepages) (align a : ℕ) : Prop :=
  ∃ p ∈ m.userMem, ∃ s, s < BLOCK_SIZES ∧ a = p + s * UNIT_SIZE ∧ FirstFit.Aligned align s

theorem Served.atUnit {p : ℕ} {c c' : BlockCtrl} {addr : ℕ}
    (hs : Served p c c' size align addr) (hsize : size ≠ 0) (hp : p ∈ m.userMem) :
    AtUnit m align addr := by
  obtain ⟨s, haddr, _, hfit⟩ := hs
  have hneed := blocksFor_pos hsize
  have hin := hfit.inside
  have hblocks : BITMAP_LEN * QWORD_WIDTH = BLOCK_SIZES := rfl
  rw [hblocks] at hin
  exact ⟨p, hp, s, by omega, haddr, hfit.aligned⟩

/-- A request served from the slabs there are, counted. -/
def counted (m : Memory hugepages) (p : ℕ) : Memory hugepages :=
  m.setSlab p { m.slab p with allocations := incr32 (m.slab p).allocations }

theorem counted_setCtrl (p : ℕ) (c' : BlockCtrl) (list : List ℕ) :
    ({ m.setCtrl p c' with userMem := list } : Memory hugepages).counted p =
      { m.setSlab p { m.slab p with
          ctrl := c'
          allocations := incr32 (m.slab p).allocations } with userMem := list } := by
  simp only [counted, setCtrl, setSlab, Function.update_self, Function.update_idem]

theorem findSlab_spec (align : ℕ) (node : ℤ) (h : Inv m none) (hsize : size ≠ 0)
    (hmax : size + UNIT_SIZE ≤ UInt64.size) :
    ∃ res m', m.findSlab size node align = some (res, m') ∧
      ((res = none ∧ Inv m' none ∧ SameLive m m') ∨ ∃ p addr, res = some (p, addr) ∧
        Inv (m'.counted p) none ∧ Added m (m'.counted p) (blockAt addr size) ∧
        AtUnit (m'.counted p) align addr) := by
  obtain ⟨res, m₁, hlook, hout⟩ := lookup_spec align node h hsize hmax
    m.userMem 0 fun _ hp => hp
  unfold findSlab
  rw [hlook]
  obtain ⟨rfl, rfl⟩ | ⟨p, addr, c', rfl, hp, rfl, hs⟩ := hout
  · obtain hpop | ⟨p, hp, hpop⟩ := popSlab_cases m₁ node
    · dsimp only
      rw [hpop]
      exact ⟨none, m₁, rfl, .inl ⟨rfl, h, fun _ => Iff.rfl⟩⟩
    · have hi := h.fromCache hp
      obtain ⟨hu, hz⟩ := h.cache p hp
      have hz' : liveCount (m₁.slab p).ctrl = 0 := by
        rw [← hu.count]
        exact hz
      dsimp only
      rw [hpop]
      generalize hm₂ : ({ m₁ with
        cache_size := m₁.cache_size - (m₁.slab p).size
        userCache := m₁.userCache.erase p } : Memory hugepages) = m₂ at hi
      have hslab : m₂.slab = m₁.slab := by rw [← hm₂]
      have hlive : SameLive m₁ m₂ := by
        rw [← hm₂]
        exact fun _ => Iff.rfl
      obtain ⟨res, m₃, c₁, hcall, hw, hz₁, hcase⟩ := initSlabAndAlloc_spec m₂ align
        p hu.placed.nonzero (by rw [hslab]; exact hu.size)
        (by rw [hslab]; exact hu.wellFormed.unused hz') hsize hmax
      dsimp only
      rw [hcall]
      obtain ⟨rfl, rfl⟩ | ⟨addr, c', rfl, hs, rfl⟩ := hcase
      · have hsame : SamePlace m₂ (m₂.setCtrl p c₁) := samePlace_setSlab rfl rfl rfl
        refine ⟨none, _, rfl, .inl ⟨rfl, (hi.setLoose hsame).free, fun x => ?_⟩⟩
        exact (live_loose hi _ x).trans (hlive x)
      · refine ⟨_, _, rfl, .inr ⟨p, addr, rfl, ?_⟩⟩
        rw [counted_setCtrl]
        obtain ⟨hw', hcount⟩ := hs.wellFormed hw hsize
        have hone : incr32 (m₂.slab p).allocations = 1 := by
          rw [hslab, hz]
          rfl
        have hsame : SamePlace m₂ (m₂.setSlab p { m₂.slab p with
            ctrl := c'
            allocations := incr32 (m₂.slab p).allocations }) := samePlace_setSlab rfl rfl rfl
        rw [← hslab] at hu
        obtain ⟨hinv, hadd⟩ := hi.enlist hsame
          ⟨hu.type, hu.virt, hu.size, hu.phys, hu.placed, hw', by
            change incr32 (m₂.slab p).allocations = liveCount c'
            omega⟩
          (by
            change 0 < incr32 (m₂.slab p).allocations
            omega) hw hz₁ hsize hs
        refine ⟨hinv, ⟨fun hx => hadd.new ((hlive _).mpr hx), fun x => ?_⟩,
          hs.atUnit hsize (List.mem_cons_self ..)⟩
        rw [← hlive x]
        exact hadd.live x
  · refine ⟨_, _, rfl, .inr ⟨p, addr, rfl, ?_⟩⟩
    have hc := counted_setCtrl (m := m) p c' m.userMem
    change (m.setCtrl p c').counted p = _ at hc
    rw [hc]
    obtain ⟨hinv, hadd⟩ := h.serve hp hs hsize
    exact ⟨hinv, hadd, hs.atUnit hsize hp⟩

/-- A new slab of small blocks. -/
theorem newSlab_inUse {request : SlabRequest} {new : NewSlab} (ho : Offer m request new)
    (ht : request.type ≠ .LARGE) (hreq : request.size = SLAB_SIZE) {c' : BlockCtrl}
    (hw : WellFormed c') (hcount : liveCount c' = 1) :
    InUse { new.info request.type with ctrl := c', allocations := 1 } new.ctrl_addr := by
  have hvirt : (new.info request.type).virt_addr = new.ctrl_addr := if_neg ht
  have hl := paging_lawful hugepages
  have hv := ho.valid.virt
  have hlow := ho.valid.low
  have hle := le_pageCount hl.pos new.size
  obtain ⟨hsize, hphys⟩ := ho.small ht
  simp only [infoRange, hvirt] at hv hlow
  have hsz : (new.info request.type).size = new.size := rfl
  rw [hsz] at hlow
  constructor
  · exact ht
  · exact hvirt
  · exact hsize.trans hreq
  · exact hphys
  · constructor
    · exact ho.nonzero
    · have hdvd : 4096 ∣ new.ctrl_addr :=
        Nat.dvd_trans (Nat.dvd_of_mod_eq_zero hl.whole) (Nat.dvd_of_mod_eq_zero hv)
      have hu : UNIT_SIZE = 1024 := rfl
      rw [hu]
      omega
    · have hsp : ADDRESS_SPACE = 144115188075855872 := rfl
      have husz : UInt64.size = 18446744073709551616 := rfl
      omega
  · exact hw
  · exact hcount.symm

theorem useSlab_spec (align : ℕ) {request : SlabRequest} {new : NewSlab} {mmaps : ℕ → ℕ → Bool}
    (h : Inv m none) (ho : Offer m request new) (hall : ∀ i l, mmaps i l = true)
    (hsmall : request.type ≠ .LARGE → request.size = SLAB_SIZE)
    (hlarge : request.type = .LARGE → size ≤ request.size)
    (hsize : size ≠ 0) (hmax : size + UNIT_SIZE ≤ UInt64.size)
    {kernel : SlabRequest → SlabAnswer} (hk : kernel request = .ok new)
    {m₁ : Memory hugepages} {p : ℕ} (hm₁ : m.allocSlab request kernel = (some p, m₁)) :
    ∃ answer m', m₁.useSlab p size align request.type mmaps = some (answer, m') ∧
      Inv m' none ∧ ((answer = none ∧ SameLive m m') ∨
        ∃ a n, answer = some a ∧ size ≤ n ∧ Added m m' ⟨a, n⟩ ∧
          (request.type ≠ .LARGE → AtUnit m' align a)) := by
  have hi := h.mapNew ho hall
  have hlive : SameLive m (m.mapNew request new mmaps) := by
    refine live_congr (show (m.mapNew request new mmaps).userMem = m.userMem from rfl) rfl ?_
    intro q hq
    apply mapNew_slab_other
    apply ho.not_new
    rw [h.all q]
    tauto
  have hself := m.mapNew_slab_self request new mmaps
  simp only [allocSlab, hk, Option.some.injEq, Prod.mk.injEq] at hm₁
  obtain ⟨rfl, rfl⟩ := hm₁
  change ∃ answer m', (m.mapNew request new mmaps).serveFrom new.ctrl_addr size align
    request.type = some (answer, m') ∧ _
  generalize m.mapNew request new mmaps = m₂ at hi hlive hself
  unfold serveFrom
  by_cases ht : request.type = .LARGE
  · rw [if_pos ht]
    have hpos : 0 < (m₂.slab new.ctrl_addr).size := by
      rw [hself]
      have hle := ho.large ht
      have hreq := hlarge ht
      change 0 < new.size
      omega
    obtain ⟨hinv, hadd⟩ := hi.enlistLarge (by rw [hself]; exact ht) hpos
    refine ⟨_, _, rfl, hinv, .inr ⟨_, _, rfl, ?_, ⟨fun hx => hadd.new ((hlive _).mpr hx),
      fun x => ?_⟩, fun hne => absurd ht hne⟩⟩
    · rw [hself]
      exact Nat.le_trans (hlarge ht) (ho.large ht)
    · rw [← hlive x]
      exact hadd.live x
  · rw [if_neg ht]
    split
    · exact ⟨none, _, rfl, hi.free, .inl ⟨rfl, hlive⟩⟩
    · have hreq := (ho.small ht).1
      obtain ⟨res, m₃, c₁, hcall, hw, hz, hcase⟩ := initSlabAndAlloc_spec m₂ align
        new.ctrl_addr ho.nonzero (by rw [hself]; exact hreq.trans (hsmall ht))
        (by rw [hself]; exact blankCtrl_unused) hsize hmax
      rw [hcall]
      obtain ⟨rfl, rfl⟩ | ⟨addr, c', rfl, hs, rfl⟩ := hcase
      · have hsame : SamePlace m₂ (m₂.setCtrl new.ctrl_addr c₁) := samePlace_setSlab rfl rfl rfl
        refine ⟨none, _, rfl, (hi.setLoose hsame).free, .inl ⟨rfl, fun x => ?_⟩⟩
        exact (live_loose hi _ x).trans (hlive x)
      · obtain ⟨hw', hcount⟩ := hs.wellFormed hw hsize
        have hsame : SamePlace m₂ (m₂.setSlab new.ctrl_addr
            { m₂.slab new.ctrl_addr with ctrl := c' }) := samePlace_setSlab rfl rfl rfl
        obtain ⟨hinv, hadd⟩ := hi.enlist hsame
          (by
            rw [hself]
            exact newSlab_inUse ho ht (hsmall ht) hw' (by omega))
          (by
            rw [hself]
            exact Nat.one_pos) hw hz hsize hs
        refine ⟨some addr, _, rfl, hinv, .inr ⟨addr, _, rfl, le_blockAt addr size,
          ⟨fun hx => hadd.new ((hlive _).mpr hx), fun x => ?_⟩,
          fun _ => hs.atUnit hsize (List.mem_cons_self ..)⟩⟩
        rw [← hlive x]
        exact hadd.live x

end

end Memory

end Numa
end QatDcSample
