import QatDcSample.NumaMemory
import QatDcSample.Lib.Memory

/-!
# The slabs of the memory library

The slabs mapped lie apart and are found by any of their addresses; each is in use,
in the cache, or serves one large request. What each move of a slab between the
lists, the hash and the kernel keeps of this.
-/

namespace QatDcSample
namespace Numa

open Slab PageTable

variable {hugepages : Bool}

theorem paging_lawful (hugepages : Bool) : (paging hugepages).Lawful := by
  cases hugepages with
  | true => exact hugepage_lawful
  | false => exact page_lawful

namespace Memory

/-- A slab mapped: it is in the hash under its own key. -/
def Mapped (m : Memory hugepages) (p : ℕ) : Prop := p ∈ m.slab_list (m.key p)

/-- The mapping of a slab. -/
def range (m : Memory hugepages) (p : ℕ) : Mapping where
  virt := (m.slab p).virt_addr
  phys := (m.slab p).phy_addr
  size := (m.slab p).size
  mmaps := fun _ _ => true

def Covers (m : Memory hugepages) (p a : ℕ) : Prop :=
  (m.range p).covers (paging hugepages) a = true

/-- The physical addresses of a slab. -/
def PhysApart (m : Memory hugepages) (p q : ℕ) : Prop :=
  (m.slab p).phy_addr.toNat + (m.slab p).size ≤ (m.slab q).phy_addr.toNat ∨
    (m.slab q).phy_addr.toNat + (m.slab q).size ≤ (m.slab p).phy_addr.toNat

/-- The slabs mapped, the hash and the page table agree. -/
structure Core (m : Memory hugepages) : Prop where
  keyed : ∀ k p, p ∈ m.slab_list k → m.key p = k
  nodup : ∀ k, (m.slab_list k).Nodup
  valid : ∀ p, m.Mapped p → (m.range p).Valid (paging hugepages)
  apart : ∀ p q, m.Mapped p → m.Mapped q → p ≠ q → ∀ a, m.Covers p a → ¬ m.Covers q a
  physApart : ∀ p q, m.Mapped p → m.Mapped q → p ≠ q → m.PhysApart p q
  translated : ∀ p, m.Mapped p → ∀ a, m.Covers p a →
    found m.page_table (a / (paging hugepages).page_size) =
      some (mappedEntry (paging hugepages) (m.range p) a)

/-- Where a slab lies, as far as the hash and the page table are concerned. -/
structure SamePlace (m m' : Memory hugepages) : Prop where
  virt : ∀ p, (m'.slab p).virt_addr = (m.slab p).virt_addr
  phys : ∀ p, (m'.slab p).phy_addr = (m.slab p).phy_addr
  size : ∀ p, (m'.slab p).size = (m.slab p).size
  slab_list : m'.slab_list = m.slab_list
  page_table : m'.page_table = m.page_table

variable {m m' : Memory hugepages}

theorem SamePlace.key (h : SamePlace m m') (p : ℕ) : m'.key p = m.key p := by
  unfold Memory.key
  rw [h.phys p]

theorem SamePlace.range (h : SamePlace m m') (p : ℕ) : m'.range p = m.range p := by
  unfold Memory.range
  rw [h.virt p, h.phys p, h.size p]

theorem SamePlace.mapped (h : SamePlace m m') (p : ℕ) : m'.Mapped p ↔ m.Mapped p := by
  unfold Memory.Mapped
  rw [h.key p, h.slab_list]

theorem SamePlace.covers (h : SamePlace m m') (p a : ℕ) : m'.Covers p a ↔ m.Covers p a := by
  unfold Memory.Covers
  rw [h.range p]

theorem SamePlace.core (h : SamePlace m m') (hc : Core m) : Core m' := by
  constructor
  · intro k p hp
    rw [h.slab_list] at hp
    rw [h.key p]
    exact hc.keyed k p hp
  · intro k
    rw [h.slab_list]
    exact hc.nodup k
  · intro p hp
    rw [h.range p]
    exact hc.valid p ((h.mapped p).mp hp)
  · intro p q hp hq hne a ha hb
    exact hc.apart p q ((h.mapped p).mp hp) ((h.mapped q).mp hq) hne a ((h.covers p a).mp ha)
      ((h.covers q a).mp hb)
  · intro p q hp hq hne
    unfold PhysApart
    rw [h.phys p, h.phys q, h.size p, h.size q]
    exact hc.physApart p q ((h.mapped p).mp hp) ((h.mapped q).mp hq) hne
  · intro p hp a ha
    rw [h.page_table, h.range p]
    exact hc.translated p ((h.mapped p).mp hp) a ((h.covers p a).mp ha)

/-- An update of a slab's block that leaves where the slab lies. -/
theorem samePlace_setSlab {p : ℕ} {info : DevMemInfo}
    (hv : info.virt_addr = (m.slab p).virt_addr) (hp : info.phy_addr = (m.slab p).phy_addr)
    (hs : info.size = (m.slab p).size) : SamePlace m (m.setSlab p info) := by
  have hcase : ∀ q, (m.setSlab p info).slab q = if q = p then info else m.slab q := by
    intro q
    simp only [setSlab, Function.update_apply]
  constructor
  · intro q
    rw [hcase]
    split
    · next h => rw [h, hv]
    · rfl
  · intro q
    rw [hcase]
    split
    · next h => rw [h, hp]
    · rfl
  · intro q
    rw [hcase]
    split
    · next h => rw [h, hs]
    · rfl
  · rfl
  · rfl

theorem mem_covers {p a : ℕ} (hv : (m.slab p).virt_addr ≤ a)
    (hs : a < (m.slab p).virt_addr + (m.slab p).size) : m.Covers p a := by
  have hle := le_pageCount (paging_lawful hugepages).pos (m.slab p).size
  apply covers_bounds.mpr
  exact ⟨hv, Nat.lt_of_lt_of_le hs (Nat.add_le_add_left hle _)⟩

/-- A slab mapped ends within the address space. -/
theorem Core.top (hc : Core m) {p : ℕ} (hp : m.Mapped p) :
    (m.slab p).virt_addr + (m.slab p).size ≤ ADDRESS_SPACE := by
  have hle := le_pageCount (paging_lawful hugepages).pos (m.slab p).size
  have hlow := (hc.valid p hp).low
  exact Nat.le_trans (Nat.add_le_add_left hle _) hlow

/-- A slab mapped is found by each of its addresses, and by no other. -/
theorem findSlabInHash_iff (hc : Core m) {va p : ℕ} (hva : va < UInt64.size) :
    m.findSlabInHash va = some p ↔ m.Mapped p ∧ (m.slab p).virt_addr ≤ va ∧
      va < (m.slab p).virt_addr + (m.slab p).size := by
  have hwithin : ∀ q, m.Mapped q → (m.within va q = true ↔
      (m.slab q).virt_addr ≤ va ∧ va < (m.slab q).virt_addr + (m.slab q).size) := by
    intro q hq
    have htop := hc.top hq
    have hsz : UInt64.size = 18446744073709551616 := rfl
    have hsp : ADDRESS_SPACE = 144115188075855872 := rfl
    simp only [within, decide_eq_true_eq]
    rw [hsz] at hva ⊢
    omega
  unfold findSlabInHash
  constructor
  · intro h
    have hmem := List.mem_of_find?_eq_some h
    have hmap : m.Mapped p := by
      unfold Mapped
      rw [hc.keyed _ p hmem]
      exact hmem
    exact ⟨hmap, (hwithin p hmap).mp (List.find?_some h)⟩
  · intro ⟨hmap, hlo, hhi⟩
    have hcov := mem_covers hlo hhi
    obtain ⟨_, hkey⟩ := mappedEntry_parts (paging_lawful hugepages) (hc.valid p hmap) hcov
    have htrans := (translates_of_found (paging_lawful hugepages) (hc.translated p hmap va hcov)).2
    rw [htrans, hkey]
    have hbucket : p ∈ m.slab_list (getKey (m.range p).phys).toNat := hmap
    cases hf : (m.slab_list (getKey (m.range p).phys).toNat).find? (m.within va) with
    | none =>
      have hno := List.find?_eq_none.mp hf p hbucket
      rw [(hwithin p hmap).mpr ⟨hlo, hhi⟩] at hno
      exact absurd rfl hno
    | some q =>
      have hmem := List.mem_of_find?_eq_some hf
      have hmapq : m.Mapped q := by
        unfold Mapped
        rw [hc.keyed _ q hmem]
        exact hmem
      obtain ⟨hqlo, hqhi⟩ := (hwithin q hmapq).mp (List.find?_some hf)
      by_contra hne
      have hpq : p ≠ q := fun he => hne (by rw [he])
      exact hc.apart p q hmap hmapq hpq va hcov (mem_covers hqlo hqhi)

/-! ### The lists -/

/-- A slab of small blocks with its count. -/
structure InUse (info : DevMemInfo) (p : ℕ) : Prop where
  type : info.type ≠ .LARGE
  virt : info.virt_addr = p
  size : info.size = SLAB_SIZE
  phys : info.phy_addr.toNat % SLAB_SIZE = 0
  placed : Placed p
  wellFormed : WellFormed info.ctrl
  count : info.allocations = liveCount info.ctrl

/-- Between two operations every slab mapped is in one of the lists; inside one,
`loose` is the slab at hand. -/
structure Inv (m : Memory hugepages) (loose : Option ℕ) : Prop where
  core : Core m
  userNodup : m.userMem.Nodup
  largeNodup : m.userLargeMem.Nodup
  cacheNodup : m.userCache.Nodup
  user : ∀ p ∈ m.userMem, InUse (m.slab p) p ∧ 0 < (m.slab p).allocations
  large : ∀ p ∈ m.userLargeMem, (m.slab p).type = .LARGE ∧ 0 < (m.slab p).size
  cache : ∀ p ∈ m.userCache, InUse (m.slab p) p ∧ (m.slab p).allocations = 0
  out : ∀ p, loose = some p → p ∉ m.userMem ∧ p ∉ m.userLargeMem ∧ p ∉ m.userCache
  all : ∀ p, m.Mapped p ↔
    p ∈ m.userMem ∨ p ∈ m.userLargeMem ∨ p ∈ m.userCache ∨ loose = some p
  cached : m.cache_size = SLAB_SIZE * m.userCache.length
  bounded : m.cache_size ≤ MAX_CACHE

open BlockMemory (Region)

/-- A block handed out of a small slab. -/
def SlabRegion (p : ℕ) (c : BlockCtrl) (r : Region) : Prop :=
  ∃ b, extent c b ≠ 0 ∧ r = ⟨p + b * UNIT_SIZE, extent c b * UNIT_SIZE⟩

/-- The blocks handed out and not released. -/
def LiveRegion (m : Memory hugepages) (r : Region) : Prop :=
  (∃ p ∈ m.userMem, SlabRegion p (m.slab p).ctrl r) ∨
    ∃ p ∈ m.userLargeMem, r = ⟨(m.slab p).virt_addr, (m.slab p).size⟩

structure Added (m m' : Memory hugepages) (r : Region) : Prop where
  new : ¬ LiveRegion m r
  live : ∀ x, LiveRegion m' x ↔ LiveRegion m x ∨ x = r

structure Removed (m m' : Memory hugepages) (r : Region) : Prop where
  old : LiveRegion m r
  live : ∀ x, LiveRegion m' x ↔ LiveRegion m x ∧ x ≠ r

def SameLive (m m' : Memory hugepages) : Prop := ∀ x, LiveRegion m' x ↔ LiveRegion m x

theorem SlabRegion.inside {p : ℕ} {c : BlockCtrl} {r : Region} (hw : WellFormed c)
    (h : SlabRegion p c r) : p ≤ r.base ∧ r.base + r.size ≤ p + SLAB_SIZE ∧ 0 < r.size := by
  obtain ⟨b, hb, rfl⟩ := h
  have hin := (hw.inside b hb).2
  have hu : UNIT_SIZE = 1024 := rfl
  have hs : SLAB_SIZE = 2097152 := rfl
  have hbl : BITMAP_LEN * QWORD_WIDTH = 2048 := rfl
  simp only [hu]
  omega

/-- Blocks of one slab are equal or apart. -/
theorem SlabRegion.apart {p : ℕ} {c : BlockCtrl} {r r' : Region} (hw : WellFormed c)
    (h : SlabRegion p c r) (h' : SlabRegion p c r') : r = r' ∨ r.Disjoint r' := by
  obtain ⟨b, hb, rfl⟩ := h
  obtain ⟨b', hb', rfl⟩ := h'
  have hu : UNIT_SIZE = 1024 := rfl
  rcases Nat.lt_trichotomy b b' with hlt | heq | hgt
  · have := hw.apart b b' hlt hb hb'
    refine .inr (.inl ?_)
    simp only [hu]
    omega
  · subst heq
    exact .inl rfl
  · have := hw.apart b' b hgt hb' hb
    refine .inr (.inr ?_)
    simp only [hu]
    omega

/-- Every block alive lies in a slab mapped, that of a list. -/
theorem LiveRegion.slab {loose : Option ℕ} (hi : Inv m loose) {r : Region} (h : LiveRegion m r) :
    ∃ p, m.Mapped p ∧ (m.slab p).virt_addr ≤ r.base ∧
      r.base + r.size ≤ (m.slab p).virt_addr + (m.slab p).size ∧ 0 < r.size ∧
      ((p ∈ m.userMem ∧ SlabRegion p (m.slab p).ctrl r) ∨
        (p ∈ m.userLargeMem ∧ r = ⟨(m.slab p).virt_addr, (m.slab p).size⟩)) := by
  obtain ⟨p, hp, hr⟩ | ⟨p, hp, hr⟩ := h
  · obtain ⟨hu, _⟩ := hi.user p hp
    have hin := hr.inside hu.wellFormed
    refine ⟨p, (hi.all p).mpr (.inl hp), ?_, ?_, hin.2.2, .inl ⟨hp, hr⟩⟩
    · rw [hu.virt]
      exact hin.1
    · rw [hu.virt, hu.size]
      exact hin.2.1
  · subst hr
    exact ⟨p, (hi.all p).mpr (.inr (.inl hp)), Nat.le_refl _, Nat.le_refl _, (hi.large p hp).2,
      .inr ⟨hp, rfl⟩⟩

/-- An address lies in one slab at most. -/
theorem Core.same_slab (hc : Core m) {p q a : ℕ} (hp : m.Mapped p) (hq : m.Mapped q)
    (hpa : (m.slab p).virt_addr ≤ a ∧ a < (m.slab p).virt_addr + (m.slab p).size)
    (hqa : (m.slab q).virt_addr ≤ a ∧ a < (m.slab q).virt_addr + (m.slab q).size) : p = q := by
  by_contra hne
  exact hc.apart p q hp hq hne a (mem_covers hpa.1 hpa.2) (mem_covers hqa.1 hqa.2)

/-- Two blocks alive are equal or apart. -/
theorem LiveRegion.apart {loose : Option ℕ} (hi : Inv m loose) {r r' : Region}
    (h : LiveRegion m r) (h' : LiveRegion m r') : r = r' ∨ r.Disjoint r' := by
  obtain ⟨p, hp, hlo, hhi, hpos, hin⟩ := h.slab hi
  obtain ⟨q, hq, hlo', hhi', hpos', hin'⟩ := h'.slab hi
  by_cases hpq : p = q
  · subst hpq
    obtain ⟨hu, hr⟩ | ⟨hl, hr⟩ := hin
    · obtain ⟨_, hr'⟩ | ⟨hl', _⟩ := hin'
      · exact hr.apart (hi.user p hu).1.wellFormed hr'
      · exact absurd (hi.large p hl').1 (hi.user p hu).1.type
    · obtain ⟨hu', _⟩ | ⟨_, hr'⟩ := hin'
      · exact absurd (hi.large p hl).1 (hi.user p hu').1.type
      · exact .inl (hr.trans hr'.symm)
  · right
    by_contra hmeet
    simp only [Region.Disjoint, not_or, Nat.not_le] at hmeet
    -- the higher of the two bases is in both slabs
    apply hpq
    apply hi.core.same_slab (a := max r.base r'.base) hp hq
    · omega
    · omega

/-! ### The steps an operation is made of -/

/-- A slab at hand with memory in use goes to the user list. -/
theorem Inv.toUser {p : ℕ} (h : Inv m (some p)) (hu : InUse (m.slab p) p)
    (hpos : 0 < (m.slab p).allocations) :
    Inv { m with userMem := p :: m.userMem } none := by
  have hout := h.out p rfl
  have hsame : SamePlace m { m with userMem := p :: m.userMem } :=
    ⟨fun _ => rfl, fun _ => rfl, fun _ => rfl, rfl, rfl⟩
  constructor
  · exact hsame.core h.core
  · exact List.nodup_cons.mpr ⟨hout.1, h.userNodup⟩
  · exact h.largeNodup
  · exact h.cacheNodup
  · intro q hq
    rcases List.mem_cons.mp hq with rfl | hq
    · exact ⟨hu, hpos⟩
    · exact h.user q hq
  · exact h.large
  · exact h.cache
  · intro q hq
    cases hq
  · intro q
    rw [hsame.mapped q, h.all q]
    simp only [List.mem_cons, Option.some.injEq, reduceCtorEq, or_false, eq_comm (a := p)]
    tauto
  · exact h.cached
  · exact h.bounded

theorem Inv.toLarge {p : ℕ} (h : Inv m (some p)) (ht : (m.slab p).type = .LARGE)
    (hpos : 0 < (m.slab p).size) :
    Inv { m with userLargeMem := p :: m.userLargeMem } none := by
  have hout := h.out p rfl
  have hsame : SamePlace m { m with userLargeMem := p :: m.userLargeMem } :=
    ⟨fun _ => rfl, fun _ => rfl, fun _ => rfl, rfl, rfl⟩
  constructor
  · exact hsame.core h.core
  · exact h.userNodup
  · exact List.nodup_cons.mpr ⟨hout.2.1, h.largeNodup⟩
  · exact h.cacheNodup
  · exact h.user
  · intro q hq
    rcases List.mem_cons.mp hq with rfl | hq
    · exact ⟨ht, hpos⟩
    · exact h.large q hq
  · exact h.cache
  · intro q hq
    cases hq
  · intro q
    rw [hsame.mapped q, h.all q]
    simp only [List.mem_cons, Option.some.injEq, reduceCtorEq, or_false, eq_comm (a := p)]
    tauto
  · exact h.cached
  · exact h.bounded

theorem Inv.toCache {p : ℕ} (h : Inv m (some p)) (hu : InUse (m.slab p) p)
    (hz : (m.slab p).allocations = 0) (hroom : m.cache_size + (m.slab p).size ≤ MAX_CACHE) :
    Inv { m with
      cache_size := m.cache_size + (m.slab p).size
      userCache := p :: m.userCache } none := by
  have hout := h.out p rfl
  have hsame : SamePlace m { m with
      cache_size := m.cache_size + (m.slab p).size
      userCache := p :: m.userCache } :=
    ⟨fun _ => rfl, fun _ => rfl, fun _ => rfl, rfl, rfl⟩
  constructor
  · exact hsame.core h.core
  · exact h.userNodup
  · exact h.largeNodup
  · exact List.nodup_cons.mpr ⟨hout.2.2, h.cacheNodup⟩
  · exact h.user
  · exact h.large
  · intro q hq
    rcases List.mem_cons.mp hq with rfl | hq
    · exact ⟨hu, hz⟩
    · exact h.cache q hq
  · intro q hq
    cases hq
  · intro q
    rw [hsame.mapped q, h.all q]
    simp only [List.mem_cons, Option.some.injEq, reduceCtorEq, or_false, eq_comm (a := p)]
    tauto
  · have hc := h.cached
    have hs := hu.size
    simp only [List.length_cons, Nat.mul_add, Nat.mul_one]
    omega
  · exact hroom

/-- A slab taken off the user list is at hand. -/
theorem Inv.fromUser {p : ℕ} (h : Inv m none) (hp : p ∈ m.userMem) :
    Inv { m with userMem := m.userMem.erase p } (some p) := by
  have hsame : SamePlace m { m with userMem := m.userMem.erase p } :=
    ⟨fun _ => rfl, fun _ => rfl, fun _ => rfl, rfl, rfl⟩
  have hmem := fun q => h.userNodup.mem_erase_iff (a := q) (b := p)
  obtain ⟨hu, hpos⟩ := h.user p hp
  constructor
  · exact hsame.core h.core
  · exact h.userNodup.erase p
  · exact h.largeNodup
  · exact h.cacheNodup
  · intro q hq
    exact h.user q (List.mem_of_mem_erase hq)
  · exact h.large
  · exact h.cache
  · intro q hq
    cases hq
    refine ⟨fun hq => ((hmem p).mp hq).1 rfl, fun hq => hu.type (h.large p hq).1, fun hq => ?_⟩
    have hz := (h.cache p hq).2
    omega
  · intro q
    rw [hsame.mapped q, h.all q, hmem q]
    by_cases hqp : q = p
    · subst hqp
      simp [hp]
    · have hne : ¬ some p = some q := fun he => hqp (Option.some.inj he).symm
      simp [hqp, hne]
  · exact h.cached
  · exact h.bounded

theorem Inv.fromLarge {p : ℕ} (h : Inv m none) (hp : p ∈ m.userLargeMem) :
    Inv { m with userLargeMem := m.userLargeMem.erase p } (some p) := by
  have hsame : SamePlace m { m with userLargeMem := m.userLargeMem.erase p } :=
    ⟨fun _ => rfl, fun _ => rfl, fun _ => rfl, rfl, rfl⟩
  have hmem := fun q => h.largeNodup.mem_erase_iff (a := q) (b := p)
  have htype := (h.large p hp).1
  constructor
  · exact hsame.core h.core
  · exact h.userNodup
  · exact h.largeNodup.erase p
  · exact h.cacheNodup
  · exact h.user
  · intro q hq
    exact h.large q (List.mem_of_mem_erase hq)
  · exact h.cache
  · intro q hq
    cases hq
    exact ⟨fun hq => (h.user p hq).1.type htype, fun hq => ((hmem p).mp hq).1 rfl,
      fun hq => (h.cache p hq).1.type htype⟩
  · intro q
    rw [hsame.mapped q, h.all q, hmem q]
    by_cases hqp : q = p
    · subst hqp
      simp [hp]
    · have hne : ¬ some p = some q := fun he => hqp (Option.some.inj he).symm
      simp [hqp, hne]
  · exact h.cached
  · exact h.bounded

theorem Inv.fromCache {p : ℕ} (h : Inv m none) (hp : p ∈ m.userCache) :
    Inv { m with
      cache_size := m.cache_size - (m.slab p).size
      userCache := m.userCache.erase p } (some p) := by
  have hsame : SamePlace m { m with
      cache_size := m.cache_size - (m.slab p).size
      userCache := m.userCache.erase p } :=
    ⟨fun _ => rfl, fun _ => rfl, fun _ => rfl, rfl, rfl⟩
  have hmem := fun q => h.cacheNodup.mem_erase_iff (a := q) (b := p)
  obtain ⟨hu, hz⟩ := h.cache p hp
  have hc := h.cached
  have hb := h.bounded
  constructor
  · exact hsame.core h.core
  · exact h.userNodup
  · exact h.largeNodup
  · exact h.cacheNodup.erase p
  · exact h.user
  · exact h.large
  · intro q hq
    exact h.cache q (List.mem_of_mem_erase hq)
  · intro q hq
    cases hq
    refine ⟨fun hq => ?_, fun hq => hu.type (h.large p hq).1, fun hq => ((hmem p).mp hq).1 rfl⟩
    have hpos := (h.user p hq).2
    omega
  · intro q
    rw [hsame.mapped q, h.all q, hmem q]
    by_cases hqp : q = p
    · subst hqp
      simp [hp]
    · have hne : ¬ some p = some q := fun he => hqp (Option.some.inj he).symm
      simp [hqp, hne]
  · have hlen := List.length_erase_of_mem hp
    have hpos := List.length_pos_of_mem hp
    rw [hlen, hu.size, hc, Nat.mul_sub, Nat.mul_one]
  · exact Nat.le_trans (Nat.sub_le _ _) hb

theorem freeSlab_mapped (hc : Core m) (p q : ℕ) :
    (m.freeSlab p).Mapped q ↔ q ≠ p ∧ m.Mapped q := by
  have hkey : (m.freeSlab p).key q = m.key q := rfl
  unfold Mapped
  rw [hkey]
  simp only [freeSlab, delSlabFromHash, Function.update_apply]
  by_cases hk : m.key q = m.key p
  · rw [if_pos hk, hk]
    exact (hc.nodup (m.key p)).mem_erase_iff
  · rw [if_neg hk]
    constructor
    · intro hq
      exact ⟨fun he => hk (by rw [he]), hq⟩
    · intro hq
      exact hq.2

theorem freeSlab_core (hc : Core m) (p : ℕ) : Core (m.freeSlab p) := by
  have hmap := freeSlab_mapped hc p
  constructor
  · intro k q hq
    simp only [freeSlab, delSlabFromHash, Function.update_apply] at hq
    split at hq
    · next hk =>
      subst hk
      exact hc.keyed _ q (List.mem_of_mem_erase hq)
    · exact hc.keyed k q hq
  · intro k
    simp only [freeSlab, delSlabFromHash, Function.update_apply]
    split
    · exact (hc.nodup _).erase p
    · exact hc.nodup k
  · intro q hq
    exact hc.valid q ((hmap q).mp hq).2
  · intro q r hq hr
    exact hc.apart q r ((hmap q).mp hq).2 ((hmap r).mp hr).2
  · intro q r hq hr
    exact hc.physApart q r ((hmap q).mp hq).2 ((hmap r).mp hr).2
  · intro q hq
    exact hc.translated q ((hmap q).mp hq).2

theorem Inv.free {p : ℕ} (h : Inv m (some p)) : Inv (m.freeSlab p) none := by
  have hout := h.out p rfl
  have hmap := freeSlab_mapped h.core p
  constructor
  · exact freeSlab_core h.core p
  · exact h.userNodup
  · exact h.largeNodup
  · exact h.cacheNodup
  · exact h.user
  · exact h.large
  · exact h.cache
  · intro q hq
    cases hq
  · intro q
    rw [hmap q, h.all q]
    change _ ↔ q ∈ m.userMem ∨ q ∈ m.userLargeMem ∨ q ∈ m.userCache ∨ none = some q
    by_cases hqp : q = p
    · subst hqp
      simp [hout.1, hout.2.1, hout.2.2]
    · have hne : ¬ some p = some q := fun he => hqp (Option.some.inj he).symm
      simp [hqp, hne]
  · exact h.cached
  · exact h.bounded

/-- The block of a slab changes, not its place. -/
theorem Inv.setSlab {loose : Option ℕ} {p : ℕ} {info : DevMemInfo} (h : Inv m loose)
    (hsame : SamePlace m (m.setSlab p info))
    (hu : p ∈ m.userMem → InUse info p ∧ 0 < info.allocations)
    (hl : p ∈ m.userLargeMem → info.type = .LARGE ∧ 0 < info.size)
    (hca : p ∈ m.userCache → InUse info p ∧ info.allocations = 0) :
    Inv (m.setSlab p info) loose := by
  have hself : (m.setSlab p info).slab p = info := Function.update_self ..
  have hother : ∀ q, q ≠ p → (m.setSlab p info).slab q = m.slab q :=
    fun q hq => Function.update_of_ne hq ..
  constructor
  · exact hsame.core h.core
  · exact h.userNodup
  · exact h.largeNodup
  · exact h.cacheNodup
  · intro q hq
    by_cases hqp : q = p
    · subst hqp
      rw [hself]
      exact hu hq
    · rw [hother q hqp]
      exact h.user q hq
  · intro q hq
    by_cases hqp : q = p
    · subst hqp
      rw [hself]
      exact hl hq
    · rw [hother q hqp]
      exact h.large q hq
  · intro q hq
    by_cases hqp : q = p
    · subst hqp
      rw [hself]
      exact hca hq
    · rw [hother q hqp]
      exact h.cache q hq
  · exact h.out
  · intro q
    rw [hsame.mapped q]
    exact h.all q
  · exact h.cached
  · exact h.bounded

/-! ### A new slab -/

/-- The mapping of a slab's information block. -/
def infoRange (info : DevMemInfo) (mmaps : ℕ → ℕ → Bool) : Mapping :=
  ⟨info.virt_addr, info.phy_addr, info.size, mmaps⟩

theorem Inv.noteNode {loose : Option ℕ} {request : SlabRequest} {nodeId : Option ℤ}
    (h : Inv m loose) : Inv (m.noteNode request nodeId) loose :=
  have hplace : SamePlace m (m.noteNode request nodeId) :=
    ⟨fun _ => rfl, fun _ => rfl, fun _ => rfl, rfl, rfl⟩
  { h with core := hplace.core h.core }

/-- What the kernel is relied on for: a new slab is at page aligned addresses, apart
from those mapped, of the size asked for. Slabs of small blocks are aligned to their
size in physical memory, as power of two allocations of the kernel are. -/
structure Offer (m : Memory hugepages) (request : SlabRequest) (new : NewSlab) : Prop where
  unmapped : ∀ k, new.ctrl_addr ∉ m.slab_list k
  nonzero : new.ctrl_addr ≠ 0
  valid : (infoRange (new.info request.type) fun _ _ => true).Valid (paging hugepages)
  apart : ∀ p, m.Mapped p → ∀ a, m.Covers p a →
    (infoRange (new.info request.type) fun _ _ => true).covers (paging hugepages) a = false
  physApart : ∀ p, m.Mapped p →
    new.phy_addr.toNat + new.size ≤ (m.slab p).phy_addr.toNat ∨
      (m.slab p).phy_addr.toNat + (m.slab p).size ≤ new.phy_addr.toNat
  large : request.type = .LARGE → request.size ≤ new.size
  small : request.type ≠ .LARGE →
    new.size = request.size ∧ new.phy_addr.toNat % SLAB_SIZE = 0

/-- A new slab in the hash and in the page table, counted once. -/
def mapNew (m : Memory hugepages) (request : SlabRequest) (new : NewSlab)
    (mmaps : ℕ → ℕ → Bool) : Memory hugepages :=
  let m := ((m.noteNode request (some new.nodeId)).setSlab new.ctrl_addr
    (new.info request.type)).addSlabToHash new.ctrl_addr
  let info := m.slab new.ctrl_addr
  let page_table := storeMmapRange (paging hugepages) m.page_table info.virt_addr info.phy_addr
    info.size mmaps
  { m with page_table }.setSlab new.ctrl_addr { info with allocations := 1 }

section
variable {request : SlabRequest} {new : NewSlab} {mmaps : ℕ → ℕ → Bool}

theorem mapNew_slab_self (m : Memory hugepages) (request : SlabRequest) (new : NewSlab)
    (mmaps : ℕ → ℕ → Bool) : (m.mapNew request new mmaps).slab new.ctrl_addr =
    { new.info request.type with allocations := 1 } := by
  simp only [mapNew, setSlab, addSlabToHash, Function.update_self]

theorem mapNew_slab_other {q : ℕ} (hq : q ≠ new.ctrl_addr) :
    (m.mapNew request new mmaps).slab q = m.slab q := by
  simp only [mapNew, noteNode, setSlab, addSlabToHash, Function.update_of_ne hq]

theorem mapNew_key_self : (m.mapNew request new mmaps).key new.ctrl_addr =
    (getKey new.phy_addr).toNat := by
  rw [key, mapNew_slab_self]
  rfl

theorem mapNew_key_other {q : ℕ} (hq : q ≠ new.ctrl_addr) :
    (m.mapNew request new mmaps).key q = m.key q := by
  rw [key, mapNew_slab_other hq]
  rfl

theorem mapNew_slab_list (k : ℕ) : (m.mapNew request new mmaps).slab_list k =
    if k = (getKey new.phy_addr).toNat then new.ctrl_addr :: m.slab_list k
    else m.slab_list k := by
  have hkey : ((m.noteNode request (some new.nodeId)).setSlab new.ctrl_addr
      (new.info request.type)).key new.ctrl_addr = (getKey new.phy_addr).toNat := by
    simp only [key, setSlab, Function.update_self]
    rfl
  unfold mapNew
  simp only [addSlabToHash, hkey]
  simp only [noteNode, setSlab, Function.update_apply]
  split
  · next h => rw [h]
  · rfl

theorem mapNew_page_table : (m.mapNew request new mmaps).page_table =
    storeMmapRange (paging hugepages) m.page_table (new.info request.type).virt_addr
      (new.info request.type).phy_addr (new.info request.type).size mmaps := by
  simp only [mapNew, noteNode, setSlab, addSlabToHash, Function.update_self]

theorem mapNew_mapped (m : Memory hugepages) (request : SlabRequest) (new : NewSlab)
    (mmaps : ℕ → ℕ → Bool) (q : ℕ) :
    (m.mapNew request new mmaps).Mapped q ↔ q = new.ctrl_addr ∨ m.Mapped q := by
  unfold Mapped
  by_cases hq : q = new.ctrl_addr
  · subst hq
    rw [mapNew_key_self, mapNew_slab_list, if_pos rfl]
    simp
  · rw [mapNew_key_other hq, mapNew_slab_list]
    split
    · simp [hq]
    · simp [hq]

theorem mapNew_range_self : (m.mapNew request new mmaps).range new.ctrl_addr =
    infoRange (new.info request.type) fun _ _ => true := by
  rw [range, mapNew_slab_self]
  rfl

theorem mapNew_range_other {q : ℕ} (hq : q ≠ new.ctrl_addr) :
    (m.mapNew request new mmaps).range q = m.range q := by
  rw [range, mapNew_slab_other hq]
  rfl

theorem Offer.not_new (ho : Offer m request new) {q : ℕ} (hq : m.Mapped q) :
    q ≠ new.ctrl_addr := by
  intro he
  subst he
  exact ho.unmapped _ hq

theorem mapNew_core (hc : Core m) (ho : Offer m request new)
    (hall : ∀ i l, mmaps i l = true) : Core (m.mapNew request new mmaps) := by
  have hl := paging_lawful hugepages
  have hmap := m.mapNew_mapped request new mmaps
  have hvalid : (infoRange (new.info request.type) mmaps).Valid (paging hugepages) :=
    ⟨ho.valid.virt, ho.valid.phys, ho.valid.low, ho.valid.room⟩
  constructor
  · intro k q hq
    rw [mapNew_slab_list] at hq
    have hold : q ∈ m.slab_list k → (m.mapNew request new mmaps).key q = k := by
      intro hq
      have hne : q ≠ new.ctrl_addr := fun he => ho.unmapped k (by rw [← he]; exact hq)
      rw [mapNew_key_other hne]
      exact hc.keyed k q hq
    split at hq
    · next hk =>
      rcases List.mem_cons.mp hq with rfl | hq
      · rw [mapNew_key_self, hk]
      · exact hold hq
    · exact hold hq
  · intro k
    rw [mapNew_slab_list]
    split
    · exact List.nodup_cons.mpr ⟨ho.unmapped k, hc.nodup k⟩
    · exact hc.nodup k
  · intro q hq
    obtain rfl | hq := (hmap q).mp hq
    · rw [mapNew_range_self]
      exact ho.valid
    · rw [mapNew_range_other (ho.not_new hq)]
      exact hc.valid q hq
  · intro p q hp hq hne a ha hb
    unfold Covers at ha hb
    obtain rfl | hp := (hmap p).mp hp
    · obtain rfl | hq := (hmap q).mp hq
      · exact hne rfl
      · rw [mapNew_range_self] at ha
        rw [mapNew_range_other (ho.not_new hq)] at hb
        rw [ho.apart q hq a hb] at ha
        cases ha
    · rw [mapNew_range_other (ho.not_new hp)] at ha
      obtain rfl | hq := (hmap q).mp hq
      · rw [mapNew_range_self, ho.apart p hp a ha] at hb
        cases hb
      · rw [mapNew_range_other (ho.not_new hq)] at hb
        exact hc.apart p q hp hq hne a ha hb
  · intro p q hp hq hne
    unfold PhysApart
    obtain rfl | hp := (hmap p).mp hp
    · obtain rfl | hq := (hmap q).mp hq
      · exact absurd rfl hne
      · rw [mapNew_slab_self, mapNew_slab_other (ho.not_new hq)]
        exact ho.physApart q hq
    · rw [mapNew_slab_other (ho.not_new hp)]
      obtain rfl | hq := (hmap q).mp hq
      · rw [mapNew_slab_self]
        exact (ho.physApart p hp).symm
      · rw [mapNew_slab_other (ho.not_new hq)]
        exact hc.physApart p q hp hq hne
  · intro p hp a ha
    unfold Covers at ha
    rw [mapNew_page_table]
    obtain rfl | hp := (hmap p).mp hp
    · rw [mapNew_range_self] at ha ⊢
      exact mapping_new hl hvalid m.page_table hall ha
    · rw [mapNew_range_other (ho.not_new hp)] at ha ⊢
      have htop := (hc.valid p hp).low
      have hb := covers_bounds.mp ha
      exact mapping_kept hl hvalid m.page_table (by omega) (ho.apart p hp a ha)
        (hc.translated p hp a ha)

theorem Inv.mapNew (h : Inv m none) (ho : Offer m request new)
    (hall : ∀ i l, mmaps i l = true) :
    Inv (m.mapNew request new mmaps) (some new.ctrl_addr) := by
  have hnot : ∀ q, m.Mapped q → q ≠ new.ctrl_addr := fun q hq => ho.not_new hq
  have hslab : ∀ q, m.Mapped q → (m.mapNew request new mmaps).slab q = m.slab q :=
    fun q hq => mapNew_slab_other (hnot q hq)
  constructor
  · exact mapNew_core h.core ho hall
  · exact h.userNodup
  · exact h.largeNodup
  · exact h.cacheNodup
  · intro q hq
    rw [hslab q ((h.all q).mpr (.inl hq))]
    exact h.user q hq
  · intro q hq
    rw [hslab q ((h.all q).mpr (.inr (.inl hq)))]
    exact h.large q hq
  · intro q hq
    rw [hslab q ((h.all q).mpr (.inr (.inr (.inl hq))))]
    exact h.cache q hq
  · intro q hq
    cases hq
    exact ⟨fun hq => hnot _ ((h.all _).mpr (.inl hq)) rfl,
      fun hq => hnot _ ((h.all _).mpr (.inr (.inl hq))) rfl,
      fun hq => hnot _ ((h.all _).mpr (.inr (.inr (.inl hq)))) rfl⟩
  · intro q
    rw [mapNew_mapped, h.all q]
    change _ ↔ q ∈ m.userMem ∨ q ∈ m.userLargeMem ∨ q ∈ m.userCache ∨ _
    simp only [Option.some.injEq, reduceCtorEq, or_false, eq_comm (a := new.ctrl_addr)]
    tauto
  · exact h.cached
  · exact h.bounded

end

end Memory

end Numa
end QatDcSample
