import QatDcSample.Lib.Radix

/-!
# The user-space page table

`qae_page_table_common.h`, `qae_page_table_uio.h`: virtual to physical translation
of the memory mapped so far, with 4 KB and with 2 MB pages. Each entry also keeps,
in the low bits of the page's physical address, the hash key of the slab.
-/

namespace QatDcSample
namespace PageTable

open Radix

abbrev LEVEL_SIZE : ℕ := 512

/-- What differs between the two kinds of page: the levels below the root, the page
size and its mask. -/
structure Paging where
  depth : ℕ
  page_size : ℕ
  page_mask : BitVec 64

def page : Paging := ⟨4, 0x1000, ~~~0xFFF#64⟩

def hugepage : Paging := ⟨3, 0x200000, ~~~0x1FFFFF#64⟩

def QAE_PAGE_MASK : BitVec 64 := ~~~0xFFF#64

abbrev Table (pg : Paging) := Level (BitVec 64) pg.depth

def emptyTable (pg : Paging) : Table pg := emptyLevel 0#64 pg.depth

/-- `store_addr` and `store_addr_hpg`; `mmaps` says which levels could be mapped. -/
def storeAddrIn (pg : Paging) (level : Table pg) (virt : ℕ) (phys : BitVec 64)
    (mmaps : ℕ → Bool) : Table pg :=
  store LEVEL_SIZE 0#64 pg.depth level (virt / pg.page_size) phys mmaps

/-- The walk of `load_addr`, `load_key` and their hugepage forms. -/
def loadEntry (pg : Paging) (level : Table pg) (virt : ℕ) : Option (BitVec 64) :=
  load LEVEL_SIZE pg.depth level (virt / pg.page_size)

/-- `load_addr` and `load_addr_hpg`. -/
def loadAddrIn (pg : Paging) (level : Table pg) (virt : ℕ) : BitVec 64 :=
  match loadEntry pg level virt with
  | none => 0
  | some phy_addr => (phy_addr &&& pg.page_mask) ||| BitVec.ofNat 64 (virt % pg.page_size)

/-- `load_key` and `load_key_hpg`. -/
def loadKeyIn (pg : Paging) (level : Table pg) (virt : ℕ) : BitVec 64 :=
  match loadEntry pg level virt with
  | none => 0
  | some phy_addr => phy_addr &&& ~~~QAE_PAGE_MASK

def storeAddr := storeAddrIn page
def storeAddrHpg := storeAddrIn hugepage
def loadAddr := loadAddrIn page
def loadAddrHpg := loadAddrIn hugepage
def loadKey := loadKeyIn page
def loadKeyHpg := loadKeyIn hugepage

def getKey (phys : BitVec 64) : BitVec 64 := (phys >>> 20) &&& ~~~QAE_PAGE_MASK

/-- The loop of `store_mmap_range` from `offset` on. -/
def storePages (pg : Paging) (virt : ℕ) (phys : BitVec 64) (p_size : ℕ)
    (mmaps : ℕ → ℕ → Bool) : (fuel offset : ℕ) → Table pg → Table pg
  | 0, _, level => level
  | fuel + 1, offset, level =>
      if offset < p_size then
        storePages pg virt phys p_size mmaps fuel (offset + pg.page_size)
          (storeAddrIn pg level (virt + offset) (phys + BitVec.ofNat 64 offset) (mmaps offset))
      else level

/-- `store_mmap_range`; the pages are fewer than the bytes. -/
def storeMmapRange (pg : Paging) (level : Table pg) (p_virt : ℕ) (p_phys : BitVec 64)
    (p_size : ℕ) (mmaps : ℕ → ℕ → Bool) : Table pg :=
  storePages pg p_virt ((p_phys &&& pg.page_mask) ||| getKey p_phys) p_size mmaps p_size 0 level

/-! ### Page numbers and masks -/

/-- The virtual addresses the indices tell apart: 57 bits. -/
abbrev ADDRESS_SPACE : ℕ := 144115188075855872

/-- What the two kinds of page have in common. -/
structure Paging.Lawful (pg : Paging) : Prop where
  pos : 0 < pg.page_size
  whole : pg.page_size % 4096 = 0
  space : pg.page_size * span LEVEL_SIZE (pg.depth + 1) = ADDRESS_SPACE
  mask : ∀ x : BitVec 64, (x &&& pg.page_mask).toNat = x.toNat / pg.page_size * pg.page_size
  merge : ∀ (x : BitVec 64) (o : ℕ), o < pg.page_size →
    ((x &&& pg.page_mask) ||| BitVec.ofNat 64 o).toNat = (x &&& pg.page_mask).toNat + o

theorem and_not_low (s : ℕ) (x low : BitVec 64)
    (hlow : ∀ i, i < 64 → low.getLsbD i = decide (i < s)) : x &&& ~~~low = (x >>> s) <<< s := by
  apply BitVec.eq_of_getLsbD_eq
  intro i hi
  rw [BitVec.getLsbD_and, BitVec.getLsbD_not, BitVec.getLsbD_shiftLeft,
    BitVec.getLsbD_ushiftRight, hlow i hi]
  by_cases hs : i < s
  · simp [hs]
  · have he : s + (i - s) = i := by omega
    simp [hs, hi, he]

theorem low_bits (s : ℕ) {i : ℕ} (hi : i < 64) :
    ((BitVec.allOnes s).setWidth 64).getLsbD i = decide (i < s) := by
  simp [hi]

theorem page_lawful : page.Lawful := by
  have hmask : ∀ x : BitVec 64, (x &&& page.page_mask).toNat = x.toNat / 4096 * 4096 := by
    intro x
    have hx := x.isLt
    have hand := and_not_low 12 x 0xFFF#64 fun i hi => low_bits 12 hi
    rw [page, hand, BitVec.toNat_shiftLeft, BitVec.toNat_ushiftRight, Nat.shiftLeft_eq,
      Nat.shiftRight_eq_div_pow]
    omega
  constructor
  · decide
  · rfl
  · rfl
  · exact hmask
  · intro x o ho
    have ho' : o < 4096 := ho
    have hor := Nat.two_pow_add_eq_or_of_lt (i := 12) ho' (x.toNat / 4096)
    rw [BitVec.toNat_or, BitVec.toNat_ofNat, hmask, Nat.mod_eq_of_lt (by omega), Nat.mul_comm]
    exact hor.symm

theorem hugepage_lawful : hugepage.Lawful := by
  have hmask : ∀ x : BitVec 64, (x &&& hugepage.page_mask).toNat = x.toNat / 2097152 * 2097152 := by
    intro x
    have hx := x.isLt
    have hand := and_not_low 21 x 0x1FFFFF#64 fun i hi => low_bits 21 hi
    rw [hugepage, hand, BitVec.toNat_shiftLeft, BitVec.toNat_ushiftRight, Nat.shiftLeft_eq,
      Nat.shiftRight_eq_div_pow]
    omega
  constructor
  · decide
  · rfl
  · rfl
  · exact hmask
  · intro x o ho
    have ho' : o < 2097152 := ho
    have hor := Nat.two_pow_add_eq_or_of_lt (i := 21) ho' (x.toNat / 2097152)
    rw [BitVec.toNat_or, BitVec.toNat_ofNat, hmask, Nat.mod_eq_of_lt (by omega), Nat.mul_comm]
    exact hor.symm

/-- The low 12 bits of an entry. -/
theorem key_toNat (x : BitVec 64) : (x &&& ~~~QAE_PAGE_MASK).toNat = x.toNat % 4096 := by
  rw [QAE_PAGE_MASK, BitVec.not_not, BitVec.toNat_and]
  exact Nat.and_two_pow_sub_one_eq_mod x.toNat 12

theorem getKey_lt (phys : BitVec 64) : (getKey phys).toNat < 4096 := by
  rw [getKey, key_toNat]
  exact Nat.mod_lt _ (by decide)

section
variable {pg : Paging}

/-! ### Storing a range -/

/-- The entry of page `q`. -/
abbrev entryOf (t : Table pg) (q : ℕ) : BitVec 64 := entry LEVEL_SIZE 0#64 pg.depth t q

abbrev found (t : Table pg) (q : ℕ) : Option (BitVec 64) := load LEVEL_SIZE pg.depth t q

abbrev pages (pg : Paging) : ℕ := span LEVEL_SIZE (pg.depth + 1)

/-- The table after the pages `v, v + 1, .. v + n - 1` were given the entries `f`. A
page whose tables could not be mapped had no entry before and has none now. -/
structure Stored (t t' : Table pg) (v n : ℕ) (f : ℕ → BitVec 64) (mapped : ℕ → Prop) : Prop where
  inside : ∀ i, i < n → found t' (v + i) = some (f i) ∨
    (found t (v + i) = none ∧ entryOf t' (v + i) = 0 ∧ ¬ mapped i)
  outside : ∀ q, q < pages pg → q < v ∨ v + n ≤ q → entryOf t' q = entryOf t q
  kept : ∀ q, (found t q).isSome = true → (found t' q).isSome = true

theorem entryOf_found {t : Table pg} {q : ℕ} {x : BitVec 64} (h : found t q = some x) :
    entryOf t q = x := by
  unfold found at h
  rw [entryOf, entry, h]
  rfl

theorem entryOf_missing {t : Table pg} {q : ℕ} (h : found t q = none) : entryOf t q = 0 := by
  unfold found at h
  rw [entryOf, entry, h]
  rfl

theorem found_of_entryOf {t : Table pg} {q : ℕ} (h : (found t q).isSome = true) :
    found t q = some (entryOf t q) := by
  cases hf : found t q with
  | none =>
    rw [hf] at h
    cases h
  | some x => rw [entryOf_found hf]

/-- One page, then the rest. -/
theorem Stored.cons {t t' : Table pg} {v n : ℕ} {f : ℕ → BitVec 64} {mapped : ℕ → Prop}
    (mmaps : ℕ → Bool) (hv : v + n < pages pg) (hm : mapped 0 → ∀ k, mmaps k = true)
    (h : Stored (store LEVEL_SIZE 0#64 pg.depth t v (f 0) mmaps) t' (v + 1) n
      (fun i => f (i + 1)) (fun i => mapped (i + 1))) :
    Stored t t' v (n + 1) f mapped := by
  have hself : ∀ q, q < pages pg → q % pages pg = q := fun q hq => Nat.mod_eq_of_lt hq
  have hkept : ∀ q, (found t q).isSome = true →
      (found (store LEVEL_SIZE 0#64 pg.depth t v (f 0) mmaps) q).isSome = true :=
    fun q hq => load_store_isSome 0#64 pg.depth t v q (f 0) mmaps hq
  constructor
  · intro i hi
    cases i with
    | zero =>
      have hrest := h.outside v (by omega) (.inl (by omega))
      by_cases hg : Granted LEVEL_SIZE pg.depth t v mmaps
      · have hload := load_store_self 0#64 pg.depth t v v (f 0) mmaps hg rfl
        have hsome := h.kept v (by rw [found, hload]; rfl)
        rw [entryOf_found hload] at hrest
        left
        rw [Nat.add_zero, found_of_entryOf hsome, hrest]
      · have hnone : found t v = none := by
          cases hf : found t v with
          | none => rfl
          | some x =>
            unfold found at hf
            exact absurd (granted_of_load pg.depth t v mmaps (by rw [hf]; rfl)) hg
        have hdrop := entry_store_dropped 0#64 pg.depth t v (f 0) mmaps hg v
        refine .inr ⟨hnone, ?_, fun hmap => hg (granted_of_all pg.depth t v (hm hmap))⟩
        rw [Nat.add_zero, hrest]
        exact hdrop.trans (entryOf_missing hnone)
    | succ i =>
      have he : v + 1 + i = v + (i + 1) := by omega
      have hin := h.inside i (by omega)
      rw [he] at hin
      obtain hload | ⟨hnone, hzero, hmap⟩ := hin
      · exact .inl hload
      · refine .inr ⟨?_, hzero, hmap⟩
        cases hf : found t (v + (i + 1)) with
        | none => rfl
        | some x =>
          have hsome := hkept (v + (i + 1)) (by rw [hf]; rfl)
          rw [hnone] at hsome
          cases hsome
  · intro q hq hout
    rw [h.outside q hq (by omega)]
    apply entry_store_other
    change v % pages pg ≠ q % pages pg
    rw [hself v (by omega), hself q hq]
    omega
  · intro q hq
    exact h.kept q (hkept q hq)

/-- The number of pages of a range. -/
def pageCount (pg : Paging) (p_size : ℕ) : ℕ := (p_size + pg.page_size - 1) / pg.page_size

theorem lt_pageCount (hpos : 0 < pg.page_size) (p_size k : ℕ) :
    pg.page_size * k < p_size ↔ k < pageCount pg p_size := by
  have hle := Nat.le_div_iff_mul_le hpos (x := k + 1) (y := p_size + pg.page_size - 1)
  rw [Nat.add_mul, Nat.one_mul, Nat.mul_comm k] at hle
  unfold pageCount
  omega

/-- The pages of a range hold all its bytes. -/
theorem le_pageCount (hpos : 0 < pg.page_size) (p_size : ℕ) :
    p_size ≤ pageCount pg p_size * pg.page_size := by
  by_contra hgt
  have hlt := (lt_pageCount hpos p_size (pageCount pg p_size)).mp (by
    rw [Nat.mul_comm]
    omega)
  omega

theorem storePages_stored (hpos : 0 < pg.page_size) {v : ℕ} (phys : BitVec 64) {p_size : ℕ}
    (mmaps : ℕ → ℕ → Bool) (hin : v + pageCount pg p_size ≤ pages pg) (n : ℕ) :
    ∀ (k fuel : ℕ) (t : Table pg), k + n = pageCount pg p_size → n ≤ fuel →
      Stored t (storePages pg (pg.page_size * v) phys p_size mmaps fuel (pg.page_size * k) t)
        (v + k) n (fun i => phys + BitVec.ofNat 64 (pg.page_size * (k + i)))
        (fun i => ∀ l, mmaps (pg.page_size * (k + i)) l = true) := by
  induction n with
  | zero =>
    intro k fuel t hk _
    have hend : ¬ pg.page_size * k < p_size := by
      rw [lt_pageCount hpos]
      omega
    have hsame : storePages pg (pg.page_size * v) phys p_size mmaps fuel (pg.page_size * k) t = t := by
      cases fuel with
      | zero => rfl
      | succ fuel => rw [storePages, if_neg hend]
    rw [hsame]
    exact ⟨fun i hi => absurd hi (Nat.not_lt_zero i), fun _ _ _ => rfl, fun _ h => h⟩
  | succ n ih =>
    intro k fuel t hk hfuel
    have hlt : pg.page_size * k < p_size := (lt_pageCount hpos _ _).mpr (by omega)
    cases fuel with
    | zero => omega
    | succ fuel =>
      rw [storePages, if_pos hlt]
      have hpage : (pg.page_size * v + pg.page_size * k) / pg.page_size = v + k := by
        rw [← Nat.mul_add, Nat.mul_div_cancel_left _ hpos]
      have hnext : pg.page_size * k + pg.page_size = pg.page_size * (k + 1) := by
        rw [Nat.mul_add, Nat.mul_one]
      rw [storeAddrIn, hpage, hnext]
      apply Stored.cons (mmaps (pg.page_size * k)) (by omega)
      · intro h
        exact h
      · have hrest := ih (k + 1) fuel (store LEVEL_SIZE 0#64 pg.depth t (v + k)
          (phys + BitVec.ofNat 64 (pg.page_size * k)) (mmaps (pg.page_size * k)))
          (by omega) (by omega)
        have hidx : ∀ i, k + 1 + i = k + (i + 1) := fun i => by omega
        simp only [hidx] at hrest
        exact hrest

/-- The entry of the page at `offset` of a range keeps the address and the key. -/
theorem range_entry_parts (hl : pg.Lawful) {phys : BitVec 64} (offset : ℕ)
    (hphys : phys.toNat % pg.page_size = 0) (hoff : offset % pg.page_size = 0)
    (hroom : phys.toNat + offset + pg.page_size ≤ UInt64.size) :
    let x := ((phys &&& pg.page_mask) ||| getKey phys) + BitVec.ofNat 64 offset
    (x &&& pg.page_mask).toNat = phys.toNat + offset ∧ x &&& ~~~QAE_PAGE_MASK = getKey phys := by
  intro x
  have hpos := hl.pos
  have hkey := getKey_lt phys
  have hps : 4096 ≤ pg.page_size := Nat.le_of_dvd hpos (Nat.dvd_of_mod_eq_zero hl.whole)
  have hsize : UInt64.size = 18446744073709551616 := rfl
  have hdvd := Nat.dvd_of_mod_eq_zero hphys
  have hdoff := Nat.dvd_of_mod_eq_zero hoff
  have hbase : (phys &&& pg.page_mask).toNat = phys.toNat := by
    rw [hl.mask]
    exact Nat.div_mul_cancel hdvd
  have hor := hl.merge phys (getKey phys).toNat (by omega)
  rw [BitVec.ofNat_toNat, BitVec.setWidth_eq, hbase] at hor
  have hx : x.toNat = phys.toNat + offset + (getKey phys).toNat := by
    rw [BitVec.toNat_add, hor, BitVec.toNat_ofNat]
    have hlt : offset < 18446744073709551616 := by omega
    rw [Nat.mod_eq_of_lt hlt, Nat.mod_eq_of_lt (by omega)]
    omega
  have hsum : pg.page_size ∣ phys.toNat + offset := Nat.dvd_add hdvd hdoff
  have h4096 : 4096 ∣ phys.toNat + offset :=
    Nat.dvd_trans (Nat.dvd_of_mod_eq_zero hl.whole) hsum
  constructor
  · obtain ⟨q, hq⟩ := hsum
    rw [hl.mask, hx, hq, Nat.mul_add_div hpos, Nat.div_eq_of_lt (by omega), Nat.add_zero,
      Nat.mul_comm]
  · apply BitVec.eq_of_toNat_eq
    rw [key_toNat, hx]
    obtain ⟨q, hq⟩ := h4096
    rw [hq, Nat.mul_add_mod, Nat.mod_eq_of_lt hkey]

/-! ### Any history of mappings -/

/-- One call of `store_mmap_range`, with the tables it could map. -/
structure Mapping where
  virt : ℕ
  phys : BitVec 64
  size : ℕ
  mmaps : ℕ → ℕ → Bool

/-- Page aligned on both sides, without a wrap of either address. -/
structure Mapping.Valid (pg : Paging) (m : Mapping) : Prop where
  virt : m.virt % pg.page_size = 0
  phys : m.phys.toNat % pg.page_size = 0
  low : m.virt + pageCount pg m.size * pg.page_size ≤ ADDRESS_SPACE
  room : m.phys.toNat + pageCount pg m.size * pg.page_size ≤ UInt64.size

def Mapping.covers (pg : Paging) (a : ℕ) (m : Mapping) : Bool :=
  m.virt ≤ a && a < m.virt + pageCount pg m.size * pg.page_size

/-- The table after a history of mappings, the newest first. -/
def tableAfter (pg : Paging) : List Mapping → Table pg
  | [] => emptyTable pg
  | m :: older => storeMmapRange pg (tableAfter pg older) m.virt m.phys m.size m.mmaps

/-- `a` is translated to the physical address `p`, with the key `key`. -/
def Translates (t : Table pg) (a p : ℕ) (key : BitVec 64) : Prop :=
  (loadAddrIn pg t a).toNat = p ∧ loadKeyIn pg t a = key

/-- The answers for an address that has no translation: the key 0, and as the address
0 where there is no leaf table, else the offset in the page. -/
def Untranslated (t : Table pg) (a : ℕ) : Prop :=
  loadKeyIn pg t a = 0 ∧
    (loadAddrIn pg t a).toNat = if (loadEntry pg t a).isSome then a % pg.page_size else 0

theorem untranslated_of_entry (hl : pg.Lawful) {t : Table pg} {a : ℕ}
    (h : entryOf t (a / pg.page_size) = 0) : Untranslated t a := by
  have hlt := Nat.mod_lt a hl.pos
  unfold Untranslated loadKeyIn loadAddrIn loadEntry
  unfold entryOf entry at h
  cases hf : load LEVEL_SIZE pg.depth t (a / pg.page_size) with
  | none => exact ⟨rfl, rfl⟩
  | some x =>
    rw [hf] at h
    have hx : x = 0#64 := h
    subst hx
    constructor
    · exact BitVec.zero_and
    · have hor := hl.merge 0#64 (a % pg.page_size) hlt
      have hz := hl.mask 0#64
      rw [BitVec.toNat_ofNat, Nat.zero_mod, Nat.zero_div, Nat.zero_mul] at hz
      rw [hz] at hor
      rw [Option.isSome_some, if_pos rfl]
      dsimp only
      rw [hor]
      omega

theorem translates_of_found (hl : pg.Lawful) {t : Table pg} {a : ℕ} {x : BitVec 64}
    (h : found t (a / pg.page_size) = some x) :
    Translates t a ((x &&& pg.page_mask).toNat + a % pg.page_size) (x &&& ~~~QAE_PAGE_MASK) := by
  unfold found at h
  unfold Translates loadKeyIn loadAddrIn loadEntry
  rw [h]
  exact ⟨hl.merge x _ (Nat.mod_lt a hl.pos), rfl⟩

theorem mapping_stored (hl : pg.Lawful) {m : Mapping} (hm : m.Valid pg) (t : Table pg) :
    Stored t (storeMmapRange pg t m.virt m.phys m.size m.mmaps) (m.virt / pg.page_size)
      (pageCount pg m.size) (fun i => ((m.phys &&& pg.page_mask) ||| getKey m.phys) +
        BitVec.ofNat 64 (pg.page_size * i)) (fun i => ∀ l, m.mmaps (pg.page_size * i) l = true) := by
  have hpos := hl.pos
  have hvirt : pg.page_size * (m.virt / pg.page_size) = m.virt :=
    Nat.mul_div_cancel' (Nat.dvd_of_mod_eq_zero hm.virt)
  have hin : m.virt / pg.page_size + pageCount pg m.size ≤ pages pg := by
    have hlow := hm.low
    rw [← hl.space, ← hvirt, Nat.mul_comm (pageCount pg m.size), ← Nat.mul_add] at hlow
    exact Nat.le_of_mul_le_mul_left hlow hpos
  have hle : pageCount pg m.size ≤ m.size := by
    by_contra hgt
    have hlt : pg.page_size * m.size < m.size := (lt_pageCount hpos _ _).mpr (by omega)
    have hge : m.size ≤ pg.page_size * m.size := Nat.le_mul_of_pos_left _ hpos
    omega
  have hs := storePages_stored hpos ((m.phys &&& pg.page_mask) ||| getKey m.phys) m.mmaps
    hin (pageCount pg m.size) 0 m.size t (by omega) hle
  simp only [Nat.zero_add, Nat.add_zero, Nat.mul_zero, hvirt] at hs
  exact hs

theorem covers_bounds {m : Mapping} {a : ℕ} : m.covers pg a = true ↔
    m.virt ≤ a ∧ a < m.virt + pageCount pg m.size * pg.page_size := by
  simp only [Mapping.covers, Bool.and_eq_true, decide_eq_true_eq]

/-- A mapping covers whole pages. -/
theorem covers_iff (hpos : 0 < pg.page_size) {m : Mapping} (hm : m.Valid pg) (a : ℕ) :
    m.covers pg a = true ↔ m.virt / pg.page_size ≤ a / pg.page_size ∧
      a / pg.page_size < m.virt / pg.page_size + pageCount pg m.size := by
  have hvirt : m.virt / pg.page_size * pg.page_size = m.virt :=
    Nat.div_mul_cancel (Nat.dvd_of_mod_eq_zero hm.virt)
  have hlo := Nat.le_div_iff_mul_le hpos (x := m.virt / pg.page_size) (y := a)
  have hhi := Nat.div_lt_iff_lt_mul hpos (x := a)
    (y := m.virt / pg.page_size + pageCount pg m.size)
  rw [hvirt] at hlo
  rw [Nat.add_mul, hvirt] at hhi
  rw [covers_bounds, hlo, hhi]

/-- The entry that a mapping gives the page of `a`. -/
def mappedEntry (pg : Paging) (m : Mapping) (a : ℕ) : BitVec 64 :=
  ((m.phys &&& pg.page_mask) ||| getKey m.phys) +
    BitVec.ofNat 64 (pg.page_size * (a / pg.page_size - m.virt / pg.page_size))

theorem mappedEntry_parts (hl : pg.Lawful) {m : Mapping} (hm : m.Valid pg) {a : ℕ}
    (hc : m.covers pg a = true) :
    (mappedEntry pg m a &&& pg.page_mask).toNat + a % pg.page_size =
        m.phys.toNat + (a - m.virt) ∧
      mappedEntry pg m a &&& ~~~QAE_PAGE_MASK = getKey m.phys := by
  have hpos := hl.pos
  obtain ⟨hlo, hhi⟩ := (covers_iff hpos hm a).mp hc
  generalize hi : a / pg.page_size - m.virt / pg.page_size = i at *
  have hroom := hm.room
  have hstep : pg.page_size * i + pg.page_size ≤ pageCount pg m.size * pg.page_size := by
    have hle : i + 1 ≤ pageCount pg m.size := by omega
    have hmul := Nat.mul_le_mul_right pg.page_size hle
    rw [Nat.add_mul, Nat.one_mul, Nat.mul_comm i] at hmul
    exact hmul
  obtain ⟨hmask, hkey⟩ := range_entry_parts hl (pg.page_size * i) hm.phys
    (Nat.mul_mod_right _ i) (by omega)
  unfold mappedEntry
  rw [hi]
  refine ⟨?_, hkey⟩
  rw [hmask]
  have hvirt : pg.page_size * (m.virt / pg.page_size) = m.virt :=
    Nat.mul_div_cancel' (Nat.dvd_of_mod_eq_zero hm.virt)
  have ha := Nat.div_add_mod a pg.page_size
  have hsplit : a / pg.page_size = m.virt / pg.page_size + i := by omega
  rw [hsplit, Nat.mul_add, hvirt] at ha
  omega

/-- A mapping whose tables could all be mapped is in the table. -/
theorem mapping_new (hl : pg.Lawful) {m : Mapping} (hm : m.Valid pg) (t : Table pg)
    (hall : ∀ i l, m.mmaps i l = true) {a : ℕ} (hc : m.covers pg a = true) :
    found (storeMmapRange pg t m.virt m.phys m.size m.mmaps) (a / pg.page_size) =
      some (mappedEntry pg m a) := by
  obtain ⟨hlo, hhi⟩ := (covers_iff hl.pos hm a).mp hc
  have hin := (mapping_stored hl hm t).inside (a / pg.page_size - m.virt / pg.page_size) (by omega)
  have he : m.virt / pg.page_size + (a / pg.page_size - m.virt / pg.page_size) =
      a / pg.page_size := by omega
  rw [he] at hin
  obtain hload | ⟨_, _, hno⟩ := hin
  · exact hload
  · exact absurd (hall _) hno

/-- A mapping leaves the entries of the addresses it does not cover. -/
theorem mapping_other (hl : pg.Lawful) {m : Mapping} (hm : m.Valid pg) (t : Table pg) {a : ℕ}
    (ha : a < ADDRESS_SPACE) (hc : m.covers pg a = false) :
    entryOf (storeMmapRange pg t m.virt m.phys m.size m.mmaps) (a / pg.page_size) =
      entryOf t (a / pg.page_size) := by
  have hcov := covers_iff hl.pos hm a
  apply (mapping_stored hl hm t).outside
  · apply Nat.div_lt_of_lt_mul
    rw [hl.space]
    exact ha
  · by_contra hno
    rw [hcov.mpr (by omega)] at hc
    cases hc

theorem mapping_kept (hl : pg.Lawful) {m : Mapping} (hm : m.Valid pg) (t : Table pg) {a : ℕ}
    {x : BitVec 64} (ha : a < ADDRESS_SPACE) (hc : m.covers pg a = false)
    (hf : found t (a / pg.page_size) = some x) :
    found (storeMmapRange pg t m.virt m.phys m.size m.mmaps) (a / pg.page_size) = some x := by
  have hkept := (mapping_stored hl hm t).kept (a / pg.page_size) (by rw [hf]; rfl)
  rw [found_of_entryOf hkept, mapping_other hl hm t ha hc, entryOf_found hf]

/-- The entry of an address is that of the newest mapping that covers it. -/
theorem history_entry (hl : pg.Lawful) {a : ℕ} (ha : a < ADDRESS_SPACE) (history : List Mapping)
    (hvalid : ∀ m ∈ history, m.Valid pg) :
    match history.find? (Mapping.covers pg a) with
    | none => entryOf (tableAfter pg history) (a / pg.page_size) = 0
    | some m =>
        found (tableAfter pg history) (a / pg.page_size) = some (mappedEntry pg m a) ∨
          (entryOf (tableAfter pg history) (a / pg.page_size) = 0 ∧
            ∃ i l, m.mmaps i l = false) := by
  induction history with
  | nil => exact entry_empty 0#64 pg.depth _
  | cons m older ih =>
    have hm := hvalid m (List.mem_cons_self ..)
    have hold := ih fun x hx => hvalid x (List.mem_cons_of_mem _ hx)
    have hs := mapping_stored hl hm (tableAfter pg older)
    have hcov := covers_iff hl.pos hm a
    rw [List.find?_cons]
    cases hc : m.covers pg a with
    | true =>
      obtain ⟨hlo, hhi⟩ := hcov.mp hc
      have hin := hs.inside (a / pg.page_size - m.virt / pg.page_size) (by omega)
      have he : m.virt / pg.page_size + (a / pg.page_size - m.virt / pg.page_size) =
          a / pg.page_size := by omega
      rw [he] at hin
      obtain hload | ⟨_, hzero, hno⟩ := hin
      · exact .inl hload
      · refine .inr ⟨hzero, ?_⟩
        by_contra hall
        apply hno
        intro l
        by_contra hl
        exact hall ⟨_, l, Bool.eq_false_iff.mpr hl⟩
    | false =>
      have hout : entryOf (tableAfter pg (m :: older)) (a / pg.page_size) =
          entryOf (tableAfter pg older) (a / pg.page_size) :=
        mapping_other hl hm (tableAfter pg older) ha hc
      dsimp only
      cases hf : older.find? (Mapping.covers pg a) with
      | none =>
        rw [hf] at hold
        exact hout.trans hold
      | some x =>
        rw [hf] at hold
        obtain hload | ⟨hzero, hno⟩ := hold
        · exact .inl (mapping_kept hl hm (tableAfter pg older) ha hc hload)
        · exact .inr ⟨hout.trans hzero, hno⟩

/-- After any history of mappings an address translates by the newest one that covers
it: to its physical address, with its key. Where a table of that mapping could not be
mapped the address has no translation, also not that of an older mapping. -/
theorem history_translates (hpg : pg = page ∨ pg = hugepage) (history : List Mapping)
    (hvalid : ∀ m ∈ history, m.Valid pg) {a : ℕ} (ha : a < ADDRESS_SPACE) :
    match history.find? (Mapping.covers pg a) with
    | none => Untranslated (tableAfter pg history) a
    | some m =>
        Translates (tableAfter pg history) a (m.phys.toNat + (a - m.virt)) (getKey m.phys) ∨
          (Untranslated (tableAfter pg history) a ∧ ∃ i l, m.mmaps i l = false) := by
  have hl : pg.Lawful := by
    obtain rfl | rfl := hpg
    · exact page_lawful
    · exact hugepage_lawful
  have h := history_entry hl ha history hvalid
  cases hf : history.find? (Mapping.covers pg a) with
  | none =>
    rw [hf] at h
    exact untranslated_of_entry hl h
  | some m =>
    rw [hf] at h
    obtain hload | ⟨hzero, hno⟩ := h
    · obtain ⟨haddr, hkey⟩ := mappedEntry_parts hl (hvalid m (List.mem_of_find?_eq_some hf))
        (List.find?_some hf)
      have ht := translates_of_found hl hload
      rw [haddr, hkey] at ht
      exact .inl ht
    · exact .inr ⟨untranslated_of_entry hl hzero, hno⟩

end

/-- Two slabs mapped one after the other over the same addresses. -/
def remapped : List Mapping :=
  [⟨0x200000, 0x40000000#64, 0x200000, fun _ _ => true⟩,
    ⟨0x200000, 0x30100000#64, 0x200000, fun _ _ => true⟩]

theorem remapped_translates :
    Translates (tableAfter page remapped) 0x201234 0x40001234 (getKey 0x40000000#64) := by
  have h := history_translates (show page = page ∨ page = hugepage from .inl rfl) remapped (by
    intro m hm
    simp only [remapped, List.mem_cons, List.not_mem_nil, or_false] at hm
    obtain rfl | rfl := hm <;> constructor <;> decide) (a := 0x201234) (by decide)
  obtain ht | ⟨_, i, l, hno⟩ := h
  · exact ht
  · cases hno

end PageTable
end QatDcSample
