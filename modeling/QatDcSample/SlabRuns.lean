import QatDcSample.Slab
import QatDcSample.Lib.Transition

/-!
# The state of a slab over its life

`init_slab_and_alloc` (`qae_mem_lib_utils.h`) and what every allocation and release
keeps of a slab's control block: the blocks handed out lie apart, above the control
block itself, and the bitmap is exactly their union with it.
-/

namespace QatDcSample
namespace Slab

open Bitmap FirstFit

abbrev CHUNK_SIZE : ℕ := UNIT_SIZE * QWORD_WIDTH

/-- `dev_mem_info_t`, the bitmap with its barrier, the sizes. -/
abbrev SIZEOF_BLOCK_CTRL : ℕ := 80 + (BITMAP_LEN + 1) * 8 + BLOCK_SIZES * 2

abbrev RESERVED : ℕ := divRoundUp SIZEOF_BLOCK_CTRL UNIT_SIZE

/-- Memory fresh from the kernel: `kzalloc_node`. -/
def blankCtrl : BlockCtrl := ⟨List.replicate (BITMAP_LEN + 1) 0#64, List.replicate BLOCK_SIZES 0⟩

/-- `init_slab_and_alloc` before it allocates, on a slab of `slab_size` bytes. -/
def initSlab (slab_size : ℕ) (slab : BlockCtrl) : Option BlockCtrl :=
  match setBitmap slab.bitmap 0 RESERVED with
  | none => none
  | some bitmap =>
      match update bitmap (slab_size / CHUNK_SIZE) (fun _ => QWORD_ALL_ONE) with
      | none => none
      | some bitmap => some { slab with bitmap }

/-- The number of blocks of the allocation that starts at block `s`; 0 if none does. -/
def extent (c : BlockCtrl) (s : ℕ) : ℕ := (c.sizes.getD s 0).toNat

/-- The number of allocations alive. -/
def liveCount (c : BlockCtrl) : ℕ := c.sizes.countP (· ≠ 0)

structure WellFormed (c : BlockCtrl) : Prop where
  barrier : Barrier c.bitmap
  sizes : c.sizes.length = BLOCK_SIZES
  inside : ∀ s, extent c s ≠ 0 → RESERVED ≤ s ∧ s + extent c s ≤ BITMAP_LEN * QWORD_WIDTH
  apart : ∀ s t, s < t → extent c s ≠ 0 → extent c t ≠ 0 → s + extent c s ≤ t
  taken : ∀ i, i < BITMAP_LEN * QWORD_WIDTH →
    (bit c.bitmap i = true ↔ i < RESERVED ∨ ∃ s, s ≤ i ∧ i < s + extent c s)

theorem extent_set {c : BlockCtrl} {s : ℕ} (hs : s < c.sizes.length) (map : Words 64) (v : UInt16)
    (t : ℕ) : extent ⟨map, c.sizes.set s v⟩ t = if t = s then v.toNat else extent c t := by
  unfold extent
  rw [List.getD_eq_getElem?_getD, List.getD_eq_getElem?_getD, List.getElem?_set]
  by_cases h : t = s
  · simp [h, hs]
  · have h' : ¬ s = t := fun he => h he.symm
    simp [h, h']

/-- A block is taken by at most one allocation. -/
theorem WellFormed.unique {c : BlockCtrl} (h : WellFormed c) {s t i : ℕ} (hs : s ≤ i)
    (hs' : i < s + extent c s) (ht : t ≤ i) (ht' : i < t + extent c t) : s = t := by
  rcases Nat.lt_trichotomy s t with hlt | heq | hgt
  · have := h.apart s t hlt (by omega) (by omega)
    omega
  · exact heq
  · have := h.apart t s hgt (by omega) (by omega)
    omega

theorem liveCount_eq_zero {c : BlockCtrl} (h : liveCount c = 0) (s : ℕ) : extent c s = 0 := by
  unfold extent
  rw [List.getD_eq_getElem?_getD]
  cases he : c.sizes[s]? with
  | none => rfl
  | some v =>
    have hv : v = 0 := by simpa using List.countP_eq_zero.mp h v (List.mem_of_getElem? he)
    rw [hv]
    rfl

/-! ### A slab as it is taken into use -/

/-- A control block with no allocation whose bitmap marks nothing but perhaps the
control block itself. -/
structure Unused (c : BlockCtrl) : Prop where
  length : c.bitmap.length = BITMAP_LEN + 1
  sizes : c.sizes = List.replicate BLOCK_SIZES 0
  clear : ∀ i, RESERVED ≤ i → i < BITMAP_LEN * QWORD_WIDTH → bit c.bitmap i = false

theorem blankCtrl_unused : Unused blankCtrl := by
  constructor
  · rfl
  · rfl
  · intro i _ _
    have hz : ∀ q, blankCtrl.bitmap.getD q 0#64 = 0#64 := by
      intro q
      rw [List.getD_eq_getElem?_getD, blankCtrl, List.getElem?_replicate]
      split <;> rfl
    rw [bit, hz]
    exact BitVec.getLsbD_zero

/-- A slab that all was freed of is as one never used. -/
theorem WellFormed.unused {c : BlockCtrl} (h : WellFormed c) (hz : liveCount c = 0) :
    Unused c := by
  constructor
  · exact h.barrier.length
  · rw [List.eq_replicate_iff]
    refine ⟨h.sizes, fun v hv => ?_⟩
    have hv' := List.countP_eq_zero.mp hz v hv
    simpa using hv'
  · intro i hr hi
    by_contra hne
    have ht : bit c.bitmap i = true := by simpa using hne
    obtain hlt | ⟨s, hs, hs'⟩ := (h.taken i hi).mp ht
    · omega
    · rw [liveCount_eq_zero hz s] at hs'
      omega

theorem initSlab_spec {c : BlockCtrl} (h : Unused c) (slab_size : ℕ)
    (hsize : slab_size = BITMAP_LEN * CHUNK_SIZE) :
    ∃ c', initSlab slab_size c = some c' ∧ WellFormed c' ∧ liveCount c' = 0 := by
  have hl : c.bitmap.length = 33 := h.length
  obtain ⟨map₁, hset, hp₁⟩ := paintBitmap_painted set_paints c.bitmap 0 RESERVED
    (by omega) (by
      have hr : RESERVED = 5 := rfl
      omega)
  have hset' : setBitmap c.bitmap 0 RESERVED = some map₁ := hset
  have hl₁ := hp₁.length
  obtain ⟨map₂, hu, hp₂⟩ := update_painted map₁ (l := 0) (n := 64) (v := true)
    (q := BITMAP_LEN) (f := fun _ => QWORD_ALL_ONE) (by omega)
    (by
      have hb : BITMAP_LEN = 32 := rfl
      omega) (by omega) (by
      intro x j hj
      rw [if_pos (by omega), BitVec.getLsbD_allOnes]
      simp [hj])
  have hlast : slab_size / CHUNK_SIZE = BITMAP_LEN := by
    rw [hsize]
    rfl
  have hext : ∀ s, extent ⟨map₂, c.sizes⟩ s = 0 := by
    intro s
    unfold extent
    rw [h.sizes, List.getD_eq_getElem?_getD, List.getElem?_replicate]
    split <;> rfl
  refine ⟨⟨map₂, c.sizes⟩, by simp only [initSlab, hset', hlast, hu], ?_, ?_⟩
  · constructor
    · constructor
      · rw [hp₂.length, hp₁.length]
        exact h.length
      · apply BitVec.eq_of_getLsbD_eq
        intro j hj
        have hin := hp₂.inside (i := BITMAP_LEN * 64 + j) (by omega) (by omega)
        rw [bit_at hj] at hin
        rw [hin, BitVec.getLsbD_allOnes]
        simp [hj]
    · rw [h.sizes]
      exact List.length_replicate
    · intro s hs
      exact absurd (hext s) hs
    · intro s t _ hs _
      exact absurd (hext s) hs
    · intro i hi
      have hq : BITMAP_LEN * QWORD_WIDTH = BITMAP_LEN * 64 + 0 := rfl
      rw [hp₂.outside (.inl (by omega)), hp₁.2]
      by_cases hr : i < RESERVED
      · simp [hr]
      · rw [if_neg (by omega), h.clear i (by omega) hi]
        simp only [Bool.false_eq_true, false_iff, not_or, not_exists, not_and]
        refine ⟨hr, fun s hs => ?_⟩
        rw [hext s]
        omega
  · unfold liveCount
    rw [h.sizes, List.countP_replicate]
    simp

/-! ### Allocation -/

theorem divRoundUp_eq {size : ℕ} (h : size + UNIT_SIZE ≤ UInt64.size) :
    divRoundUp size UNIT_SIZE = (size + 1023) / 1024 := by
  have hlt : size + UNIT_SIZE - 1 < UInt64.size := by
    have hu : UNIT_SIZE = 1024 := rfl
    omega
  rw [divRoundUp, Nat.mod_eq_of_lt hlt]
  rfl

section
variable {c c' : BlockCtrl} {need align s : ℕ}

/-- The control block after the blocks `[s, s + need)` were handed out. -/
structure Taken (c c' : BlockCtrl) (s need : ℕ) : Prop where
  painted : Painted c.bitmap c'.bitmap s (s + need) true
  sizes : c'.sizes = c.sizes.set s (UInt16.ofNat need)

theorem WellFormed.fit_above (h : WellFormed c) (hneed : 0 < need)
    (hfit : Fits c.bitmap need align s) : RESERVED ≤ s := by
  by_contra hr
  have hfree := hfit.free s (by omega) (by omega)
  have htaken := (h.taken s (by have := hfit.inside; omega)).mpr (.inl (by omega))
  rw [Free, htaken] at hfree
  exact absurd hfree (by decide)

/-- A fit meets no allocation alive. -/
theorem WellFormed.fit_apart (h : WellFormed c) (hneed : 0 < need)
    (hfit : Fits c.bitmap need align s) {t : ℕ} (ht : extent c t ≠ 0) :
    t + extent c t ≤ s ∨ s + need ≤ t := by
  by_contra hmeet
  have hin := hfit.inside
  have htop := (h.inside t ht).2
  -- the first block that both contain
  have hfree := hfit.free (max s t) (by omega) (by omega)
  have htaken := (h.taken (max s t) (by omega)).mpr (.inr ⟨t, by omega, by omega⟩)
  rw [Free, htaken] at hfree
  exact absurd hfree (by decide)

theorem WellFormed.fit_extent (h : WellFormed c) (hneed : 0 < need)
    (hfit : Fits c.bitmap need align s) : extent c s = 0 := by
  by_contra hs
  have := h.fit_apart hneed hfit hs
  omega

theorem Taken.extent (ht : Taken c c' s need) (hs : s < c.sizes.length) (hneed : need < 65536)
    (t : ℕ) : extent c' t = if t = s then need else extent c t := by
  have he := extent_set hs c'.bitmap (UInt16.ofNat need) t
  have hv : (UInt16.ofNat need).toNat = need := by
    rw [UInt16.toNat_ofNat']
    exact Nat.mod_eq_of_lt hneed
  rw [hv, ← ht.sizes] at he
  exact he

theorem Taken.wellFormed (ht : Taken c c' s need) (h : WellFormed c) (hneed : 0 < need)
    (hfit : Fits c.bitmap need align s) : WellFormed c' := by
  have hin := hfit.inside
  have hblocks : BITMAP_LEN * QWORD_WIDTH = 2048 := rfl
  have hs : s < c.sizes.length := by
    have hl : c.sizes.length = 2048 := h.sizes
    omega
  have he := ht.extent hs (by omega)
  constructor
  · constructor
    · rw [ht.painted.length]
      exact h.barrier.length
    · apply BitVec.eq_of_getLsbD_eq
      intro j hj
      have hlen : BITMAP_LEN = 32 := rfl
      have hout := ht.painted.outside (i := BITMAP_LEN * 64 + j) (.inr (by omega))
      rw [bit_at hj, bit_at hj, h.barrier.last] at hout
      exact hout
  · rw [ht.sizes, List.length_set]
    exact h.sizes
  · intro t hne
    rw [he t] at hne ⊢
    by_cases hts : t = s
    · subst hts
      rw [if_pos rfl]
      exact ⟨h.fit_above hneed hfit, hin⟩
    · rw [if_neg hts] at hne ⊢
      exact h.inside t hne
  · intro t u htu hte hue
    rw [he t] at hte ⊢
    rw [he u] at hue
    by_cases hts : t = s
    · have hus : u ≠ s := by omega
      rw [if_neg hus] at hue
      have := h.fit_apart hneed hfit hue
      rw [if_pos hts]
      omega
    · rw [if_neg hts] at hte ⊢
      by_cases hus : u = s
      · have := h.fit_apart hneed hfit hte
        omega
      · rw [if_neg hus] at hue
        exact h.apart t u htu hte hue
  · intro i hi
    rw [ht.painted.2]
    by_cases hpaint : s ≤ i ∧ i < s + need
    · rw [if_pos hpaint]
      simp only [true_iff]
      refine .inr ⟨s, hpaint.1, ?_⟩
      rw [he s, if_pos rfl]
      exact hpaint.2
    · rw [if_neg hpaint, h.taken i hi]
      apply or_congr_right
      constructor
      · intro ⟨t, ht₁, ht₂⟩
        have hts : t ≠ s := by
          intro hts
          subst hts
          rw [h.fit_extent hneed hfit] at ht₂
          omega
        refine ⟨t, ht₁, ?_⟩
        rw [he t, if_neg hts]
        exact ht₂
      · intro ⟨t, ht₁, ht₂⟩
        rw [he t] at ht₂
        by_cases hts : t = s
        · rw [if_pos hts] at ht₂
          omega
        · rw [if_neg hts] at ht₂
          exact ⟨t, ht₁, ht₂⟩

theorem liveCount_set (map : Words 64) (v : UInt16) (hs : s < c.sizes.length) :
    liveCount ⟨map, c.sizes.set s v⟩ + (if extent c s = 0 then 0 else 1) =
      liveCount c + (if v = 0 then 0 else 1) := by
  have hmem : c.sizes[s] ∈ c.sizes := List.getElem_mem hs
  have hext : extent c s = 0 ↔ c.sizes[s] = 0 := by
    unfold extent
    rw [List.getD_eq_getElem?_getD, List.getElem?_eq_getElem hs, Option.getD_some,
      ← UInt16.toNat_inj]
    rfl
  have hpos : c.sizes[s] ≠ 0 → 0 < liveCount c := by
    intro hne
    exact List.countP_pos_iff.mpr ⟨c.sizes[s], hmem, by simpa using hne⟩
  unfold liveCount at hpos ⊢
  rw [List.countP_set hs]
  generalize List.countP (fun v => decide (v ≠ 0)) c.sizes = n at hpos ⊢
  by_cases h : c.sizes[s] = 0
  · by_cases hv : v = 0 <;> simp [hext, h, hv]
  · have := hpos h
    by_cases hv : v = 0 <;> simp [hext, h, hv] <;> omega

theorem Taken.liveCount (ht : Taken c c' s need) (h : WellFormed c) (hneed : 0 < need)
    (hfit : Fits c.bitmap need align s) : liveCount c' = liveCount c + 1 := by
  have hin := hfit.inside
  have hblocks : BITMAP_LEN * QWORD_WIDTH = 2048 := rfl
  have hl : c.sizes.length = 2048 := h.sizes
  have hs : s < c.sizes.length := by omega
  have hset := liveCount_set c'.bitmap (UInt16.ofNat need) hs
  have hv : UInt16.ofNat need ≠ 0 := by
    intro hv
    have hn : need = 0 := by
      have ht := congrArg UInt16.toNat hv
      rw [UInt16.toNat_ofNat', Nat.mod_eq_of_lt (by omega)] at ht
      exact ht
    omega
  rw [← ht.sizes, if_pos (h.fit_extent hneed hfit), if_neg hv] at hset
  exact hset

/-! ### Release -/

/-- The control block after the allocation at `s` was given back. -/
structure Given (c c' : BlockCtrl) (s : ℕ) : Prop where
  painted : Painted c.bitmap c'.bitmap s (s + extent c s) false
  sizes : c'.sizes = c.sizes.set s 0

theorem Given.extent (hg : Given c c' s) (hs : s < c.sizes.length) (t : ℕ) :
    extent c' t = if t = s then 0 else extent c t := by
  have he := extent_set hs c'.bitmap 0 t
  rw [← hg.sizes] at he
  exact he

theorem extent_lt (hne : extent c s ≠ 0) : s < c.sizes.length := by
  by_contra hge
  apply hne
  unfold Slab.extent
  rw [List.getD_eq_getElem?_getD, List.getElem?_eq_none (by omega)]
  rfl

theorem Given.liveCount (hg : Given c c' s) (hne : Slab.extent c s ≠ 0) :
    Slab.liveCount c' + 1 = Slab.liveCount c := by
  have hset := liveCount_set c'.bitmap 0 (extent_lt hne)
  rw [← hg.sizes, if_neg hne] at hset
  exact hset

theorem Given.wellFormed (hg : Given c c' s) (h : WellFormed c) (hne : Slab.extent c s ≠ 0) :
    WellFormed c' := by
  have hs := extent_lt hne
  have he := hg.extent hs
  have hin := h.inside s hne
  constructor
  · constructor
    · rw [hg.painted.length]
      exact h.barrier.length
    · apply BitVec.eq_of_getLsbD_eq
      intro j hj
      have hlen : BITMAP_LEN = 32 := rfl
      have hblocks : BITMAP_LEN * QWORD_WIDTH = 2048 := rfl
      have hout := hg.painted.outside (i := BITMAP_LEN * 64 + j) (.inr (by omega))
      rw [bit_at hj, bit_at hj, h.barrier.last] at hout
      exact hout
  · rw [hg.sizes, List.length_set]
    exact h.sizes
  · intro t ht
    rw [he t] at ht ⊢
    by_cases hts : t = s
    · rw [if_pos hts] at ht
      exact absurd rfl ht
    · rw [if_neg hts] at ht ⊢
      exact h.inside t ht
  · intro t u htu hte hue
    rw [he t] at hte ⊢
    rw [he u] at hue
    by_cases hts : t = s
    · rw [if_pos hts] at hte
      exact absurd rfl hte
    · by_cases hus : u = s
      · rw [if_pos hus] at hue
        exact absurd rfl hue
      · rw [if_neg hts] at hte ⊢
        rw [if_neg hus] at hue
        exact h.apart t u htu hte hue
  · intro i hi
    rw [hg.painted.2]
    by_cases hpaint : s ≤ i ∧ i < s + Slab.extent c s
    · -- only the allocation at `s` took these blocks
      rw [if_pos hpaint]
      simp only [Bool.false_eq_true, false_iff, not_or, not_exists, not_and]
      refine ⟨by omega, fun t ht => ?_⟩
      rw [he t]
      by_cases hts : t = s
      · rw [if_pos hts]
        omega
      · rw [if_neg hts]
        intro ht'
        exact hts (h.unique ht ht' hpaint.1 hpaint.2)
    · rw [if_neg hpaint, h.taken i hi]
      apply or_congr_right
      constructor
      · intro ⟨t, ht₁, ht₂⟩
        have hts : t ≠ s := by
          intro hts
          subst hts
          exact hpaint ⟨ht₁, ht₂⟩
        refine ⟨t, ht₁, ?_⟩
        rw [he t, if_neg hts]
        exact ht₂
      · intro ⟨t, ht₁, ht₂⟩
        rw [he t] at ht₂
        by_cases hts : t = s
        · rw [if_pos hts] at ht₂
          omega
        · rw [if_neg hts] at ht₂
          exact ⟨t, ht₁, ht₂⟩

end

/-! ### What the two functions do to a slab in use -/

abbrev SLAB_SIZE : ℕ := BITMAP_LEN * QWORD_WIDTH * UNIT_SIZE

/-- The number of blocks a request of `size` bytes takes. -/
def blocksFor (size : ℕ) : ℕ := (size + 1023) / 1024

/-- Where the control block of a slab may lie. -/
structure Placed (base : ℕ) : Prop where
  nonzero : base ≠ 0
  aligned : base % UNIT_SIZE = 0
  inside : base + SLAB_SIZE ≤ UInt64.size

theorem qaeMemAlloc_spec {base size : ℕ} (align : ℕ) {c : BlockCtrl} (h : WellFormed c)
    (hbase : base ≠ 0) (hsize : size ≠ 0) (hmax : size + UNIT_SIZE ≤ UInt64.size) :
    ∃ answer c', qaeMemAlloc base c size align = some (answer, c') ∧
      ((answer = none ∧ c' = c ∧ ∀ t, ¬ Fits c.bitmap (blocksFor size) align t) ∨
        ∃ s, answer = some (base + s * UNIT_SIZE) ∧ Taken c c' s (blocksFor size) ∧
          First (Free c.bitmap) (BITMAP_LEN * QWORD_WIDTH) (blocksFor size) align s) := by
  have hneed : 0 < blocksFor size := by
    unfold blocksFor
    omega
  have hscan : Scan c.bitmap (blocksFor size) align 0 0 0 := by
    constructor
    · rfl
    · decide
    · intro _
      exact Nat.zero_mod align
    · intro i _ hi
      omega
    · intro t _
      omega
  obtain ⟨answer, c', hloop, hout⟩ := allocLoop_spec h.barrier h.sizes hneed BLOCK_SIZES 0 0 0
    hscan (by decide)
  have hzero : ¬ (base = 0 ∨ size = 0) := by omega
  have hdiv : divRoundUp size UNIT_SIZE = blocksFor size := divRoundUp_eq hmax
  refine ⟨answer.map (fun i => base + i * UNIT_SIZE), c', ?_, ?_⟩
  · simp only [qaeMemAlloc, if_neg hzero, hdiv, hloop]
  · cases answer with
    | none => exact .inl ⟨rfl, hout⟩
    | some s => exact .inr ⟨s, rfl, ⟨hout.2.1, hout.2.2⟩, hout.1⟩

theorem qaeMemFree_spec {base block : ℕ} {c : BlockCtrl} (h : WellFormed c) (hp : Placed base)
    (hlo : base ≤ block) (hhi : block < base + SLAB_SIZE) (secure_free : Bool) :
    ∃ r, qaeMemFree base c block secure_free = some r ∧
      (((∀ s, block = base + s * UNIT_SIZE → extent c s = 0) ∧ r = ⟨false, none, c⟩) ∨
        ∃ s, block = base + s * UNIT_SIZE ∧ extent c s ≠ 0 ∧ r.released = true ∧
          r.zeroed = (if secure_free then some (block, extent c s * UNIT_SIZE) else none) ∧
          Given c r.block_ctrl s) := by
  have hnz := hp.nonzero
  have hal : base % 1024 = 0 := hp.aligned
  have htop : base + 2097152 ≤ UInt64.size := hp.inside
  have hhi' : block < base + 2097152 := hhi
  have hzero : ¬ (base = 0 ∨ block = 0) := by omega
  unfold qaeMemFree
  rw [if_neg hzero]
  by_cases hunit : block % UNIT_SIZE ≠ 0
  · rw [if_pos hunit]
    refine ⟨_, rfl, .inl ⟨fun s hs => ?_, rfl⟩⟩
    have hu : block % 1024 ≠ 0 := hunit
    simp only [UNIT_SIZE] at hs
    omega
  · rw [if_neg hunit]
    have hu : ¬ block % 1024 ≠ 0 := hunit
    have hfirst : (block + UInt64.size - base) % UInt64.size / UNIT_SIZE = (block - base) / 1024 := by
      have he : block + UInt64.size - base = UInt64.size + (block - base) := by omega
      rw [he, Nat.add_mod_left, Nat.mod_eq_of_lt (by omega)]
    have hl : c.sizes.length = 2048 := h.sizes
    have hlt : (block - base) / 1024 < c.sizes.length := by omega
    have hblock : block = base + (block - base) / 1024 * UNIT_SIZE := by
      simp only [UNIT_SIZE]
      omega
    simp only [hfirst, List.getElem?_eq_getElem hlt]
    generalize hs : (block - base) / 1024 = s at *
    have hext : extent c s = (c.sizes[s]).toNat := by
      unfold extent
      rw [List.getD_eq_getElem?_getD, List.getElem?_eq_getElem hlt, Option.getD_some]
    have huniq : ∀ t, block = base + t * UNIT_SIZE → t = s := by
      intro t ht
      simp only [UNIT_SIZE] at ht hblock
      omega
    by_cases hz : c.sizes[s] = 0
    · rw [if_pos hz]
      refine ⟨_, rfl, .inl ⟨fun t ht => ?_, rfl⟩⟩
      rw [huniq t ht, hext, hz]
      rfl
    · have hne : extent c s ≠ 0 := by
        rw [hext]
        intro h0
        exact hz (UInt16.toNat_inj.mp h0)
      have hin := h.inside s hne
      have hr : RESERVED = 5 := rfl
      have hblocks : BITMAP_LEN * QWORD_WIDTH = 2048 := rfl
      have hlb : c.bitmap.length = 33 := h.barrier.length
      rw [if_neg hz, ← hext, if_neg (by omega)]
      obtain ⟨map', hclear, hpaint⟩ := paintBitmap_painted clear_paints c.bitmap s (extent c s)
        (by omega) (by omega)
      have hclear' : clearBitmap c.bitmap s (extent c s) = some map' := hclear
      rw [hclear']
      exact ⟨_, rfl, .inr ⟨s, hblock, hne, rfl, rfl, hpaint, rfl⟩⟩

/-! ### Runs of one slab -/

/-- A call on the slab with its answer. -/
inductive Event where
  | alloc (size align : ℕ) (answer : Option ℕ)
  | free (block : ℕ) (secure_free released : Bool)

/-- One call. The callers see to it that the size is positive (and at most 4 MB, of which
only is needed that rounding it up does not wrap) and the address is in the slab. -/
def Step (base : ℕ) (c : BlockCtrl) : Event → BlockCtrl → Prop
  | .alloc size align answer, c' =>
      0 < size ∧ size + UNIT_SIZE ≤ UInt64.size ∧ qaeMemAlloc base c size align = some (answer, c')
  | .free block secure_free released, c' =>
      base ≤ block ∧ block < base + SLAB_SIZE ∧
        ∃ zeroed, qaeMemFree base c block secure_free = some ⟨released, zeroed, c'⟩

/-- A slab of memory fresh from the kernel, initialised. -/
def IsNew (c : BlockCtrl) : Prop := initSlab SLAB_SIZE blankCtrl = some c

def Event.allocated : Event → Bool
  | .alloc _ _ answer => answer.isSome
  | .free _ _ _ => false

def Event.released : Event → Bool
  | .alloc _ _ _ => false
  | .free _ _ released => released

theorem IsNew.wellFormed {c : BlockCtrl} (h : IsNew c) : WellFormed c ∧ liveCount c = 0 := by
  obtain ⟨c', hc', hw⟩ := initSlab_spec blankCtrl_unused SLAB_SIZE rfl
  rw [IsNew, hc', Option.some.injEq] at h
  rw [← h]
  exact hw

theorem Step.wellFormed {base : ℕ} (hp : Placed base) {c c' : BlockCtrl} {e : Event}
    (hs : Step base c e c') (h : WellFormed c) :
    WellFormed c' ∧ liveCount c' + (if e.released then 1 else 0) =
      liveCount c + (if e.allocated then 1 else 0) := by
  cases e with
  | alloc size align answer =>
    obtain ⟨hpos, hmax, hcall⟩ := hs
    obtain ⟨answer', c₁, hspec, hout⟩ :=
      qaeMemAlloc_spec align h hp.nonzero (by omega) hmax
    rw [hcall, Option.some.injEq, Prod.mk.injEq] at hspec
    obtain ⟨ha, hc⟩ := hspec
    subst ha hc
    have hneed : 0 < blocksFor size := by
      unfold blocksFor
      omega
    obtain ⟨hnone, hsame, _⟩ | ⟨s, hsome, ht, hfirst⟩ := hout
    · subst hsame hnone
      exact ⟨h, rfl⟩
    · subst hsome
      exact ⟨ht.wellFormed h hneed hfirst.fit, ht.liveCount h hneed hfirst.fit⟩
  | free block secure_free released =>
    obtain ⟨hlo, hhi, zeroed, hcall⟩ := hs
    obtain ⟨r, hspec, hout⟩ := qaeMemFree_spec h hp hlo hhi secure_free
    rw [hcall, Option.some.injEq] at hspec
    subst hspec
    obtain ⟨_, hr⟩ | ⟨s, _, hne, hrel, _, hg⟩ := hout
    · rw [FreeResult.mk.injEq] at hr
      obtain ⟨hrel, _, hc⟩ := hr
      subst hrel hc
      exact ⟨h, rfl⟩
    · have hrel' : released = true := hrel
      subst hrel'
      exact ⟨hg.wellFormed h hne, hg.liveCount hne⟩

theorem trace_wellFormed {base : ℕ} (hp : Placed base) {c c' : BlockCtrl} {es : List Event}
    (ht : Transition.Trace (Step base) c es c') (h : WellFormed c) : WellFormed c' :=
  ht.invariant h fun _ _ _ hw hs => (hs.wellFormed hp hw).1

/-- What was allocated and not released is what is alive. -/
theorem trace_liveCount {base : ℕ} (hp : Placed base) {c c' : BlockCtrl} {es : List Event}
    (ht : Transition.Trace (Step base) c es c') (h : WellFormed c) :
    liveCount c' + es.countP Event.released = liveCount c + es.countP Event.allocated := by
  induction ht with
  | nil => rfl
  | cons hst _ ih =>
    obtain ⟨hw, hn⟩ := hst.wellFormed hp h
    have := ih hw
    rw [List.countP_cons, List.countP_cons]
    omega

/-- What a call does to the allocations alive, as numbers of blocks by first block. -/
def living (base : ℕ) (live : ℕ → ℕ) : Event → ℕ → ℕ
  | .alloc size _ (some a) => Function.update live ((a - base) / UNIT_SIZE) (blocksFor size)
  | .free block _ true => Function.update live ((block - base) / UNIT_SIZE) 0
  | _ => live

theorem unit_of_address (base s : ℕ) : (base + s * UNIT_SIZE - base) / UNIT_SIZE = s := by
  rw [Nat.add_sub_cancel_left, Nat.mul_div_cancel s (by decide)]

theorem Step.extent {base : ℕ} (hp : Placed base) {c c' : BlockCtrl} {e : Event}
    (hs : Step base c e c') (h : WellFormed c) : extent c' = living base (extent c) e := by
  have hl : c.sizes.length = 2048 := h.sizes
  have hblocks : BITMAP_LEN * QWORD_WIDTH = 2048 := rfl
  cases e with
  | alloc size align answer =>
    obtain ⟨hpos, hmax, hcall⟩ := hs
    obtain ⟨answer', c₁, hspec, hout⟩ := qaeMemAlloc_spec align h hp.nonzero (by omega) hmax
    rw [hcall, Option.some.injEq, Prod.mk.injEq] at hspec
    obtain ⟨rfl, rfl⟩ := hspec
    obtain ⟨rfl, rfl, _⟩ | ⟨s, rfl, ht, hfirst⟩ := hout
    · rfl
    · have hin := hfirst.fit.inside
      have hneed : 0 < blocksFor size := by
        unfold blocksFor
        omega
      funext t
      rw [ht.extent (by omega) (by omega), living, unit_of_address, Function.update_apply]
  | free block secure_free released =>
    obtain ⟨hlo, hhi, zeroed, hcall⟩ := hs
    obtain ⟨r, hspec, hout⟩ := qaeMemFree_spec h hp hlo hhi secure_free
    rw [hcall, Option.some.injEq] at hspec
    subst hspec
    obtain ⟨_, hr⟩ | ⟨s, rfl, hne, hrel, _, hg⟩ := hout
    · cases hr
      rfl
    · obtain rfl : released = true := hrel
      funext t
      rw [hg.extent (extent_lt hne), living, unit_of_address, Function.update_apply]

/-- The allocations alive in the control block are those of the calls. -/
theorem trace_living {base : ℕ} (hp : Placed base) {c c' : BlockCtrl} {es : List Event}
    (ht : Transition.Trace (Step base) c es c') (h : WellFormed c) :
    extent c' = es.foldl (living base) (extent c) := by
  induction ht with
  | nil => rfl
  | cons hst _ ih =>
    rw [ih (hst.wellFormed hp h).1, hst.extent hp h]
    rfl

/-- A block that neither the control block nor an allocation covers. -/
def Vacant (c : BlockCtrl) (i : ℕ) : Prop :=
  RESERVED ≤ i ∧ ∀ s, s ≤ i → s + extent c s ≤ i

/-- Vacant after a run is what no allocation covers that the calls made and did not
release. -/
theorem trace_vacant {base : ℕ} (hp : Placed base) {c₀ c : BlockCtrl} (h₀ : IsNew c₀)
    {es : List Event} (ht : Transition.Trace (Step base) c₀ es c) (i : ℕ) :
    Vacant c i ↔ RESERVED ≤ i ∧ ∀ s, s ≤ i → s + es.foldl (living base) (fun _ => 0) s ≤ i := by
  obtain ⟨hw, hz⟩ := h₀.wellFormed
  have hnone : extent c₀ = fun _ => 0 := funext (liveCount_eq_zero hz)
  rw [Vacant, trace_living hp ht hw, hnone]

theorem WellFormed.free_iff_vacant {c : BlockCtrl} (h : WellFormed c) {i : ℕ}
    (hi : i < BITMAP_LEN * QWORD_WIDTH) : Free c.bitmap i ↔ Vacant c i := by
  have ht := h.taken i hi
  unfold Free Vacant
  constructor
  · intro hf
    rw [hf] at ht
    have hno := fun hor => Bool.false_ne_true (ht.mpr hor)
    constructor
    · by_contra hr
      exact hno (.inl (by omega))
    · intro s hs
      by_contra hlt
      exact hno (.inr ⟨s, hs, by omega⟩)
  · intro ⟨hr, hv⟩
    cases hb : bit c.bitmap i with
    | false => rfl
    | true =>
      obtain hlt | ⟨s, hs, hs'⟩ := ht.mp hb
      · omega
      · have := hv s hs
        omega

theorem placed_gib : Placed 0x40000000 := ⟨by decide, rfl, by decide⟩

/-- A block handed out by a new slab and taken back. -/
theorem alloc_and_free : ∃ c₀ c₁ c₂, IsNew c₀ ∧
    Step 0x40000000 c₀ (.alloc 5000 2 (some 0x40001800)) c₁ ∧
    Step 0x40000000 c₁ (.free 0x40001800 false true) c₂ := by
  obtain ⟨c₀, hc₀, hw, _⟩ := initSlab_spec blankCtrl_unused SLAB_SIZE rfl
  obtain ⟨answer, c₁, hc₁, _⟩ := qaeMemAlloc_spec 2 hw (show 0x40000000 ≠ 0 by decide)
    (show 5000 ≠ 0 by decide) (by decide)
  have ha : ((initSlab SLAB_SIZE blankCtrl).bind fun c =>
      qaeMemAlloc 0x40000000 c 5000 2).map Prod.fst = some (some 0x40001800) := by decide +kernel
  rw [hc₀, Option.bind_some, hc₁, Option.map_some, Option.some.injEq] at ha
  subst ha
  have hstep : Step 0x40000000 c₀ (.alloc 5000 2 (some 0x40001800)) c₁ :=
    ⟨by decide, by decide, hc₁⟩
  obtain ⟨r, hr, _⟩ := qaeMemFree_spec (hstep.wellFormed placed_gib hw).1 placed_gib
    (show 0x40000000 ≤ 0x40001800 by decide) (by decide) false
  have hrel : (((initSlab SLAB_SIZE blankCtrl).bind fun c =>
      qaeMemAlloc 0x40000000 c 5000 2).bind fun s =>
      qaeMemFree 0x40000000 s.2 0x40001800 false).map (·.released) = some true := by decide +kernel
  rw [hc₀, Option.bind_some, hc₁, Option.bind_some, hr, Option.map_some, Option.some.injEq] at hrel
  obtain ⟨released, zeroed, c₂⟩ := r
  dsimp only at hrel
  subst hrel
  exact ⟨c₀, c₁, c₂, hc₀, hstep, by decide, by decide, zeroed, hr⟩

/-- In every run of a slab the allocator answers each request with the lowest aligned
stretch of blocks that nothing covers, and refuses only where there is none. -/
theorem slab_first_fit {base : ℕ} (hp : Placed base) {c₀ c : BlockCtrl} (h₀ : IsNew c₀)
    {es : List Event} (ht : Transition.Trace (Step base) c₀ es c) {size : ℕ} (align : ℕ)
    (hsize : 0 < size) (hmax : size + UNIT_SIZE ≤ UInt64.size) :
    ∃ answer c', qaeMemAlloc base c size align = some (answer, c') ∧
      (answer = none ↔
        ∀ t, ¬ Fit (Vacant c) (BITMAP_LEN * QWORD_WIDTH) (blocksFor size) align t) ∧
      ∀ a, answer = some a → ∃ s, a = base + s * UNIT_SIZE ∧
        First (Vacant c) (BITMAP_LEN * QWORD_WIDTH) (blocksFor size) align s := by
  have h := trace_wellFormed hp ht h₀.wellFormed.1
  have hcongr : ∀ i, i < BITMAP_LEN * QWORD_WIDTH → (Free c.bitmap i ↔ Vacant c i) :=
    fun i hi => h.free_iff_vacant hi
  obtain ⟨answer, c', hcall, hout⟩ :=
    qaeMemAlloc_spec align h hp.nonzero (by omega) hmax
  refine ⟨answer, c', hcall, ?_⟩
  obtain ⟨hnone, _, hno⟩ | ⟨s, hsome, _, hfirst⟩ := hout
  · subst hnone
    constructor
    · exact ⟨fun _ t hfit => hno t ((Fit.congr hcongr).mpr hfit), fun _ => rfl⟩
    · intro a ha
      cases ha
  · subst hsome
    have hfirst' := (First.congr hcongr).mp hfirst
    constructor
    · constructor
      · intro hn
        cases hn
      · intro hno
        exact absurd hfirst'.fit (hno s)
    · intro a ha
      exact ⟨s, (Option.some.inj ha).symm, hfirst'⟩

/-- The second request goes behind the block alive, at the next multiple of 4 units. -/
theorem slab_first_fit_again : ∃ c₀ c₁ c₂, IsNew c₀ ∧
    Step 0x40000000 c₀ (.alloc 5000 2 (some 0x40001800)) c₁ ∧
    Step 0x40000000 c₁ (.alloc 5000 4 (some 0x40003000)) c₂ ∧
    First (Vacant c₁) (BITMAP_LEN * QWORD_WIDTH) (blocksFor 5000) 4 12 := by
  obtain ⟨c₀, c₁, _, h₀, halloc, _⟩ := alloc_and_free
  obtain ⟨answer, c₂, hcall, _, hfirst⟩ := slab_first_fit placed_gib h₀ (.cons halloc .nil) 4
    (show 0 < 5000 by decide) (by decide)
  have ha : ((initSlab SLAB_SIZE blankCtrl).bind fun c =>
      (qaeMemAlloc 0x40000000 c 5000 2).bind fun r =>
        qaeMemAlloc 0x40000000 r.2 5000 4).map Prod.fst = some (some 0x40003000) := by
    decide +kernel
  have hc₀ : initSlab SLAB_SIZE blankCtrl = some c₀ := h₀
  have hc₁ := halloc.2.2
  rw [hc₀, Option.bind_some, hc₁, Option.bind_some, hcall, Option.map_some,
    Option.some.injEq] at ha
  subst ha
  obtain ⟨s, hs, hfit⟩ := hfirst _ rfl
  obtain rfl : s = 12 := by
    simp only [UNIT_SIZE] at hs
    omega
  exact ⟨c₀, c₁, c₂, h₀, halloc, ⟨by decide, by decide, hcall⟩, hfit⟩

/-- Two slabs in use with no allocation alive are equal. -/
theorem WellFormed.eq_of_liveCount {c c' : BlockCtrl} (h : WellFormed c) (h' : WellFormed c')
    (hz : liveCount c = 0) (hz' : liveCount c' = 0) : c = c' := by
  have hsizes : c.sizes = c'.sizes := (h.unused hz).sizes.trans (h'.unused hz').sizes.symm
  have hmap : c.bitmap = c'.bitmap := by
    apply ext_bit (h.barrier.length.trans h'.barrier.length.symm)
    intro i
    by_cases hi : i < BITMAP_LEN * QWORD_WIDTH
    · have ht := h.taken i hi
      have ht' := h'.taken i hi
      have hnone : ∀ s, extent c s = extent c' s := by
        intro s
        rw [liveCount_eq_zero hz s, liveCount_eq_zero hz' s]
      simp only [hnone] at ht
      exact Bool.eq_iff_iff.mpr (ht.trans ht'.symm)
    · by_cases hlast : i < BITMAP_LEN * QWORD_WIDTH + 64
      · have he : BITMAP_LEN * QWORD_WIDTH + (i - BITMAP_LEN * QWORD_WIDTH) = i := by omega
        rw [← he, h.barrier.stops (by omega), h'.barrier.stops (by omega)]
      · have hq : BITMAP_LEN + 1 ≤ i / 64 := by
          have hblocks : BITMAP_LEN * QWORD_WIDTH = 2048 := rfl
          have hlen : BITMAP_LEN = 32 := rfl
          omega
        have hl := h.barrier.length
        have hl' := h'.barrier.length
        rw [bit, bit, List.getD_eq_getElem?_getD, List.getD_eq_getElem?_getD,
          List.getElem?_eq_none (by omega), List.getElem?_eq_none (by omega)]
  cases c
  cases c'
  exact congr (congrArg BlockCtrl.mk hmap) hsizes

/-- When as many blocks were released as were allocated, whatever the order, the slab
is back in the state it was initialised to. -/
theorem slab_restored {base : ℕ} (hp : Placed base) {c₀ c : BlockCtrl} (h₀ : IsNew c₀)
    {es : List Event} (ht : Transition.Trace (Step base) c₀ es c)
    (hall : es.countP Event.released = es.countP Event.allocated) : c = c₀ := by
  obtain ⟨hw₀, hz₀⟩ := h₀.wellFormed
  have hn := trace_liveCount hp ht hw₀
  exact (trace_wellFormed hp ht hw₀).eq_of_liveCount hw₀ (by omega) hz₀

theorem slab_restored_alloc_and_free : ∃ c₀ c₁, IsNew c₀ ∧
    Step 0x40000000 c₀ (.alloc 5000 2 (some 0x40001800)) c₁ ∧
    Step 0x40000000 c₁ (.free 0x40001800 false true) c₀ := by
  obtain ⟨c₀, c₁, c₂, h₀, halloc, hfree⟩ := alloc_and_free
  have hback : c₂ = c₀ := slab_restored placed_gib h₀ (.cons halloc (.cons hfree .nil)) rfl
  subst hback
  exact ⟨_, c₁, h₀, halloc, hfree⟩

end Slab
end QatDcSample
