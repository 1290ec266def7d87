import QatDcSample.Lib.Bitmap
import QatDcSample.Lib.FirstFit
import Mathlib.Tactic.Common

/-!
# The slab allocator of the user-space memory library

`set_bitmap`, `clear_bitmap` and `mem_ctzll` (`qae_mem_utils_common.h`),
`bitmap_read`, `__qae_mem_alloc` and `__qae_mem_free` (`qae_mem_utils_common.c`).
An access outside one of the two arrays of the control block is `none`.
-/

namespace QatDcSample
namespace Slab

open Bitmap

abbrev UNIT_SIZE : ℕ := 1024
abbrev QWORD_WIDTH : ℕ := 64
abbrev BITMAP_LEN : ℕ := 32
abbrev BLOCK_SIZES : ℕ := 2048
abbrev QWORD_ALL_ONE : BitVec 64 := BitVec.allOnes 64

/-- `__qae_bitmask[n]`: the `n` low bits set. -/
def qaeBitmask (n : ℕ) : BitVec 64 := (BitVec.allOnes n).setWidth 64

def memCtzll (bitmap_window : BitVec 64) : ℕ :=
  if bitmap_window ≠ 0 then bitmap_window.ctz.toNat else QWORD_WIDTH

/-- `while (num--) bitmap[qword++] = full;` -/
def fillWords (full : BitVec 64) : ℕ → Words 64 → ℕ → Option (Words 64 × ℕ)
  | 0, bitmap, qword => some (bitmap, qword)
  | num + 1, bitmap, qword =>
      match update bitmap qword (fun _ => full) with
      | none => none
      | some bitmap => fillWords full num bitmap (qword + 1)

/-- The part of `set_bitmap` and `clear_bitmap` that starts on a word boundary. -/
def paintWords (merge : BitVec 64 → BitVec 64 → BitVec 64) (full : BitVec 64)
    (bitmap : Words 64) (qword len : ℕ) : Option (Words 64) :=
  match fillWords full (len / QWORD_WIDTH) bitmap qword with
  | none => none
  | some (bitmap, qword) => update bitmap qword (merge (qaeBitmask (len % QWORD_WIDTH)))

/-- The common text of `set_bitmap` and `clear_bitmap`: `merge` applies a mask to
a word, `full` is the word a whole quad word is set to. -/
def paintBitmap (merge : BitVec 64 → BitVec 64 → BitVec 64) (full : BitVec 64)
    (bitmap : Words 64) (index len : ℕ) : Option (Words 64) :=
  let qword := index / QWORD_WIDTH
  let offset := index % QWORD_WIDTH
  if offset > 0 then
    let width := min len (QWORD_WIDTH - offset)
    match update bitmap qword (merge (qaeBitmask width <<< offset)) with
    | none => none
    | some bitmap => paintWords merge full bitmap (qword + 1) (len - width)
  else
    paintWords merge full bitmap qword len

def setBitmap : Words 64 → ℕ → ℕ → Option (Words 64) :=
  paintBitmap (fun mask word => word ||| mask) (~~~0#64)

def clearBitmap : Words 64 → ℕ → ℕ → Option (Words 64) :=
  paintBitmap (fun mask word => word &&& ~~~mask) 0#64

def bitmapRead (map : Words 64) (window_pos : ℕ) : Option (BitVec 64) :=
  let quad_word_pos := window_pos / QWORD_WIDTH
  if quad_word_pos ≥ BITMAP_LEN then
    some QWORD_ALL_ONE
  else
    let bit_pos := window_pos % QWORD_WIDTH
    match map[quad_word_pos]? with
    | none => none
    | some quad_word_window =>
        if bit_pos = 0 then
          some quad_word_window
        else
          match map[quad_word_pos + 1]? with
          | none => none
          | some next_quad_word =>
              some ((quad_word_window >>> bit_pos) |||
                (next_quad_word <<< (QWORD_WIDTH - bit_pos)))

/-- The allocation part of `block_ctrl_t`. -/
structure BlockCtrl where
  bitmap : Words 64
  sizes : List UInt16
  deriving DecidableEq

/-- `window_pos` moved up to the alignment, where one is asked for. -/
def alignPos (align window_pos : ℕ) : ℕ :=
  if align ≠ 0 ∧ window_pos % align ≠ 0 then window_pos + (align - window_pos % align)
  else window_pos

/-- The search loop of `__qae_mem_alloc`; `none` also when `fuel` runs out. The
answer is the block found, as an index, with the control block afterwards. -/
def allocLoop (block_ctrl : BlockCtrl) (blocks_required align : ℕ) :
    (fuel window_pos first_block blocks_found : ℕ) → Option (Option ℕ × BlockCtrl)
  | 0, _, _, _ => none
  | fuel + 1, window_pos, first_block, blocks_found =>
      match bitmapRead block_ctrl.bitmap window_pos with
      | none => none
      | some bitmap_window =>
          let width := memCtzll bitmap_window
          let blocks_found := blocks_found + width
          if blocks_found ≥ blocks_required then
            if first_block + blocks_required > BITMAP_LEN * QWORD_WIDTH then
              some (none, block_ctrl)
            else if first_block < block_ctrl.sizes.length then
              match setBitmap block_ctrl.bitmap first_block blocks_required with
              | none => none
              | some bitmap =>
                  some (some first_block,
                    ⟨bitmap, block_ctrl.sizes.set first_block (UInt16.ofNat blocks_required)⟩)
            else
              none
          else if bitmap_window ≠ 0 then
            let width_ones := memCtzll (~~~(bitmap_window >>> width))
            let window_pos := alignPos align (window_pos + (width + width_ones))
            if window_pos < BITMAP_LEN * QWORD_WIDTH then
              allocLoop block_ctrl blocks_required align fuel window_pos window_pos 0
            else
              some (none, block_ctrl)
          else
            let window_pos := window_pos + width
            if window_pos < BITMAP_LEN * QWORD_WIDTH then
              allocLoop block_ctrl blocks_required align fuel window_pos first_block blocks_found
            else
              some (none, block_ctrl)

/-- `div_round_up(n, d)` in `size_t`. -/
def divRoundUp (n d : ℕ) : ℕ := (n + d - 1) % UInt64.size / d

/-- `__qae_mem_alloc` on a control block at the address `base`. -/
def qaeMemAlloc (base : ℕ) (block_ctrl : BlockCtrl) (size align : ℕ) :
    Option (Option ℕ × BlockCtrl) :=
  if base = 0 ∨ size = 0 then
    some (none, block_ctrl)
  else
    match allocLoop block_ctrl (divRoundUp size UNIT_SIZE) align BLOCK_SIZES 0 0 0 with
    | none => none
    | some (first_block, block_ctrl) =>
        some (first_block.map (fun i => base + i * UNIT_SIZE), block_ctrl)

/-- What `__qae_mem_free` did: its answer, the bytes it zeroed as start and length,
and the control block afterwards. -/
structure FreeResult where
  released : Bool
  zeroed : Option (ℕ × ℕ)
  block_ctrl : BlockCtrl
  deriving DecidableEq

def qaeMemFree (base : ℕ) (block_ctrl : BlockCtrl) (block : ℕ) (secure_free : Bool) :
    Option FreeResult :=
  if base = 0 ∨ block = 0 then
    some ⟨false, none, block_ctrl⟩
  else if block % UNIT_SIZE ≠ 0 then
    some ⟨false, none, block_ctrl⟩
  else
    let first_block := (block + UInt64.size - base) % UInt64.size / UNIT_SIZE
    match block_ctrl.sizes[first_block]? with
    | none => none
    | some length =>
        if length = 0 then
          some ⟨false, none, block_ctrl⟩
        else if length.toNat + first_block > BITMAP_LEN * QWORD_WIDTH then
          some ⟨false, none, block_ctrl⟩
        else
          match clearBitmap block_ctrl.bitmap first_block length.toNat with
          | none => none
          | some bitmap =>
              some ⟨true, if secure_free then some (block, length.toNat * UNIT_SIZE) else none,
                ⟨bitmap, block_ctrl.sizes.set first_block 0⟩⟩

/-! ### Painting a stretch of the bitmap -/

/-- A mask and a whole word that both give bits the value `v`. -/
def Paints (merge : BitVec 64 → BitVec 64 → BitVec 64) (full : BitVec 64) (v : Bool) : Prop :=
  (∀ mask word j, j < 64 → (merge mask word).getLsbD j =
    if mask.getLsbD j then v else word.getLsbD j) ∧ ∀ j, j < 64 → full.getLsbD j = v

theorem set_paints : Paints (fun mask word => word ||| mask) (~~~0#64) true := by
  constructor
  · intro mask word j hj
    cases h : mask.getLsbD j <;> simp [h]
  · intro j hj
    rw [BitVec.getLsbD_not, BitVec.getLsbD_zero]
    simp [hj]

theorem clear_paints : Paints (fun mask word => word &&& ~~~mask) 0#64 false := by
  constructor
  · intro mask word j hj
    rw [BitVec.getLsbD_and, BitVec.getLsbD_not]
    cases h : mask.getLsbD j <;> simp [hj]
  · intro j hj
    exact BitVec.getLsbD_zero

theorem qaeBitmask_bit (n j : ℕ) : (qaeBitmask n).getLsbD j = decide (j < 64 ∧ j < n) := by
  simp [qaeBitmask]

theorem shifted_qaeBitmask_bit {n l j : ℕ} (hj : j < 64) :
    (qaeBitmask n <<< l).getLsbD j = decide (l ≤ j ∧ j < l + n) := by
  rw [BitVec.getLsbD_shiftLeft, qaeBitmask_bit]
  by_cases hl : j < l
  · have hno : ¬ (l ≤ j ∧ j < l + n) := by omega
    simp [hl, hno]
  · have hiff : (j - l < 64 ∧ j - l < n) ↔ (l ≤ j ∧ j < l + n) := by omega
    simp only [hj, hl, hiff, decide_true, decide_false, Bool.not_false, Bool.true_and]

section
variable {merge : BitVec 64 → BitVec 64 → BitVec 64} {full : BitVec 64} {v : Bool}

theorem merge_bits (hp : Paints merge full v) (n l : ℕ) (x : BitVec 64) {j : ℕ} (hj : j < 64) :
    (merge (qaeBitmask n <<< l) x).getLsbD j = if l ≤ j ∧ j < l + n then v else x.getLsbD j := by
  rw [hp.1 _ _ j hj, shifted_qaeBitmask_bit hj]
  simp only [decide_eq_true_eq]

theorem fillWords_painted (hp : Paints merge full v) (num : ℕ) :
    ∀ (map : Words 64) (q : ℕ), q + num ≤ map.length →
      ∃ map', fillWords full num map q = some (map', q + num) ∧
        Painted map map' (q * 64) ((q + num) * 64) v := by
  induction num with
  | zero =>
    intro map q _
    exact ⟨map, rfl, painted_empty map v (by omega)⟩
  | succ num ih =>
    intro map q hq
    obtain ⟨map₁, hu, hp₁⟩ := update_painted map (l := 0) (n := 64)
      (f := fun _ => full) (v := v) (q := q) (by omega) (by omega) (by omega) (by
        intro x j hj
        rw [if_pos (by omega)]
        exact hp.2 j hj)
    have hl := hp₁.length
    obtain ⟨map₂, hf, hp₂⟩ := ih map₁ (q + 1) (by omega)
    refine ⟨map₂, ?_, ?_⟩
    · rw [fillWords, hu]
      have hn : q + (num + 1) = q + 1 + num := by omega
      rw [hn]
      exact hf
    · have he : q * 64 + 0 + 64 = (q + 1) * 64 := by omega
      have hs : q * 64 + 0 = q * 64 := by omega
      rw [he, hs] at hp₁
      have hn : q + (num + 1) = q + 1 + num := by omega
      rw [hn]
      exact hp₁.trans hp₂ (by omega) (by omega)

theorem paintWords_painted (hp : Paints merge full v) (map : Words 64) (q len : ℕ)
    (hq : q + len / 64 < map.length) :
    ∃ map', paintWords merge full map q len = some map' ∧
      Painted map map' (q * 64) (q * 64 + len) v := by
  obtain ⟨map₁, hf, hp₁⟩ := fillWords_painted hp (len / 64) map q (by omega)
  have hl := hp₁.length
  obtain ⟨map₂, hu, hp₂⟩ := update_painted map₁ (l := 0) (n := len % 64) (v := v)
    (f := merge (qaeBitmask (len % 64))) (q := q + len / 64)
    (by omega) (by omega) (by omega) (by
      intro x j hj
      have hm := merge_bits hp (len % 64) 0 x hj
      rw [BitVec.shiftLeft_zero] at hm
      exact hm)
  refine ⟨map₂, ?_, ?_⟩
  · rw [paintWords, hf]
    exact hu
  · have hs : (q + len / 64) * 64 + 0 = (q + len / 64) * 64 := by omega
    have he : (q + len / 64) * 64 + len % 64 = q * 64 + len := by omega
    rw [hs, he] at hp₂
    exact hp₁.trans hp₂ (by omega) (by omega)

theorem paintBitmap_painted (hp : Paints merge full v) (map : Words 64) (index len : ℕ)
    (hi : index / 64 + 1 < map.length) (hl : (index + len) / 64 < map.length) :
    ∃ map', paintBitmap merge full map index len = some map' ∧
      Painted map map' index (index + len) v := by
  unfold paintBitmap
  simp only [QWORD_WIDTH]
  by_cases ho : index % 64 > 0
  · rw [if_pos ho]
    obtain ⟨map₁, hu, hp₁⟩ := update_painted map (l := index % 64)
      (n := min len (64 - index % 64)) (v := v)
      (f := merge (qaeBitmask (min len (64 - index % 64)) <<< (index % 64))) (q := index / 64) (by omega) (by omega) (by omega)
      (fun x j hj => merge_bits hp _ _ x hj)
    have hl₁ := hp₁.length
    have hpos : index / 64 * 64 + index % 64 = index := by omega
    rw [hpos] at hp₁
    rw [hu]
    by_cases hfit : len ≤ 64 - index % 64
    · have hm : min len (64 - index % 64) = len := by omega
      rw [hm] at hp₁ ⊢
      obtain ⟨map₂, hw, hp₂⟩ := paintWords_painted hp map₁ (index / 64 + 1) (len - len)
        (by omega)
      -- the stretch ends inside its first word: what follows writes no bit
      exact ⟨map₂, hw, hp₁.nothing hp₂ (by omega)⟩
    · have hm : min len (64 - index % 64) = 64 - index % 64 := by omega
      rw [hm] at hp₁ ⊢
      obtain ⟨map₂, hw, hp₂⟩ := paintWords_painted hp map₁ (index / 64 + 1)
        (len - (64 - index % 64)) (by omega)
      refine ⟨map₂, hw, ?_⟩
      have hs : (index / 64 + 1) * 64 = index + (64 - index % 64) := by omega
      have he : index + (64 - index % 64) + (len - (64 - index % 64)) = index + len := by omega
      rw [hs, he] at hp₂
      exact hp₁.trans hp₂ (by omega) (by omega)
  · rw [if_neg ho]
    have hpos : index / 64 * 64 = index := by omega
    obtain ⟨map', hw, hp'⟩ := paintWords_painted hp map (index / 64) len (by omega)
    rw [hpos] at hp'
    exact ⟨map', hw, hp'⟩

end

/-! ### Reading a window -/

theorem memCtzll_le (x : BitVec 64) : memCtzll x ≤ 64 := by
  unfold memCtzll
  split
  · next h =>
    have hlt := BitVec.ctz_lt_iff_ne_zero.mpr h
    rw [BitVec.lt_def] at hlt
    exact Nat.le_of_lt hlt
  · exact Nat.le_refl 64

theorem memCtzll_zero : memCtzll 0#64 = 64 := rfl

theorem memCtzll_below {x : BitVec 64} {j : ℕ} (hj : j < memCtzll x) : x.getLsbD j = false := by
  unfold memCtzll at hj
  split at hj
  · exact BitVec.getLsbD_false_of_lt_ctz hj
  · next h =>
    have hx : x = 0#64 := by simpa using h
    rw [hx]
    exact BitVec.getLsbD_zero

theorem memCtzll_at {x : BitVec 64} (h : x ≠ 0) : x.getLsbD (memCtzll x) = true := by
  rw [memCtzll, if_pos h]
  exact BitVec.getLsbD_true_ctz_of_ne_zero h

theorem width_ones_bits {x : BitVec 64} {width j : ℕ}
    (hj : j < memCtzll (~~~(x >>> width))) : x.getLsbD (width + j) = true := by
  have hb := memCtzll_below hj
  have h64 := memCtzll_le (~~~(x >>> width))
  have hlt : j < 64 := by omega
  rw [BitVec.getLsbD_not, BitVec.getLsbD_ushiftRight] at hb
  simpa [hlt] using hb

/-- Past the zeros of a word that is not zero there is at least one 1. -/
theorem width_ones_pos {x : BitVec 64} (h : x ≠ 0) :
    0 < memCtzll (~~~(x >>> memCtzll x)) := by
  by_contra h0
  have hz : memCtzll (~~~(x >>> memCtzll x)) = 0 := by omega
  by_cases hx : ~~~(x >>> memCtzll x) = 0
  · rw [hx] at hz
    exact absurd hz (by decide)
  · have hb := memCtzll_at hx
    rw [hz, BitVec.getLsbD_not, BitVec.getLsbD_ushiftRight, Nat.add_zero, memCtzll_at h] at hb
    simp at hb

theorem bitmapRead_spec {map : Words 64} (hl : map.length = BITMAP_LEN + 1) {window_pos : ℕ}
    (hw : window_pos < BITMAP_LEN * QWORD_WIDTH) :
    ∃ window, bitmapRead map window_pos = some window ∧
      ∀ j, j < 64 → window.getLsbD j = bit map (window_pos + j) := by
  simp only [BITMAP_LEN, QWORD_WIDTH] at hl hw
  have hq : window_pos / 64 < map.length := by omega
  have hq₁ : window_pos / 64 + 1 < map.length := by omega
  unfold bitmapRead
  simp only [QWORD_WIDTH, BITMAP_LEN]
  rw [if_neg (by omega), List.getElem?_eq_getElem hq]
  by_cases hz : window_pos % 64 = 0
  · refine ⟨map[window_pos / 64], by simp only [hz, if_true], fun j hj => ?_⟩
    have hp : window_pos + j = window_pos / 64 * 64 + j := by omega
    rw [hp, bit_at hj, List.getD_eq_getElem?_getD, List.getElem?_eq_getElem hq]
    rfl
  · rw [List.getElem?_eq_getElem hq₁]
    refine ⟨map[window_pos / 64] >>> (window_pos % 64) |||
      map[window_pos / 64 + 1] <<< (64 - window_pos % 64), by simp only [hz, if_false], ?_⟩
    intro j hj
    rw [BitVec.getLsbD_or, BitVec.getLsbD_ushiftRight, BitVec.getLsbD_shiftLeft]
    by_cases hin : window_pos % 64 + j < 64
    · have hp : window_pos + j = window_pos / 64 * 64 + (window_pos % 64 + j) := by omega
      have hs : j < 64 - window_pos % 64 := by omega
      rw [hp, bit_at hin, List.getD_eq_getElem?_getD, List.getElem?_eq_getElem hq]
      simp [hs]
    · have hp : window_pos + j =
          (window_pos / 64 + 1) * 64 + (j - (64 - window_pos % 64)) := by omega
      have hs : ¬ j < 64 - window_pos % 64 := by omega
      have hj' : j - (64 - window_pos % 64) < 64 := by omega
      have hover : map[window_pos / 64].getLsbD (window_pos % 64 + j) = false :=
        BitVec.getLsbD_of_ge _ _ (by omega)
      rw [hp, bit_at hj', List.getD_eq_getElem?_getD, List.getElem?_eq_getElem hq₁, hover]
      simp [hs, hj]

/-! ### The search is an aligned first fit -/

open FirstFit

/-- Block `i` is free in the bitmap. -/
def Free (map : Words 64) (i : ℕ) : Prop := bit map i = false

/-- The word behind the bitmap stops every search. -/
structure Barrier (map : Words 64) : Prop where
  length : map.length = BITMAP_LEN + 1
  last : map.getD BITMAP_LEN 0#64 = QWORD_ALL_ONE

theorem Barrier.stops {map : Words 64} (h : Barrier map) {j : ℕ} (hj : j < 64) :
    bit map (BITMAP_LEN * QWORD_WIDTH + j) = true := by
  rw [bit_at hj, h.last, BitVec.getLsbD_allOnes]
  simp [hj]

abbrev Fits (map : Words 64) (need align s : ℕ) : Prop :=
  Fit (Free map) (BITMAP_LEN * QWORD_WIDTH) need align s

/-- What the loop knows each time it comes round. -/
structure Scan (map : Words 64) (need align window_pos first_block blocks_found : ℕ) : Prop where
  pos : first_block + blocks_found = window_pos
  inside : window_pos < BITMAP_LEN * QWORD_WIDTH
  aligned : Aligned align first_block
  free : ∀ i, first_block ≤ i → i < window_pos → Free map i
  lowest : ∀ t, Fits map need align t → first_block ≤ t

/-- The answer of the search and the control block it leaves. -/
def Outcome (c : BlockCtrl) (need align : ℕ) : Option ℕ → BlockCtrl → Prop
  | none, c' => c' = c ∧ ∀ t, ¬ Fits c.bitmap need align t
  | some s, c' => First (Free c.bitmap) (BITMAP_LEN * QWORD_WIDTH) need align s ∧
      Painted c.bitmap c'.bitmap s (s + need) true ∧ c'.sizes = c.sizes.set s (UInt16.ofNat need)

section
variable {c : BlockCtrl} {need align window_pos first_block blocks_found : ℕ}
  {window : BitVec 64}

/-- The zeros at the low end of the window lengthen the stretch. -/
theorem Scan.extend (hb : Barrier c.bitmap)
    (h : Scan c.bitmap need align window_pos first_block blocks_found)
    (hw : ∀ j, j < 64 → window.getLsbD j = bit c.bitmap (window_pos + j)) :
    (∀ i, first_block ≤ i → i < window_pos + memCtzll window → Free c.bitmap i) ∧
      window_pos + memCtzll window ≤ BITMAP_LEN * QWORD_WIDTH := by
  have h64 := memCtzll_le window
  have hzero : ∀ j, j < memCtzll window → Free c.bitmap (window_pos + j) := by
    intro j hj
    have hbit := memCtzll_below hj
    rw [hw j (by omega)] at hbit
    exact hbit
  constructor
  · intro i hf hi
    by_cases hlt : i < window_pos
    · exact h.free i hf hlt
    · have he : i = window_pos + (i - window_pos) := by omega
      rw [he]
      exact hzero (i - window_pos) (by omega)
  · by_contra hover
    have hin := h.inside
    have hfree := hzero (BITMAP_LEN * QWORD_WIDTH - window_pos) (by omega)
    have he : window_pos + (BITMAP_LEN * QWORD_WIDTH - window_pos) =
        BITMAP_LEN * QWORD_WIDTH + 0 := by omega
    rw [he, Free, hb.stops (by omega)] at hfree
    exact absurd hfree (by decide)

/-- A 1 in the window, too near: the next candidate is past the 1s, aligned. -/
theorem Scan.restart (hneed : 0 < need)
    (h : Scan c.bitmap need align window_pos first_block blocks_found)
    (hw : ∀ j, j < 64 → window.getLsbD j = bit c.bitmap (window_pos + j)) (hne : window ≠ 0)
    (hshort : blocks_found + memCtzll window < need) {t : ℕ} (ht : Fits c.bitmap need align t) :
    alignPos align
      (window_pos + (memCtzll window + memCtzll (~~~(window >>> memCtzll window)))) ≤ t := by
  have hpos := h.pos
  have hone : ∀ j, j < memCtzll (~~~(window >>> memCtzll window)) →
      bit c.bitmap (window_pos + (memCtzll window + j)) = true := by
    intro j hj
    have hbit := width_ones_bits hj
    have hin : memCtzll window + j < 64 := by
      by_contra hge
      rw [BitVec.getLsbD_of_ge _ _ (by omega)] at hbit
      exact absurd hbit (by decide)
    rw [← hw _ hin]
    exact hbit
  have hfirst : window_pos + memCtzll window < t := by
    apply ht.beyond (h.lowest t ht) (by omega)
    have h0 := hone 0 (width_ones_pos hne)
    rw [Nat.add_zero] at h0
    simp [Free, h0]
  have hrun := ht.beyond_run hneed (p := window_pos + memCtzll window)
    (q := window_pos + (memCtzll window + memCtzll (~~~(window >>> memCtzll window))))
    (by omega) (by
      intro i hi hq
      have hbit := hone (i - (window_pos + memCtzll window)) (by omega)
      have he : window_pos + (memCtzll window + (i - (window_pos + memCtzll window))) = i := by
        omega
      rw [he] at hbit
      simp [Free, hbit])
  exact alignUp_le ht.aligned hrun

/-- The loop always comes to an end, and answers with the aligned first fit. -/
theorem allocLoop_spec (hb : Barrier c.bitmap) (hs : c.sizes.length = BLOCK_SIZES)
    (hneed : 0 < need) (fuel : ℕ) :
    ∀ window_pos first_block blocks_found,
      Scan c.bitmap need align window_pos first_block blocks_found →
      BITMAP_LEN * QWORD_WIDTH ≤ window_pos + fuel →
      ∃ answer c', allocLoop c need align fuel window_pos first_block blocks_found =
        some (answer, c') ∧ Outcome c need align answer c' := by
  induction fuel with
  | zero =>
    intro window_pos first_block blocks_found h hfuel
    have hin := h.inside
    omega
  | succ fuel ih =>
    intro window_pos first_block blocks_found h hfuel
    obtain ⟨window, hread, hw⟩ := bitmapRead_spec hb.length h.inside
    obtain ⟨hfree, hend⟩ := h.extend hb hw
    have hpos := h.pos
    simp only [allocLoop, hread]
    by_cases hfound : blocks_found + memCtzll window ≥ need
    · have hfit : Fits c.bitmap need align first_block := by
        constructor
        · exact h.aligned
        · omega
        · intro i hi hn
          exact hfree i hi (by omega)
      have hin : ¬ first_block + need > BITMAP_LEN * QWORD_WIDTH := by omega
      have hl : c.bitmap.length = 33 := hb.length
      have hblocks : BITMAP_LEN * QWORD_WIDTH = 2048 := rfl
      have hs' : c.sizes.length = 2048 := hs
      have hsz : first_block < c.sizes.length := by omega
      obtain ⟨map', hset, hp⟩ := paintBitmap_painted set_paints c.bitmap first_block need
        (by omega) (by omega)
      have hset' : setBitmap c.bitmap first_block need = some map' := hset
      simp only [if_pos hfound, if_neg hin, if_pos hsz, hset']
      exact ⟨_, _, rfl, ⟨hfit, h.lowest⟩, hp, rfl⟩
    · rw [if_neg hfound]
      by_cases hne : window ≠ 0
      · rw [if_pos hne]
        have hge := le_alignUp align
          (window_pos + (memCtzll window + memCtzll (~~~(window >>> memCtzll window))))
        have hones := width_ones_pos hne
        have hlow : ∀ t, Fits c.bitmap need align t → alignPos align
            (window_pos + (memCtzll window + memCtzll (~~~(window >>> memCtzll window)))) ≤ t :=
          fun t ht => h.restart hneed hw hne (by omega) ht
        change window_pos + _ ≤ alignPos align _ at hge
        by_cases hin : alignPos align (window_pos +
            (memCtzll window + memCtzll (~~~(window >>> memCtzll window)))) <
            BITMAP_LEN * QWORD_WIDTH
        · rw [if_pos hin]
          apply ih _ _ _ _ (by omega)
          constructor
          · omega
          · exact hin
          · exact aligned_alignUp align _
          · intro i hi hlt
            omega
          · exact hlow
        · rw [if_neg hin]
          refine ⟨none, c, rfl, rfl, fun t ht => ?_⟩
          have hlt := hlow t ht
          have hbound := ht.inside
          omega
      · have hz : window = 0 := not_not.mp hne
        rw [if_neg hne]
        have hwidth : memCtzll window = 64 := by
          rw [hz]
          exact memCtzll_zero
        rw [hwidth] at hfree hend hfound ⊢
        by_cases hin : window_pos + 64 < BITMAP_LEN * QWORD_WIDTH
        · rw [if_pos hin]
          apply ih _ _ _ _ (by omega)
          constructor
          · omega
          · exact hin
          · exact h.aligned
          · exact hfree
          · exact h.lowest
        · rw [if_neg hin]
          refine ⟨none, c, rfl, rfl, fun t ht => ?_⟩
          have hlt := h.lowest t ht
          have hbound := ht.inside
          omega

end

end Slab
end QatDcSample
