import Mathlib.Data.Nat.Notation
import Mathlib.Data.List.Basic

/-!
# Bitmaps kept in machine words

An array of `w`-bit words read as one long row of bits, the least significant bit
of word 0 first. Writes go one word at a time and fail outside the array.
-/

namespace Bitmap

abbrev Words (w : ℕ) := List (BitVec w)

variable {w : ℕ}

/-- Bit `i` of the row; beyond the array it reads as clear. -/
def bit (map : Words w) (i : ℕ) : Bool := (map.getD (i / w) 0#w).getLsbD (i % w)

/-- One word is read, changed and written back. -/
def update (map : Words w) (q : ℕ) (f : BitVec w → BitVec w) : Option (Words w) :=
  if q < map.length then some (map.modify q f) else none

/-- The bits `[a, b)` now have the value `v`, the others the value they had. -/
def Painted (map map' : Words w) (a b : ℕ) (v : Bool) : Prop :=
  map'.length = map.length ∧ ∀ i, bit map' i = if a ≤ i ∧ i < b then v else bit map i

theorem div_eq_of_bounds {q i : ℕ} (h₁ : q * w ≤ i) (h₂ : i < q * w + w) : i / w = q := by
  apply Nat.div_eq_of_lt_le
  · exact h₁
  · rw [Nat.succ_mul]
    exact h₂

/-- A row position as word and offset. -/
theorem div_mul_add_mod (i : ℕ) : i / w * w + i % w = i := by
  rw [Nat.mul_comm]
  exact Nat.div_add_mod i w

theorem bit_at {map : Words w} {q j : ℕ} (hj : j < w) :
    bit map (q * w + j) = (map.getD q 0#w).getLsbD j := by
  have hq : (q * w + j) / w = q := div_eq_of_bounds (by omega) (by omega)
  have hr := div_mul_add_mod (w := w) (q * w + j)
  rw [hq] at hr
  have hm : (q * w + j) % w = j := by omega
  rw [bit, hq, hm]

theorem Painted.length {map map' : Words w} {a b : ℕ} {v : Bool} (h : Painted map map' a b v) :
    map'.length = map.length := h.1

theorem Painted.inside {map map' : Words w} {a b : ℕ} {v : Bool} (h : Painted map map' a b v)
    {i : ℕ} (ha : a ≤ i) (hb : i < b) : bit map' i = v := by
  rw [h.2, if_pos ⟨ha, hb⟩]

theorem Painted.outside {map map' : Words w} {a b : ℕ} {v : Bool} (h : Painted map map' a b v)
    {i : ℕ} (ho : i < a ∨ b ≤ i) : bit map' i = bit map i := by
  rw [h.2, if_neg (by omega)]

theorem painted_empty (map : Words w) {a b : ℕ} (v : Bool) (h : b ≤ a) : Painted map map a b v := by
  constructor
  · rfl
  · intro i
    rw [if_neg (by omega)]

/-- Adjacent stretches painted one after the other. -/
theorem Painted.trans {map map₁ map₂ : Words w} {a b c : ℕ} {v : Bool}
    (h₁ : Painted map map₁ a b v) (h₂ : Painted map₁ map₂ b c v) (hab : a ≤ b) (hbc : b ≤ c) :
    Painted map map₂ a c v := by
  constructor
  · rw [h₂.1, h₁.1]
  · intro i
    rw [h₂.2, h₁.2]
    by_cases hb : i < b
    · have hc : ¬ (b ≤ i ∧ i < c) := by omega
      have hiff : (a ≤ i ∧ i < b) ↔ (a ≤ i ∧ i < c) := by omega
      simp only [hc, hiff, if_false]
    · have ha : ¬ (a ≤ i ∧ i < b) := by omega
      have hiff : (b ≤ i ∧ i < c) ↔ (a ≤ i ∧ i < c) := by omega
      simp only [ha, hiff, if_false]

theorem Painted.nothing {map map₁ map₂ : Words w} {a b c d : ℕ} {v v' : Bool}
    (h₁ : Painted map map₁ a b v) (h₂ : Painted map₁ map₂ c d v') (hd : d ≤ c) :
    Painted map map₂ a b v := by
  constructor
  · rw [h₂.1, h₁.1]
  · intro i
    rw [h₂.outside (by omega), h₁.2]

/-- A word update that gives the bits `[l, l + n)` of the word the value `v`. -/
theorem update_painted (map : Words w) {q l n : ℕ} {f : BitVec w → BitVec w} {v : Bool}
    (hpos : 0 < w) (hq : q < map.length) (hn : l + n ≤ w)
    (hf : ∀ x j, j < w → (f x).getLsbD j = if l ≤ j ∧ j < l + n then v else x.getLsbD j) :
    ∃ map', update map q f = some map' ∧ Painted map map' (q * w + l) (q * w + l + n) v := by
  refine ⟨map.modify q f, if_pos hq, List.length_modify f map q, fun i => ?_⟩
  by_cases hw : i / w = q
  · have hi := div_mul_add_mod (w := w) i
    rw [hw] at hi
    have hj := Nat.mod_lt i hpos
    have hiff : (l ≤ i % w ∧ i % w < l + n) ↔ (q * w + l ≤ i ∧ i < q * w + l + n) := by omega
    simp only [bit, hw, List.getD_eq_getElem?_getD, List.getElem?_modify_eq,
      List.getElem?_eq_getElem hq, Option.map_eq_map, Option.map_some, Option.getD_some,
      hf _ _ hj, hiff]
  · have hout : ¬ (q * w + l ≤ i ∧ i < q * w + l + n) := by
      intro h
      exact hw (div_eq_of_bounds (by omega) (by omega))
    have hne : q ≠ i / w := fun h => hw h.symm
    rw [if_neg hout, bit, bit, List.getD_eq_getElem?_getD, List.getD_eq_getElem?_getD,
      List.getElem?_modify_ne f map hne]

/-- A row is fixed by its length and its bits. -/
theorem ext_bit {map map' : Words w} (hl : map'.length = map.length)
    (h : ∀ i, bit map' i = bit map i) : map' = map := by
  apply List.ext_getElem hl
  intro q hq hq'
  apply BitVec.eq_of_getLsbD_eq
  intro j hj
  have hb := h (q * w + j)
  rw [bit_at hj, bit_at hj, List.getD_eq_getElem?_getD, List.getD_eq_getElem?_getD,
    List.getElem?_eq_getElem hq, List.getElem?_eq_getElem hq'] at hb
  exact hb

end Bitmap
