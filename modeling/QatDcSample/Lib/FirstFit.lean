import Mathlib.Data.Nat.Notation
import Mathlib.Tactic.Common

/-!
# Aligned first fit

A row of cells of which some are free, and the places where a stretch of `need`
free cells starts below `limit` on an alignment (0 asks for none).
-/

namespace FirstFit

def Aligned (align s : ℕ) : Prop := align ≠ 0 → s % align = 0

instance (align s : ℕ) : Decidable (Aligned align s) := inferInstanceAs (Decidable (_ → _))

structure Fit (free : ℕ → Prop) (limit need align s : ℕ) : Prop where
  aligned : Aligned align s
  inside : s + need ≤ limit
  free : ∀ i, s ≤ i → i < s + need → free i

/-- The fit that starts lowest. -/
structure First (free : ℕ → Prop) (limit need align s : ℕ) : Prop where
  fit : Fit free limit need align s
  lowest : ∀ t, Fit free limit need align t → s ≤ t

/-- The least aligned position from `s` on. -/
def alignUp (align s : ℕ) : ℕ :=
  if align ≠ 0 ∧ s % align ≠ 0 then s + (align - s % align) else s

theorem le_alignUp (align s : ℕ) : s ≤ alignUp align s := by
  unfold alignUp
  split <;> omega

theorem aligned_alignUp (align s : ℕ) : Aligned align (alignUp align s) := by
  intro ha
  unfold alignUp
  split
  · have hlt : s % align < align := Nat.mod_lt s (by omega)
    have hs := Nat.div_add_mod s align
    have he : s + (align - s % align) = align * (s / align + 1) := by
      rw [Nat.mul_add, Nat.mul_one]
      omega
    rw [he]
    exact Nat.mul_mod_right align _
  · next h =>
    by_contra hne
    exact h ⟨ha, hne⟩

theorem alignUp_le {align s t : ℕ} (ht : Aligned align t) (h : s ≤ t) : alignUp align s ≤ t := by
  unfold alignUp
  split
  · next hs =>
    have hlt : s % align < align := Nat.mod_lt s (by omega)
    have hds := Nat.div_add_mod s align
    have hdt := Nat.div_add_mod t align
    have ht0 := ht hs.1
    have hq : s / align + 1 ≤ t / align := by
      have hle : s / align ≤ t / align := Nat.div_le_div_right h
      by_contra hq
      have heq : t / align = s / align := by omega
      rw [heq] at hdt
      omega
    have hm : align * (s / align + 1) ≤ align * (t / align) := Nat.mul_le_mul_left align hq
    rw [Nat.mul_add, Nat.mul_one] at hm
    omega
  · exact h

variable {free : ℕ → Prop} {limit need align : ℕ}

theorem Fit.congr {free' : ℕ → Prop} {s : ℕ} (hfree : ∀ i, i < limit → (free i ↔ free' i)) :
    Fit free limit need align s ↔ Fit free' limit need align s := by
  constructor
  · intro h
    have hin := h.inside
    exact ⟨h.aligned, hin, fun i hi hn => (hfree i (by omega)).mp (h.free i hi hn)⟩
  · intro h
    have hin := h.inside
    exact ⟨h.aligned, hin, fun i hi hn => (hfree i (by omega)).mpr (h.free i hi hn)⟩

theorem First.congr {free' : ℕ → Prop} {s : ℕ} (hfree : ∀ i, i < limit → (free i ↔ free' i)) :
    First free limit need align s ↔ First free' limit need align s := by
  constructor
  · intro h
    exact ⟨(Fit.congr hfree).mp h.fit, fun t ht => h.lowest t ((Fit.congr hfree).mpr ht)⟩
  · intro h
    exact ⟨(Fit.congr hfree).mpr h.fit, fun t ht => h.lowest t ((Fit.congr hfree).mp ht)⟩

/-- A fit that does not start before `f`, with a taken cell less than `need` after
`f`, starts beyond that cell. -/
theorem Fit.beyond {s f p : ℕ} (h : Fit free limit need align s) (hf : f ≤ s)
    (hp : p < f + need) (hn : ¬ free p) : p < s := by
  by_contra hs
  exact hn (h.free p (by omega) (by omega))

/-- No fit starts inside a taken stretch. -/
theorem Fit.beyond_run {s p q : ℕ} (h : Fit free limit need align s) (hneed : 0 < need)
    (hp : p ≤ s) (hn : ∀ i, p ≤ i → i < q → ¬ free i) : q ≤ s := by
  by_contra hs
  exact hn s hp (by omega) (h.free s (by omega) (by omega))

end FirstFit
