import Mathlib.Data.Nat.Notation

/-!
# Sums over the threads of a system

`tally f l` adds up what `f` counts of each thread. A step that changes one thread leaves
the parts of the others.
-/

namespace Tally

variable {A : Type}

def tally (f : A → ℕ) : List A → ℕ
  | [] => 0
  | x :: l => f x + tally f l

theorem tally_split (f : A → ℕ) (before : List A) (x : A) (after : List A) :
    tally f (before ++ x :: after) = tally f before + (f x + tally f after) := by
  induction before with
  | nil => simp only [List.nil_append, tally, Nat.zero_add]
  | cons y before ih => simp only [List.cons_append, tally, ih, Nat.add_assoc]

theorem tally_zero {f : A → ℕ} {l : List A} (h : ∀ x ∈ l, f x = 0) : tally f l = 0 := by
  induction l with
  | nil => rfl
  | cons x l ih =>
    rw [tally, h x (List.mem_cons_self ..), ih fun y hy => h y (List.mem_cons_of_mem _ hy)]

theorem le_tally {f : A → ℕ} {l : List A} {x : A} (hx : x ∈ l) : f x ≤ tally f l := by
  induction l with
  | nil => cases hx
  | cons y l ih =>
    rw [tally]
    obtain rfl | hx := List.mem_cons.mp hx
    · exact Nat.le_add_right ..
    · exact Nat.le_trans (ih hx) (Nat.le_add_left ..)

end Tally
