import Mathlib.Data.List.Basic
import Mathlib.Logic.Function.Basic

/-!
# A log written round a ring of slots

Slots of `size` bytes, `n` of them, reused in turn. A log is written into the slots,
entry `i` into slot `i` modulo `n`; a reader has taken the entries before `a`. What the
reader has not taken is intact as long as the log is less than one round ahead of it.
-/

namespace Ring

variable {α : Type}

/-- The offset of entry `i`. -/
def slot (n size i : ℕ) : ℕ := i % n * size

theorem slot_eq_iff {n size : ℕ} (hsize : 0 < size) (i j : ℕ) :
    slot n size i = slot n size j ↔ i % n = j % n := by
  unfold slot
  exact Nat.mul_left_inj (Nat.ne_of_gt hsize)

/-- Entries less than one round apart have slots of their own. -/
theorem slot_ne {n size i j : ℕ} (hsize : 0 < size) (hij : i < j) (hn : j < i + n) :
    slot n size i ≠ slot n size j := by
  intro he
  rw [slot_eq_iff hsize] at he
  have hd : (j - i) % n = 0 := Nat.sub_mod_eq_zero_of_mod_eq he.symm
  rw [Nat.mod_eq_of_lt (by omega)] at hd
  omega

theorem slot_round (n size i : ℕ) : slot n size (i + n) = slot n size i := by
  unfold slot
  rw [Nat.add_mod_right]

/-- The next slot, by a step that wraps at the end of the ring. -/
theorem slot_succ {n size : ℕ} (hn : 0 < n) (i : ℕ) :
    (slot n size i + size) % (n * size) = slot n size (i + 1) := by
  have hlt := Nat.mod_lt i hn
  unfold slot
  have he : i % n * size + size = (i % n + 1) * size := by rw [Nat.add_mul, Nat.one_mul]
  rw [he, Nat.mul_mod_mul_right, Nat.mod_add_mod]

/-- The entries from `a` on are in their slots. -/
def Window (n size : ℕ) (mem : ℕ → Option α) (log : List α) (a : ℕ) : Prop :=
  ∀ i, a ≤ i → i < log.length → mem (slot n size i) = log[i]?

/-- The slots that no entry from `a` on is in are empty. -/
def Clear (n size : ℕ) (mem : ℕ → Option α) (log : List α) (a : ℕ) : Prop :=
  ∀ i, log.length ≤ i → i < a + n → mem (slot n size i) = none

variable {n size a : ℕ} {mem : ℕ → Option α} {log : List α}

theorem window_nil (n size a : ℕ) (mem : ℕ → Option α) : Window n size mem [] a := by
  intro i _ hi
  exact absurd hi (Nat.not_lt_zero i)

theorem Window.head (h : Window n size mem log a) (ha : a < log.length) :
    mem (slot n size a) = some log[a] := by
  rw [h a (Nat.le_refl a) ha, List.getElem?_eq_getElem ha]

theorem Window.take (h : Window n size mem log a) : Window n size mem log (a + 1) := by
  intro i hi hl
  exact h i (by omega) hl

/-- An entry written ahead of the log touches none of those not taken. -/
theorem Window.ahead (h : Window n size mem log a) (hsize : 0 < size) (hroom : log.length < a + n)
    (v : Option α) :
    Window n size (Function.update mem (slot n size log.length) v) log a := by
  intro i hi hl
  have hne : slot n size i ≠ slot n size log.length := slot_ne hsize hl (by omega)
  rw [Function.update_of_ne hne]
  exact h i hi hl

/-- An entry that is in its slot already joins the log. -/
theorem Window.publish (h : Window n size mem log a) {x : α}
    (hx : mem (slot n size log.length) = some x) : Window n size mem (log ++ [x]) a := by
  intro i hi hl
  rw [List.length_append, List.length_singleton] at hl
  by_cases hlast : i < log.length
  · rw [List.getElem?_append_left hlast]
    exact h i hi hlast
  · have he : i = log.length := by omega
    rw [he, hx, List.getElem?_concat_length]

theorem Window.push (h : Window n size mem log a) (hsize : 0 < size) (hroom : log.length < a + n)
    (x : α) :
    Window n size (Function.update mem (slot n size log.length) (some x)) (log ++ [x]) a :=
  (h.ahead hsize hroom (some x)).publish (Function.update_self ..)

/-- The slot of an entry taken is free for the entry one round later. -/
theorem Window.mark (h : Window n size mem log (a + 1)) (hsize : 0 < size)
    (hroom : log.length ≤ a + n) (v : Option α) :
    Window n size (Function.update mem (slot n size a) v) log (a + 1) := by
  intro i hi hl
  have hne : slot n size i ≠ slot n size a := (slot_ne hsize hi (by omega)).symm
  rw [Function.update_of_ne hne]
  exact h i hi hl

theorem Clear.push (h : Clear n size mem log a) (hsize : 0 < size) (ha : a ≤ log.length) (x : α) :
    Clear n size (Function.update mem (slot n size log.length) (some x)) (log ++ [x]) a := by
  intro i hi hl
  rw [List.length_append, List.length_singleton] at hi
  have hne : slot n size i ≠ slot n size log.length := (slot_ne hsize hi (by omega)).symm
  rw [Function.update_of_ne hne]
  exact h i (by omega) hl

/-- A slot marked empty when its entry was taken. -/
theorem Clear.mark (h : Clear n size mem log a) :
    Clear n size (Function.update mem (slot n size a) none) log (a + 1) := by
  intro i hi hl
  by_cases he : slot n size i = slot n size a
  · rw [he, Function.update_self]
  · rw [Function.update_of_ne he]
    by_cases hlast : i = a + n
    · rw [hlast, slot_round] at he
      exact absurd rfl he
    · exact h i hi (by omega)

end Ring
