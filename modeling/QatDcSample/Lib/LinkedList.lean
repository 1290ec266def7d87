import Mathlib.Logic.Function.Basic

/-!
# Linked lists in a memory

`Linked next p l`: the nodes from `p` on, each linked to the one after it by `next`, are
those of `l`, and the last one is linked to nothing.
-/

namespace LinkedList

variable {B : Type}

def Linked (next : B → Option B) : Option B → List B → Prop
  | p, [] => p = none
  | p, b :: l => p = some b ∧ Linked next (next b) l

variable {next : B → Option B} {p : Option B} {b : B} {l : List B}

theorem Linked.eq_nil (h : Linked next none l) : l = [] := by
  cases l with
  | nil => rfl
  | cons x l => cases h.1

theorem Linked.eq_cons (h : Linked next (some b) l) :
    ∃ rest, l = b :: rest ∧ Linked next (next b) rest := by
  cases l with
  | nil => cases h
  | cons x l =>
    obtain ⟨hb, hl⟩ := h
    cases hb
    exact ⟨l, rfl, hl⟩

theorem Linked.update [DecidableEq B] {v : Option B} (hb : b ∉ l) (h : Linked next p l) :
    Linked (Function.update next b v) p l := by
  induction l generalizing p with
  | nil => exact h
  | cons x l ih =>
    obtain ⟨hp, hl⟩ := h
    rw [List.mem_cons, not_or] at hb
    refine ⟨hp, ?_⟩
    rw [Function.update_of_ne (fun he => hb.1 he.symm)]
    exact ih hb.2 hl

end LinkedList
