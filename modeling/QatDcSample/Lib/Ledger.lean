import Mathlib.Data.List.Count
import Mathlib.Data.List.Nodup
import Mathlib.Data.List.Perm.Basic

/-!
# Ledgers of resources

What was acquired and what was released, newest first. A ledger is exact when every
resource acquired was released once and nothing else was released; `Owes` says which
resources are missing for that.
-/

structure Ledger (ρ : Type) where
  acquired : List ρ
  released : List ρ

namespace Ledger

variable {ρ : Type}

def empty : Ledger ρ := ⟨[], []⟩

def acquire (L : Ledger ρ) (x : ρ) : Ledger ρ := { L with acquired := x :: L.acquired }

def release (L : Ledger ρ) (x : ρ) : Ledger ρ := { L with released := x :: L.released }

/-- No resource was acquired twice, and `out` lists those not released so far. -/
structure Owes (L : Ledger ρ) (out : List ρ) : Prop where
  nodup : L.acquired.Nodup
  perm : (out ++ L.released).Perm L.acquired

theorem owes_empty : (empty : Ledger ρ).Owes [] := ⟨List.nodup_nil, .refl []⟩

variable {L : Ledger ρ} {out out' : List ρ} {x : ρ}

theorem Owes.acquire (h : L.Owes out) (hx : x ∉ L.acquired) : (L.acquire x).Owes (x :: out) :=
  ⟨List.nodup_cons.mpr ⟨hx, h.nodup⟩, h.perm.cons x⟩

theorem Owes.release (h : L.Owes (x :: out)) : (L.release x).Owes out :=
  ⟨h.nodup, List.perm_middle.trans h.perm⟩

theorem Owes.reorder (h : L.Owes out) (hp : out.Perm out') : L.Owes out' :=
  ⟨h.nodup, (hp.symm.append_right L.released).trans h.perm⟩

theorem Owes.mem (h : L.Owes out) (hx : x ∈ out) : x ∈ L.acquired :=
  h.perm.subset (List.mem_append_left _ hx)

variable [DecidableEq ρ]

/-- Everything acquired was released exactly once, and nothing else was. -/
def Exact (L : Ledger ρ) : Prop :=
  (∀ x ∈ L.acquired, L.released.count x = 1) ∧ ∀ x ∈ L.released, x ∈ L.acquired

instance (L : Ledger ρ) : Decidable L.Exact := inferInstanceAs (Decidable (_ ∧ _))

theorem Owes.exact_iff (h : L.Owes out) : L.Exact ↔ out = [] := by
  constructor
  · intro hexact
    by_contra hne
    obtain ⟨x, hx⟩ := List.exists_mem_of_ne_nil out hne
    have hone := hexact.1 x (h.mem hx)
    have hsum := h.perm.count_eq x
    rw [List.count_append, List.count_eq_one_of_mem h.nodup (h.mem hx)] at hsum
    have hpos := List.count_pos_iff.mpr hx
    omega
  · rintro rfl
    have hperm : L.released.Perm L.acquired := h.perm
    refine ⟨fun x hx => ?_, fun x hx => hperm.subset hx⟩
    rw [hperm.count_eq x]
    exact List.count_eq_one_of_mem h.nodup hx

end Ledger
