import Mathlib.Logic.Function.Basic
import Mathlib.Data.Nat.Notation

/-!
# Block memory

A memory of named blocks. A block occupies a region of addresses, belongs to the
party that allocated it, and holds values of type `V` in fields `F` (`none` is a
field that was never stored to). Names are never used again, addresses may be:
the one thing assumed of the allocator is that a new block's region is disjoint
from those of the blocks alive.
-/

namespace BlockMemory

structure Region where
  base : ℕ
  size : ℕ
  deriving DecidableEq

def Region.Disjoint (a b : Region) : Prop :=
  a.base + a.size ≤ b.base ∨ b.base + b.size ≤ a.base

instance (a b : Region) : Decidable (a.Disjoint b) :=
  inferInstanceAs (Decidable (_ ∨ _))

theorem Region.Disjoint.symm {a b : Region} (h : a.Disjoint b) : b.Disjoint a := Or.symm h

structure Block (τ F V : Type) where
  region : Region
  owner : τ
  live : Bool
  cells : F → Option V

/-- The blocks named so far are `0 .. next-1`. -/
structure Memory (τ F V : Type) where
  next : ℕ
  block : ℕ → Block τ F V

namespace Memory

variable {τ F V : Type}

def Live (m : Memory τ F V) (b : ℕ) : Prop := b < m.next ∧ (m.block b).live = true

instance (m : Memory τ F V) (b : ℕ) : Decidable (m.Live b) :=
  inferInstanceAs (Decidable (_ ∧ _))

/-- The block name and address the allocator may answer with. -/
def Fresh (m : Memory τ F V) (b : ℕ) (region : Region) : Prop :=
  b = m.next ∧ ∀ b' < m.next, (m.block b').live = true → region.Disjoint (m.block b').region

instance (m : Memory τ F V) (b : ℕ) (region : Region) : Decidable (m.Fresh b region) :=
  inferInstanceAs (Decidable (_ ∧ _))

def alloc (m : Memory τ F V) (owner : τ) (region : Region) : Memory τ F V where
  next := m.next + 1
  block := Function.update m.block m.next ⟨region, owner, true, fun _ => none⟩

/-- Release; of a block that is not alive it has no effect. -/
def free (m : Memory τ F V) (b : ℕ) : Memory τ F V where
  next := m.next
  block := Function.update m.block b { m.block b with live := false }

def read (m : Memory τ F V) (b : ℕ) (f : F) : Option V :=
  if m.Live b then (m.block b).cells f else none

def write [DecidableEq F] (m : Memory τ F V) (b : ℕ) (f : F) (v : V) : Memory τ F V where
  next := m.next
  block := Function.update m.block b
    { m.block b with cells := Function.update (m.block b).cells f (some v) }

theorem alloc_block_new (m : Memory τ F V) (o : τ) (r : Region) :
    (m.alloc o r).block m.next = ⟨r, o, true, fun _ => none⟩ := by
  simp [alloc]

theorem alloc_block_old (m : Memory τ F V) (o : τ) (r : Region) {b : ℕ} (h : b < m.next) :
    (m.alloc o r).block b = m.block b := by
  have hne : b ≠ m.next := by omega
  simp [alloc, hne]

theorem free_block_other (m : Memory τ F V) {b b' : ℕ} (h : b' ≠ b) :
    (m.free b).block b' = m.block b' := by
  simp [free, h]

@[simp] theorem free_region (m : Memory τ F V) (b b' : ℕ) :
    ((m.free b).block b').region = (m.block b').region := by
  by_cases h : b' = b
  · subst h
    simp [free]
  · rw [free_block_other m h]

@[simp] theorem free_owner (m : Memory τ F V) (b b' : ℕ) :
    ((m.free b).block b').owner = (m.block b').owner := by
  by_cases h : b' = b
  · subst h
    simp [free]
  · rw [free_block_other m h]

@[simp] theorem write_region [DecidableEq F] (m : Memory τ F V) (b b' : ℕ) (f : F) (v : V) :
    ((m.write b f v).block b').region = (m.block b').region := by
  by_cases h : b' = b
  · subst h
    simp [write]
  · simp [write, h]

@[simp] theorem write_owner [DecidableEq F] (m : Memory τ F V) (b b' : ℕ) (f : F) (v : V) :
    ((m.write b f v).block b').owner = (m.block b').owner := by
  by_cases h : b' = b
  · subst h
    simp [write]
  · simp [write, h]

@[simp] theorem write_live [DecidableEq F] (m : Memory τ F V) (b b' : ℕ) (f : F) (v : V) :
    (m.write b f v).Live b' ↔ m.Live b' := by
  by_cases h : b' = b
  · subst h
    simp [Live, write]
  · simp [Live, write, h]

theorem live_alloc (m : Memory τ F V) (o : τ) (r : Region) (b : ℕ) :
    (m.alloc o r).Live b ↔ m.Live b ∨ b = m.next := by
  by_cases h : b = m.next
  · subst h
    simp [Live, alloc]
  · have hlt : b < m.next + 1 ↔ b < m.next := by omega
    simp [Live, alloc, h, hlt]

theorem live_free (m : Memory τ F V) (b b' : ℕ) :
    (m.free b).Live b' ↔ m.Live b' ∧ b' ≠ b := by
  by_cases h : b' = b
  · subst h
    simp [Live, free]
  · simp [Live, free, h]

/-! ### Reading -/

theorem live_of_read {m : Memory τ F V} {b : ℕ} {f : F} {v : V} (h : m.read b f = some v) :
    m.Live b := by
  by_contra hdead
  simp [read, hdead] at h

theorem read_dead {m : Memory τ F V} {b : ℕ} (h : ¬ m.Live b) (f : F) : m.read b f = none :=
  if_neg h

@[simp] theorem read_alloc (m : Memory τ F V) (o : τ) (r : Region) (b : ℕ) (f : F) :
    (m.alloc o r).read b f = m.read b f := by
  by_cases hb : b < m.next
  · have hlive : (m.alloc o r).Live b ↔ m.Live b := by
      rw [live_alloc, or_iff_left (Nat.ne_of_lt hb)]
    simp only [read, hlive, alloc_block_old m o r hb]
  · have hdead : ¬ m.Live b := fun h => hb h.1
    rw [read_dead hdead]
    by_cases he : b = m.next
    · subst he
      simp [read, alloc_block_new]
    · exact read_dead (fun h => ((m.live_alloc o r b).mp h).elim hdead he) f

theorem read_free_other (m : Memory τ F V) {b b' : ℕ} (h : b ≠ b') (f : F) :
    (m.free b').read b f = m.read b f := by
  have hlive : (m.free b').Live b ↔ m.Live b := by
    rw [live_free, and_iff_left h]
  simp only [read, hlive, free_block_other m h]

theorem read_free_self (m : Memory τ F V) (b : ℕ) (f : F) : (m.free b).read b f = none :=
  read_dead (fun h => ((m.live_free b b).mp h).2 rfl) f

theorem read_write_self [DecidableEq F] {m : Memory τ F V} {b : ℕ} (h : m.Live b) (f : F) (v : V) :
    (m.write b f v).read b f = some v := by
  rw [read, if_pos ((m.write_live b b f v).mpr h)]
  simp [write]

theorem read_write_other [DecidableEq F] (m : Memory τ F V) {b b' : ℕ} {f f' : F}
    (h : b = b' → f ≠ f') (v : V) : (m.write b' f' v).read b f = m.read b f := by
  simp only [read, write_live]
  by_cases hb : b = b'
  · subst hb
    simp [write, h rfl]
  · simp [write, hb]

/-- Blocks alive at the same time occupy disjoint regions. -/
def Separated (m : Memory τ F V) : Prop :=
  ∀ b b', m.Live b → m.Live b' → b ≠ b' → (m.block b).region.Disjoint (m.block b').region

theorem separated_alloc {m : Memory τ F V} (h : m.Separated) {o : τ} {b₀ : ℕ} {r : Region}
    (hf : m.Fresh b₀ r) : (m.alloc o r).Separated := by
  intro b b' hb hb' hne
  rw [live_alloc] at hb hb'
  rcases hb with hb | rfl
  · rw [alloc_block_old m o r hb.1]
    rcases hb' with hb' | rfl
    · rw [alloc_block_old m o r hb'.1]
      exact h b b' hb hb' hne
    · rw [alloc_block_new]
      exact (hf.2 b hb.1 hb.2).symm
  · rw [alloc_block_new]
    rcases hb' with hb' | hb'
    · rw [alloc_block_old m o r hb'.1]
      exact hf.2 b' hb'.1 hb'.2
    · exact absurd hb'.symm hne

/-- The allocator always has an answer: the addresses above all those in use. -/
theorem exists_fresh (m : Memory τ F V) (size : ℕ) : ∃ base, m.Fresh m.next ⟨base, size⟩ := by
  have hbound : ∀ n, ∃ top, ∀ b < n, (m.block b).region.base + (m.block b).region.size ≤ top := by
    intro n
    induction n with
    | zero => exact ⟨0, fun b hb => absurd hb (Nat.not_lt_zero b)⟩
    | succ n ih =>
      obtain ⟨top, htop⟩ := ih
      refine ⟨top + ((m.block n).region.base + (m.block n).region.size), fun b hb => ?_⟩
      rcases Nat.lt_succ_iff_lt_or_eq.mp hb with hb | rfl
      · have := htop b hb
        omega
      · omega
  obtain ⟨top, htop⟩ := hbound m.next
  exact ⟨top, rfl, fun b hb _ => .inr (htop b hb)⟩

theorem separated_free {m : Memory τ F V} (h : m.Separated) (b₀ : ℕ) :
    (m.free b₀).Separated := by
  intro b b' hb hb' hne
  rw [live_free] at hb hb'
  rw [free_region, free_region]
  exact h b b' hb.1 hb'.1 hne

theorem separated_write [DecidableEq F] {m : Memory τ F V} (h : m.Separated) (b₀ : ℕ) (f : F)
    (v : V) : (m.write b₀ f v).Separated := by
  intro b b' hb hb' hne
  rw [write_live] at hb hb'
  rw [write_region, write_region]
  exact h b b' hb hb' hne

end Memory

end BlockMemory
