import Mathlib.Data.Nat.Notation
import Mathlib.Tactic.Common

/-!
# Radix tables

A table of fixed depth over numbered places: each level chooses one of `fanout`
slots by one digit of the place, the last holds values. A table below a slot is
made when a store first needs it, which may fail; the store is then dropped.
-/

namespace Radix

variable {fanout : ℕ} {V : Type}

/-- The number of places below a slot of level `n`. -/
def span (fanout : ℕ) : ℕ → ℕ
  | 0 => 1
  | n + 1 => span fanout n * fanout

def Level (V : Type) : ℕ → Type
  | 0 => ℕ → V
  | n + 1 => ℕ → Option (Level V n)

def value (level : Level V 0) (i : ℕ) : V := level i

def setValue (level : Level V 0) (i : ℕ) (v : V) : Level V 0 :=
  fun j => if j = i then v else value level j

def slot {n : ℕ} (level : Level V (n + 1)) (i : ℕ) : Option (Level V n) := level i

def setSlot {n : ℕ} (level : Level V (n + 1)) (i : ℕ) (next : Level V n) : Level V (n + 1) :=
  fun j => if j = i then some next else slot level j

def emptyLevel (default : V) : (n : ℕ) → Level V n
  | 0 => fun _ => default
  | _ + 1 => fun _ => none

@[simp] theorem value_setValue (level : Level V 0) (i j : ℕ) (v : V) :
    value (setValue level i v) j = if j = i then v else value level j := rfl

@[simp] theorem slot_setSlot {n : ℕ} (level : Level V (n + 1)) (i j : ℕ) (next : Level V n) :
    slot (setSlot level i next) j = if j = i then some next else slot level j := rfl

/-- The slot of level `n` that the place `p` goes through. -/
def digit (fanout n p : ℕ) : ℕ := p / span fanout n % fanout

/-- The table under a slot, made if it is missing and `granted`. -/
def nextLevel (default : V) {n : ℕ} (slot : Option (Level V n)) (granted : Bool) :
    Option (Level V n) :=
  match slot with
  | some old => some old
  | none => if granted then some (emptyLevel default n) else none

def store (fanout : ℕ) (default : V) : (n : ℕ) → Level V n → ℕ → V → (ℕ → Bool) → Level V n
  | 0, level, p, v, _ => setValue level (digit fanout 0 p) v
  | n + 1, level, p, v, granted =>
      match nextLevel default (slot level (digit fanout (n + 1) p)) (granted n) with
      | none => level
      | some next =>
          setSlot level (digit fanout (n + 1) p) (store fanout default n next p v granted)

def load (fanout : ℕ) : (n : ℕ) → Level V n → ℕ → Option V
  | 0, level, p => some (value level (digit fanout 0 p))
  | n + 1, level, p =>
      match slot level (digit fanout (n + 1) p) with
      | none => none
      | some next => load fanout n next p

/-- The value of a place; a missing table stands for `default` throughout. -/
def entry (fanout : ℕ) (default : V) (n : ℕ) (level : Level V n) (p : ℕ) : V :=
  (load fanout n level p).getD default

/-- Every table that the place needs is there or would be granted. -/
def Granted (fanout : ℕ) : (n : ℕ) → Level V n → ℕ → (ℕ → Bool) → Prop
  | 0, _, _, _ => True
  | n + 1, level, p, granted =>
      match slot level (digit fanout (n + 1) p) with
      | none => ∀ k ≤ n, granted k = true
      | some next => Granted fanout n next p granted

theorem granted_of_all (n : ℕ) (level : Level V n) (p : ℕ) {granted : ℕ → Bool}
    (h : ∀ k, granted k = true) : Granted fanout n level p granted := by
  induction n with
  | zero => trivial
  | succ n ih =>
    unfold Granted
    cases slot level (digit fanout (n + 1) p) with
    | none => exact fun k _ => h k
    | some next => exact ih next

theorem granted_empty (default : V) (n p : ℕ) {granted : ℕ → Bool} :
    Granted fanout n (emptyLevel default n) p granted ↔ ∀ k < n, granted k = true := by
  cases n with
  | zero => exact ⟨fun _ k hk => by omega, fun _ => trivial⟩
  | succ n => exact ⟨fun h k hk => h k (by omega), fun h k hk => h k (by omega)⟩

theorem entry_empty (default : V) (n p : ℕ) :
    entry fanout default n (emptyLevel default n) p = default := by
  cases n with
  | zero => rfl
  | succ n => rfl

/-- The value of a place, one level down. -/
theorem entry_succ (default : V) (n : ℕ) (level : Level V (n + 1)) (p : ℕ) :
    entry fanout default (n + 1) level p = entry fanout default n
      ((slot level (digit fanout (n + 1) p)).getD (emptyLevel default n)) p := by
  cases hs : slot level (digit fanout (n + 1) p) with
  | none =>
    rw [Option.getD_none, entry_empty, entry, load, hs]
    rfl
  | some next =>
    rw [Option.getD_some, entry, load, hs]
    rfl

/-- Two places that agree below level `n + 1` agree in its digit and below level `n`. -/
theorem mod_span_succ {n p q : ℕ} :
    p % span fanout (n + 1) = q % span fanout (n + 1) ↔
      digit fanout n p = digit fanout n q ∧ p % span fanout n = q % span fanout n := by
  have hp := Nat.mod_mul (a := span fanout n) (b := fanout) (x := p)
  have hq := Nat.mod_mul (a := span fanout n) (b := fanout) (x := q)
  unfold digit
  rw [span, hp, hq]
  constructor
  · intro h
    by_cases hs : span fanout n = 0
    · simp only [hs, Nat.mod_zero, Nat.zero_mul, Nat.add_zero] at h
      subst h
      exact ⟨rfl, rfl⟩
    · have hlow : p % span fanout n = q % span fanout n := by
        have hm := congrArg (· % span fanout n) h
        simpa [Nat.add_mul_mod_self_left] using hm
      rw [hlow] at h
      exact ⟨Nat.eq_of_mul_eq_mul_left (by omega) (Nat.add_left_cancel h), hlow⟩
  · intro h
    rw [h.1, h.2]

/-- The table a store works in below a slot that is missing or there. -/
theorem nextLevel_cases (default : V) {n : ℕ} (s : Option (Level V n)) (granted : Bool) :
    nextLevel default s granted = some (s.getD (emptyLevel default n)) ∨
      s = none ∧ granted = false ∧ nextLevel default s granted = none := by
  cases s with
  | some old => exact .inl rfl
  | none =>
    cases granted with
    | true => exact .inl rfl
    | false => exact .inr ⟨rfl, rfl, rfl⟩

/-- A store changes the value of its own place only. -/
theorem entry_store_other (default : V) (n : ℕ) :
    ∀ (level : Level V n) (p q : ℕ) (v : V) (granted : ℕ → Bool),
      p % span fanout (n + 1) ≠ q % span fanout (n + 1) →
      entry fanout default n (store fanout default n level p v granted) q =
        entry fanout default n level q := by
  induction n with
  | zero =>
    intro level p q v granted hne
    have hd : digit fanout 0 q ≠ digit fanout 0 p := by
      intro h
      exact hne (mod_span_succ.mpr ⟨h.symm, by simp [span, Nat.mod_one]⟩)
    simp only [entry, store, load, value_setValue, if_neg hd]
  | succ n ih =>
    intro level p q v granted hne
    obtain hnext | ⟨_, _, hnext⟩ :=
      nextLevel_cases default (slot level (digit fanout (n + 1) p)) (granted n)
    · rw [store, hnext, entry_succ, entry_succ, slot_setSlot]
      by_cases hd : digit fanout (n + 1) q = digit fanout (n + 1) p
      · rw [if_pos hd, Option.getD_some, hd]
        apply ih
        intro h
        exact hne (mod_span_succ.mpr ⟨hd.symm, h⟩)
      · rw [if_neg hd]
    · rw [store, hnext]

/-- A store whose tables are all granted is found again. -/
theorem load_store_self (default : V) (n : ℕ) :
    ∀ (level : Level V n) (p q : ℕ) (v : V) (granted : ℕ → Bool),
      Granted fanout n level p granted → p % span fanout (n + 1) = q % span fanout (n + 1) →
      load fanout n (store fanout default n level p v granted) q = some v := by
  induction n with
  | zero =>
    intro level p q v granted _ heq
    rw [store, load, value_setValue, if_pos (mod_span_succ.mp heq).1.symm]
  | succ n ih =>
    intro level p q v granted hg heq
    obtain ⟨hd, hlow⟩ := mod_span_succ.mp heq
    unfold Granted at hg
    have hbelow : Granted fanout n
        ((slot level (digit fanout (n + 1) p)).getD (emptyLevel default n)) p granted := by
      cases hs : slot level (digit fanout (n + 1) p) with
      | none =>
        rw [hs] at hg
        exact (granted_empty default n p).mpr fun k hk => hg k (Nat.le_of_lt hk)
      | some next =>
        rw [hs] at hg
        exact hg
    obtain hnext | ⟨hs, hno, _⟩ :=
      nextLevel_cases default (slot level (digit fanout (n + 1) p)) (granted n)
    · rw [store, hnext, load, slot_setSlot, if_pos hd.symm]
      exact ih _ p q v granted hbelow hlow
    · rw [hs] at hg
      have hyes := hg n (Nat.le_refl n)
      rw [hno] at hyes
      cases hyes

/-- A store with a table missing that is not granted changes no value. -/
theorem entry_store_dropped (default : V) (n : ℕ) :
    ∀ (level : Level V n) (p : ℕ) (v : V) (granted : ℕ → Bool),
      ¬ Granted fanout n level p granted →
      ∀ q, entry fanout default n (store fanout default n level p v granted) q =
        entry fanout default n level q := by
  induction n with
  | zero =>
    intro level p v granted hg
    exact absurd trivial hg
  | succ n ih =>
    intro level p v granted hg q
    obtain hnext | ⟨_, _, hnext⟩ :=
      nextLevel_cases default (slot level (digit fanout (n + 1) p)) (granted n)
    · have hbelow : ¬ Granted fanout n
          ((slot level (digit fanout (n + 1) p)).getD (emptyLevel default n)) p granted := by
        intro h
        apply hg
        unfold Granted
        cases hs : slot level (digit fanout (n + 1) p) with
        | none =>
          rw [hs] at h hnext
          intro k hk
          rcases Nat.lt_or_eq_of_le hk with hlt | rfl
          · exact (granted_empty default n p).mp h k hlt
          · by_contra hno
            simp [nextLevel, hno] at hnext
        | some next =>
          rw [hs] at h
          exact h
      rw [store, hnext, entry_succ, entry_succ, slot_setSlot]
      by_cases hd : digit fanout (n + 1) q = digit fanout (n + 1) p
      · rw [if_pos hd, Option.getD_some, hd]
        exact ih _ p v granted hbelow q
      · rw [if_neg hd]
    · rw [store, hnext]

/-- The tables on the way to a value are there, so a store to its place needs none. -/
theorem granted_of_load (n : ℕ) :
    ∀ (level : Level V n) (p : ℕ) (granted : ℕ → Bool),
      (load fanout n level p).isSome = true → Granted fanout n level p granted := by
  induction n with
  | zero =>
    intro level p granted _
    trivial
  | succ n ih =>
    intro level p granted h
    unfold Granted
    rw [load] at h
    cases hs : slot level (digit fanout (n + 1) p) with
    | none =>
      rw [hs] at h
      cases h
    | some next =>
      rw [hs] at h
      exact ih next p granted h

/-- No store takes a table away. -/
theorem load_store_isSome (default : V) (n : ℕ) :
    ∀ (level : Level V n) (p q : ℕ) (v : V) (granted : ℕ → Bool),
      (load fanout n level q).isSome = true →
      (load fanout n (store fanout default n level p v granted) q).isSome = true := by
  induction n with
  | zero =>
    intro level p q v granted _
    rfl
  | succ n ih =>
    intro level p q v granted h
    obtain hnext | ⟨_, _, hnext⟩ :=
      nextLevel_cases default (slot level (digit fanout (n + 1) p)) (granted n)
    · rw [store, hnext, load, slot_setSlot]
      rw [load] at h
      by_cases hd : digit fanout (n + 1) q = digit fanout (n + 1) p
      · rw [if_pos hd]
        rw [hd] at h
        apply ih
        cases hs : slot level (digit fanout (n + 1) p) with
        | none =>
          rw [hs] at h
          cases h
        | some next =>
          rw [hs] at h
          exact h
      · rw [if_neg hd]
        exact h
    · rw [store, hnext]
      exact h

end Radix
