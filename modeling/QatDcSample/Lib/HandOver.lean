import Mathlib.Data.List.Count
import Mathlib.Data.List.Nodup
import Mathlib.Data.Option.Basic

/-!
# Handing identifiers over through one variable

Several parties share one variable. Each of them at most once puts its identifier
there and later takes what the variable then holds; a party that fails to put spoils
the variable, and anything may be there afterwards. A history lists these events,
newest first. If no party puts or spoils while another one has put and not yet
taken, every identifier is taken exactly once, and the converse holds where nothing
that spoils is an identifier put before.
-/

namespace HandOver

inductive Event (ι : Type) where
  | put (i : ι)
  | spoil (x : Option ι)
  | take (i : ι) (x : Option ι)
  deriving DecidableEq

variable {ι : Type}

def puts : List (Event ι) → List ι
  | [] => []
  | .put i :: l => i :: puts l
  | .spoil _ :: l => puts l
  | .take _ _ :: l => puts l

def takers : List (Event ι) → List ι
  | [] => []
  | .put _ :: l => takers l
  | .spoil _ :: l => takers l
  | .take i _ :: l => i :: takers l

def taken : List (Event ι) → List (Option ι)
  | [] => []
  | .put _ :: l => taken l
  | .spoil _ :: l => taken l
  | .take _ x :: l => x :: taken l

/-- What the variable holds. -/
def slot : List (Event ι) → Option ι
  | [] => none
  | .put i :: _ => some i
  | .spoil x :: _ => x
  | .take _ _ :: l => slot l

/-- The party has put and not yet taken. -/
def Pending (l : List (Event ι)) (i : ι) : Prop := i ∈ puts l ∧ i ∉ takers l

def History : List (Event ι) → Prop
  | [] => True
  | .put i :: l => i ∉ puts l ∧ History l
  | .spoil _ :: l => History l
  | .take i x :: l => Pending l i ∧ x = slot l ∧ History l

def Settled (l : List (Event ι)) : Prop := ∀ i ∈ puts l, i ∈ takers l

def Serial : List (Event ι) → Prop
  | [] => True
  | .put _ :: l => Settled l ∧ Serial l
  | .spoil _ :: l => Settled l ∧ Serial l
  | .take _ _ :: l => Serial l

/-- Nothing that spoils the variable is an identifier put before. -/
def Foreign : List (Event ι) → Prop
  | [] => True
  | .put _ :: l => Foreign l
  | .spoil x :: l => (∀ i ∈ puts l, x ≠ some i) ∧ Foreign l
  | .take _ _ :: l => Foreign l

/-- What is taken is an identifier that was put and not taken before. -/
def Sound : List (Event ι) → Prop
  | [] => True
  | .put _ :: l => Sound l
  | .spoil _ :: l => Sound l
  | .take _ x :: l => (∃ i ∈ puts l, x = some i ∧ x ∉ taken l) ∧ Sound l

section decidable
variable [DecidableEq ι]

def EachOnce (l : List (Event ι)) : Prop := ∀ i ∈ puts l, (taken l).count (some i) = 1

instance (l : List (Event ι)) : Decidable (Settled l) :=
  inferInstanceAs (Decidable (∀ i ∈ puts l, i ∈ takers l))

instance (l : List (Event ι)) : Decidable (EachOnce l) :=
  inferInstanceAs (Decidable (∀ i ∈ puts l, (taken l).count (some i) = 1))

instance decSerial : (l : List (Event ι)) → Decidable (Serial l)
  | [] => inferInstanceAs (Decidable True)
  | .put _ :: l =>
      have := decSerial l
      inferInstanceAs (Decidable (Settled l ∧ Serial l))
  | .spoil _ :: l =>
      have := decSerial l
      inferInstanceAs (Decidable (Settled l ∧ Serial l))
  | .take _ _ :: l => decSerial l

instance decSound : (l : List (Event ι)) → Decidable (Sound l)
  | [] => inferInstanceAs (Decidable True)
  | .put _ :: l => decSound l
  | .spoil _ :: l => decSound l
  | .take _ x :: l =>
      have := decSound l
      inferInstanceAs (Decidable ((∃ i ∈ puts l, x = some i ∧ x ∉ taken l) ∧ Sound l))

end decidable

theorem History.of_cons {e : Event ι} {l : List (Event ι)} (h : History (e :: l)) : History l := by
  cases e with
  | put i => exact h.2
  | spoil x => exact h
  | take i x => exact h.2.2

theorem Serial.of_cons {e : Event ι} {l : List (Event ι)} (h : Serial (e :: l)) : Serial l := by
  cases e with
  | put i => exact h.2
  | spoil x => exact h.2
  | take i x => exact h

theorem History.nodup_takers {l : List (Event ι)} (h : History l) : (takers l).Nodup := by
  induction l with
  | nil => exact List.nodup_nil
  | cons e l ih =>
    cases e with
    | put i => exact ih h.2
    | spoil x => exact ih h
    | take i x => exact List.nodup_cons.mpr ⟨h.1.2, ih h.2.2⟩

theorem History.put_of_taker {l : List (Event ι)} (h : History l) {i : ι} (hi : i ∈ takers l) :
    i ∈ puts l := by
  induction l with
  | nil => cases hi
  | cons e l ih =>
    cases e with
    | put j => exact List.mem_cons_of_mem _ (ih h.2 hi)
    | spoil x => exact ih h hi
    | take j x =>
      rcases List.mem_cons.mp hi with rfl | hi
      · exact h.1.1
      · exact ih h.2.2 hi

theorem Settled.not_pending {l : List (Event ι)} (h : Settled l) (i : ι) : ¬ Pending l i :=
  fun hp => hp.2 (h i hp.1)

theorem exists_pending {l : List (Event ι)} (h : ¬ Settled l) : ∃ i, Pending l i := by
  by_contra hno
  exact h fun i hi => not_not.mp fun hnot => hno ⟨i, hi, hnot⟩

/-- In a serial history every party takes its own identifier. -/
theorem own_of_serial {l : List (Event ι)} (h : History l) (hs : Serial l) :
    taken l = (takers l).map some ∧ ∀ i, Pending l i → slot l = some i := by
  induction l with
  | nil => exact ⟨rfl, fun i hi => absurd hi.1 List.not_mem_nil⟩
  | cons e l ih =>
    obtain ⟨htaken, hslot⟩ := ih h.of_cons hs.of_cons
    cases e with
    | put i =>
      refine ⟨htaken, fun j hj => ?_⟩
      rcases List.mem_cons.mp hj.1 with rfl | hmem
      · rfl
      · exact absurd (hs.1 j hmem) hj.2
    | spoil x => exact ⟨htaken, fun j hj => absurd hj (hs.1.not_pending j)⟩
    | take i x =>
      obtain ⟨hi, rfl, -⟩ := h
      have hown := hslot i hi
      constructor
      · show slot l :: taken l = some i :: (takers l).map some
        rw [hown, htaken]
      · intro j hj
        have hne : j ≠ i := fun he => hj.2 (he ▸ List.mem_cons_self)
        have hj' : slot l = some j := hslot j ⟨hj.1, fun hm => hj.2 (List.mem_cons_of_mem _ hm)⟩
        exact absurd (Option.some.inj (hj'.symm.trans hown)) hne

theorem not_taken_of_serial {l : List (Event ι)} (h : History l) (hs : Serial l) {i : ι}
    (hi : Pending l i) : some i ∉ taken l := by
  rw [(own_of_serial h hs).1]
  intro hmem
  obtain ⟨j, hj, he⟩ := List.mem_map.mp hmem
  exact hi.2 (Option.some.inj he ▸ hj)

theorem sound_of_serial {l : List (Event ι)} (h : History l) (hs : Serial l) : Sound l := by
  induction l with
  | nil => trivial
  | cons e l ih =>
    cases e with
    | put i => exact ih h.2 hs.2
    | spoil x => exact ih h hs.2
    | take i x =>
      obtain ⟨hi, rfl, hl⟩ := h
      have hown := (own_of_serial hl hs).2 i hi
      exact ⟨⟨i, hi.1, hown, hown ▸ not_taken_of_serial hl hs hi⟩, ih hl hs⟩

/-- Who is pending when the variable is overwritten, or was lost before, is lost. -/
theorem lost_of_overwritten {l : List (Event ι)} (h : History l) (hs : ¬ (Settled l ∧ Serial l))
    (hbefore : ¬ Serial l → ∃ i ∈ puts l, slot l ≠ some i ∧ some i ∉ taken l) :
    ∃ i ∈ puts l, some i ∉ taken l := by
  by_cases hser : Serial l
  · obtain ⟨i, hi⟩ := exists_pending fun hset => hs ⟨hset, hser⟩
    exact ⟨i, hi.1, not_taken_of_serial h hser hi⟩
  · obtain ⟨i, hi, -, hnot⟩ := hbefore hser
    exact ⟨i, hi, hnot⟩

/-- Where a party put or spoiled while another one was pending, an identifier is
no longer in the variable and was never taken. -/
theorem lost_of_not_serial {l : List (Event ι)} (h : History l) (hf : Foreign l)
    (hs : ¬ Serial l) : ∃ i ∈ puts l, slot l ≠ some i ∧ some i ∉ taken l := by
  induction l with
  | nil => exact absurd trivial hs
  | cons e l ih =>
    cases e with
    | put j =>
      obtain ⟨hj, hl⟩ := h
      obtain ⟨i, hi, hnot⟩ := lost_of_overwritten hl hs (ih hl hf)
      exact ⟨i, List.mem_cons_of_mem _ hi, fun he => hj (Option.some.inj he ▸ hi), hnot⟩
    | spoil x =>
      have hl : History l := h
      obtain ⟨i, hi, hnot⟩ := lost_of_overwritten hl hs (ih hl hf.2)
      exact ⟨i, hi, hf.1 i hi, hnot⟩
    | take k x =>
      obtain ⟨-, rfl, hl⟩ := h
      obtain ⟨i, hi, hslot, hnot⟩ := ih hl hf hs
      refine ⟨i, hi, hslot, fun hmem => ?_⟩
      rcases List.mem_cons.mp hmem with he | hmem
      · exact hslot he.symm
      · exact hnot hmem

theorem eachOnce_of_serial [DecidableEq ι] {l : List (Event ι)} (h : History l)
    (hdone : Settled l) (hs : Serial l) : EachOnce l := by
  intro i hi
  rw [(own_of_serial h hs).1, List.count_map_of_injective _ _ (Option.some_injective _)]
  exact List.count_eq_one_of_mem h.nodup_takers (hdone i hi)

theorem serial_of_eachOnce [DecidableEq ι] {l : List (Event ι)} (h : History l)
    (hf : Foreign l) (honce : EachOnce l) : Serial l := by
  by_contra hs
  obtain ⟨i, hi, -, hnot⟩ := lost_of_not_serial h hf hs
  have hzero := List.count_eq_zero_of_not_mem hnot
  have hone := honce i hi
  omega

end HandOver
