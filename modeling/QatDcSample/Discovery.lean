import QatDcSample.Sample
import Mathlib.Data.List.Nodup

/-!
# Instance discovery

The head of `dcStatelessSample` (`dc_qat_funcs.c:571-598`) with
`cpaDcGetNumInstances` and `cpaDcGetInstances` (`sal_compression.c:1772-1938`) and
the enumeration of devices below them (`uio_user_device.c:991-1020`). A
compression service is a value of any type `S`; the linked list
`compression_services` is a list, empty for `NULL`.
-/

namespace QatDcSample
open CpaStatus

abbrev Cpa16U := UInt16
abbrev Cpa32U := UInt32

def adfMaxDevices : ℕ := 32 * 32

def icpAccelCapabilitiesCompression : Cpa32U := 0x20

/-- `icp_accel_dev_t`; `pSalHandle` is the service container. -/
structure AccelDev (S : Type) where
  accelCapabilitiesMask : Cpa32U
  adfSubsystemStatus : Cpa32U
  pSalHandle : Option (List S)

structure DeviceTable (S : Type) where
  accelTbl : List (Option (AccelDev S))
  length_eq : accelTbl.length = adfMaxDevices

variable {S : Type}

/-! ### The driver -/

/-- The loop of `icp_amgr_getAllAccelDevByCapabilities`; it appends to
`pAccel_devs`, whose length is `*pNumInstances`. -/
def accelDevLoop (capabilitiesMask : Cpa32U) :
    List (Option (AccelDev S)) → List (AccelDev S) → List (AccelDev S)
  | [], devs => devs
  | none :: tbl, devs => accelDevLoop capabilitiesMask tbl devs
  | some dev :: tbl, devs =>
      if dev.accelCapabilitiesMask &&& capabilitiesMask ≠ 0 ∧ dev.adfSubsystemStatus ≠ 0 then
        accelDevLoop capabilitiesMask tbl (devs ++ [dev])
      else accelDevLoop capabilitiesMask tbl devs

def icpAmgrGetAllAccelDevByCapabilities (capabilitiesMask : Cpa32U) (tbl : DeviceTable S) :
    CpaStatus × List (AccelDev S) :=
  (success, accelDevLoop capabilitiesMask tbl.accelTbl [])

/-- What goes wrong in one of the two calls: `osalMemAlloc` answers `NULL`, or the
enumeration fails with a status. -/
structure Faults where
  memAlloc : Bool
  enumeration : Option { status : CpaStatus // status ≠ success }

def compressionDevs (f : Faults) (tbl : DeviceTable S) : CpaStatus × List (AccelDev S) :=
  match f.enumeration with
  | some status => (status.1, [])
  | none => icpAmgrGetAllAccelDevByCapabilities icpAccelCapabilitiesCompression tbl

/-- `while (NULL != list_temp) num++`. -/
def countServices : List S → Cpa16U → Cpa16U
  | [], num => num
  | _ :: rest, num => countServices rest (num + 1)

def countDevs : List (AccelDev S) → Cpa16U → Cpa16U
  | [], num => num
  | dev :: devs, num =>
      match dev.pSalHandle with
      | none => countDevs devs num
      | some services => countDevs devs (countServices services num)

/-- The status and `*pNumInstances` afterwards. -/
def cpaDcGetNumInstances (f : Faults) (tbl : DeviceTable S) (numInstances : Cpa16U) :
    CpaStatus × Cpa16U :=
  if f.memAlloc = true then (resource, numInstances)
  else
    let (status, devs) := compressionDevs f tbl
    if status = success then (status, countDevs devs 0) else (status, numInstances)

/-- `index` and the array `dcInstances` of handles, `none` for `NULL`. -/
structure Fill (S : Type) where
  index : Cpa16U
  dcInstances : ℕ → Option S

/-- The inner loop of a filling pass; the comparison is made in `int`. -/
def fillServices (numInstances : Cpa16U) : List S → Fill S → Fill S
  | [], st => st
  | s :: rest, st =>
      if (st.index.toNat : Int) > (numInstances.toNat : Int) - 1 then st
      else fillServices numInstances rest
        ⟨st.index + 1, Function.update st.dcInstances st.index.toNat (some s)⟩

/-- A filling pass: the inner `break` does not leave this loop. No entry that the
enumeration handed out is `NULL`, so both passes are this one. -/
def fillDevs (numInstances : Cpa16U) : List (AccelDev S) → Fill S → Fill S
  | [], st => st
  | dev :: devs, st =>
      match dev.pSalHandle with
      | none => fillDevs numInstances devs st
      | some services => fillDevs numInstances devs (fillServices numInstances services st)

/-- The status and `dcInstances` afterwards. -/
def cpaDcGetInstances (f : Faults) (tbl : DeviceTable S) (numInstances : Cpa16U)
    (dcInstances : ℕ → Option S) : CpaStatus × (ℕ → Option S) :=
  if numInstances = 0 then (invalidParam, dcInstances)
  else if f.memAlloc = true then (resource, dcInstances)
  else
    let (status, devs) := compressionDevs f tbl
    if status = success then
      let st := fillDevs numInstances devs ⟨0, dcInstances⟩
      if st.index < numInstances then (resource, st.dcInstances)
      else (status, (fillDevs numInstances devs ⟨0, st.dcInstances⟩).dcInstances)
    else (status, dcInstances)

/-! ### dcStatelessSample -/

/-- `dcInstHandles` after the loop that sets its `MAX_INSTANCES` entries to
`NULL`; `stack` is what memory held. -/
def nullHandles (stack : ℕ → Option S) : ℕ → Option S :=
  fun j => if j < maxInstances then none else stack j

/-- The status of `cpaDcGetNumInstances` is overwritten, and `numInstances` was
set to 0 before. -/
def discoverInstances (f₁ f₂ : Faults) (tbl : DeviceTable S) (stack : ℕ → Option S) :
    Except CpaStatus (Cpa16U × (ℕ → Option S)) :=
  let (_, numInstances) := cpaDcGetNumInstances f₁ tbl 0
  let numInstances := if numInstances ≥ 16 then 16 else numInstances
  let (status, dcInstHandles) := cpaDcGetInstances f₂ tbl numInstances (nullHandles stack)
  if status ≠ success then .error status else .ok (numInstances, dcInstHandles)

/-! ### Services of a table -/

def AccelDev.Compresses (dev : AccelDev S) : Prop :=
  dev.accelCapabilitiesMask &&& icpAccelCapabilitiesCompression ≠ 0 ∧ dev.adfSubsystemStatus ≠ 0

instance (dev : AccelDev S) : Decidable dev.Compresses := inferInstanceAs (Decidable (_ ∧ _))

def AccelDev.services (dev : AccelDev S) : List S := dev.pSalHandle.getD []

/-- All compression services, in the order of the devices and then of the lists. -/
def DeviceTable.services (tbl : DeviceTable S) : List S :=
  (tbl.accelTbl.filterMap fun d => d.filter fun dev => dev.Compresses).flatMap AccelDev.services

theorem accelDevLoop_eq (tbl : List (Option (AccelDev S))) :
    ∀ devs, accelDevLoop icpAccelCapabilitiesCompression tbl devs =
      devs ++ tbl.filterMap fun d => d.filter fun dev => dev.Compresses := by
  induction tbl with
  | nil => exact fun devs => (List.append_nil devs).symm
  | cons d tbl ih =>
    intro devs
    cases d with
    | none => simpa [accelDevLoop] using ih devs
    | some dev =>
      by_cases h : dev.Compresses
      · have hloop := ih (devs ++ [dev])
        simp only [accelDevLoop, if_pos (show _ ∧ _ from h), hloop]
        simp [Option.filter, h]
      · have hloop := ih devs
        simp only [accelDevLoop, if_neg (show ¬ (_ ∧ _) from h), hloop]
        simp [Option.filter, h]

/-! ### Counting -/

theorem countServices_eq (services : List S) :
    ∀ num, countServices services num = num + UInt16.ofNat services.length := by
  induction services with
  | nil => simp [countServices]
  | cons s rest ih =>
    intro num
    rw [countServices, ih, List.length_cons, UInt16.ofNat_add, UInt16.add_assoc]
    exact congrArg (num + ·) (UInt16.add_comm _ _)

theorem countDevs_eq (devs : List (AccelDev S)) :
    ∀ num, countDevs devs num = num + UInt16.ofNat (devs.flatMap AccelDev.services).length := by
  induction devs with
  | nil => simp [countDevs]
  | cons dev devs ih =>
    intro num
    cases h : dev.pSalHandle with
    | none => simp [countDevs, h, ih, AccelDev.services]
    | some services =>
      simp only [countDevs, h, ih, countServices_eq, List.flatMap_cons, AccelDev.services,
        Option.getD_some, List.length_append, UInt16.ofNat_add,
        UInt16.add_assoc]

/-! ### Filling -/

/-- The handles of `xs` stored from entry 0 on, over `a`. -/
def storedOver (xs : List S) (a : ℕ → Option S) : ℕ → Option S := fun j => xs[j]?.or (a j)

theorem storedOver_snoc (xs : List S) (a : ℕ → Option S) (s : S) :
    Function.update (storedOver xs a) xs.length (some s) = storedOver (xs ++ [s]) a := by
  funext j
  by_cases h : j = xs.length
  · subst h
    simp [storedOver]
  · rw [Function.update_of_ne h]
    rcases Nat.lt_or_gt_of_ne h with h | h
    · simp [storedOver, List.getElem?_append_left h]
    · have h₁ : xs[j]? = none := List.getElem?_eq_none (by omega)
      have h₂ : (xs ++ [s])[j]? = none := List.getElem?_eq_none (by simp; omega)
      simp [storedOver, h₁, h₂]

@[simp] theorem storedOver_storedOver (xs : List S) (a : ℕ → Option S) :
    storedOver xs (storedOver xs a) = storedOver xs a := by
  funext j
  cases h : xs[j]? with
  | none => simp [storedOver, h]
  | some s => simp [storedOver, h]

structure Fill.Seen (numInstances : Cpa16U) (a : ℕ → Option S) (seen : List S) (st : Fill S) :
    Prop where
  index : st.index.toNat = min numInstances.toNat seen.length
  stored : st.dcInstances = storedOver (seen.take numInstances.toNat) a

theorem fillServices_seen {numInstances : Cpa16U} {a : ℕ → Option S} (services : List S) :
    ∀ {seen : List S} {st : Fill S}, st.Seen numInstances a seen →
      (fillServices numInstances services st).Seen numInstances a (seen ++ services) := by
  induction services with
  | nil =>
    intro seen st h
    simpa [fillServices] using h
  | cons s rest ih =>
    intro seen st h
    rw [fillServices]
    split
    · next hfull =>
      -- full: what follows changes nothing
      have hle : numInstances.toNat ≤ seen.length := by
        have hi := h.index
        omega
      constructor
      · rw [h.index]
        simp only [List.length_append]
        omega
      · rw [h.stored, List.take_append_of_le_length hle]
    · next hroom =>
      have hlt : seen.length < numInstances.toNat := by
        have hi := h.index
        omega
      have hi : st.index.toNat = seen.length := by
        have hi := h.index
        omega
      have hnum := numInstances.toNat_lt
      have hsucc : (st.index + 1).toNat = seen.length + 1 := by
        rw [UInt16.toNat_add, hi]
        simp only [UInt16.toNat_one]
        omega
      have hseen : (⟨st.index + 1, Function.update st.dcInstances st.index.toNat (some s)⟩ :
          Fill S).Seen numInstances a (seen ++ [s]) := by
        constructor
        · simp only [hsucc, List.length_append, List.length_singleton]
          omega
        · have h₁ : seen.take numInstances.toNat = seen := List.take_of_length_le (by omega)
          have h₂ : (seen ++ [s]).take numInstances.toNat = seen ++ [s] :=
            List.take_of_length_le (by simp; omega)
          rw [h.stored, hi, h₁, h₂]
          exact storedOver_snoc seen a s
      simpa using ih hseen

theorem fillDevs_seen {numInstances : Cpa16U} {a : ℕ → Option S} (devs : List (AccelDev S)) :
    ∀ {seen : List S} {st : Fill S}, st.Seen numInstances a seen →
      (fillDevs numInstances devs st).Seen numInstances a
        (seen ++ devs.flatMap AccelDev.services) := by
  induction devs with
  | nil =>
    intro seen st h
    simpa [fillDevs] using h
  | cons dev devs ih =>
    intro seen st h
    cases hs : dev.pSalHandle with
    | none => simpa [fillDevs, hs, AccelDev.services] using ih h
    | some services =>
      simpa [fillDevs, hs, AccelDev.services] using ih (fillServices_seen services h)

theorem seen_start (numInstances : Cpa16U) (a : ℕ → Option S) :
    (⟨0, a⟩ : Fill S).Seen numInstances a [] :=
  ⟨by simp, by funext j; simp [storedOver]⟩

/-! ### The two calls -/

theorem compressionDevs_services {f : Faults} {tbl : DeviceTable S} (hf : f.enumeration = none) :
    (compressionDevs f tbl).1 = success ∧
      (compressionDevs f tbl).2.flatMap AccelDev.services = tbl.services := by
  simp [compressionDevs, hf, icpAmgrGetAllAccelDevByCapabilities, accelDevLoop_eq,
    DeviceTable.services]

theorem compressionDevs_success {f : Faults} {tbl : DeviceTable S}
    (h : (compressionDevs f tbl).1 = success) : f.enumeration = none := by
  cases he : f.enumeration with
  | none => rfl
  | some status =>
    simp only [compressionDevs, he] at h
    exact absurd h status.2

/-- No fault leaves a count behind other than the number of services. -/
theorem cpaDcGetNumInstances_eq (f : Faults) (tbl : DeviceTable S) :
    (cpaDcGetNumInstances f tbl 0).2 =
      if f.memAlloc = false ∧ f.enumeration = none then UInt16.ofNat tbl.services.length else 0 := by
  cases ha : f.memAlloc with
  | true => simp [cpaDcGetNumInstances, ha]
  | false =>
    by_cases hst : (compressionDevs f tbl).1 = success
    · have hf := compressionDevs_success hst
      have hservices : (compressionDevs f tbl).2.flatMap AccelDev.services = tbl.services :=
        (compressionDevs_services hf).2
      simp [cpaDcGetNumInstances, ha, hst, hf, countDevs_eq, hservices]
    · have hf : f.enumeration ≠ none := fun he => hst (compressionDevs_services he).1
      simp [cpaDcGetNumInstances, ha, hst, hf]

theorem fillDevs_all {f : Faults} (tbl : DeviceTable S) (hf : f.enumeration = none) (n : Cpa16U)
    (a : ℕ → Option S) :
    (fillDevs n (compressionDevs f tbl).2 ⟨0, a⟩).Seen n a tbl.services := by
  have h := fillDevs_seen (compressionDevs f tbl).2 (seen_start n a)
  rwa [List.nil_append, (compressionDevs_services hf).2] at h

/-- The second call succeeds exactly if nothing fails and there are enough
services, and has then stored the first `numInstances` of them. -/
theorem cpaDcGetInstances_eq (f : Faults) (tbl : DeviceTable S) (n : Cpa16U) (a : ℕ → Option S) :
    ((cpaDcGetInstances f tbl n a).1 = success ↔ n ≠ 0 ∧ f.memAlloc = false ∧
      f.enumeration = none ∧ n.toNat ≤ tbl.services.length) ∧
    ((cpaDcGetInstances f tbl n a).1 = success →
      (cpaDcGetInstances f tbl n a).2 = storedOver (tbl.services.take n.toNat) a) := by
  by_cases hn : n = 0
  · have hne : (invalidParam : CpaStatus) ≠ success := by decide
    simp [cpaDcGetInstances, hn, hne]
  cases ha : f.memAlloc with
  | true => simp [cpaDcGetInstances, hn, ha]
  | false =>
    by_cases hst : (compressionDevs f tbl).1 = success
    · have hf := compressionDevs_success hst
      have h₁ := fillDevs_all tbl hf n a
      by_cases hlt : (fillDevs n (compressionDevs f tbl).2 ⟨0, a⟩).index < n
      · have hfew : ¬ n.toNat ≤ tbl.services.length := by
          have hi := h₁.index
          have hlt' := UInt16.lt_iff_toNat_lt.mp hlt
          omega
        simp [cpaDcGetInstances, hn, ha, hst, hlt, hfew]
      · have hmany : n.toNat ≤ tbl.services.length := by
          have hi := h₁.index
          have hlt' := mt UInt16.lt_iff_toNat_lt.mpr hlt
          omega
        have h₂ := (fillDevs_all tbl hf n
          (fillDevs n (compressionDevs f tbl).2 ⟨0, a⟩).dcInstances).stored
        rw [h₁.stored, storedOver_storedOver] at h₂
        simp [cpaDcGetInstances, hn, ha, hst, hlt, hf, hmany, h₁.stored, h₂]
    · have hf : f.enumeration ≠ none := fun he => hst (compressionDevs_services he).1
      simp [cpaDcGetInstances, hn, ha, hst, hf]

/-! ### What the workers are given -/

/-- `numInstances` after the clamp to `MAX_INSTANCES`. -/
def clampedCount (f : Faults) (tbl : DeviceTable S) : Cpa16U :=
  if (cpaDcGetNumInstances f tbl 0).2 ≥ 16 then 16 else (cpaDcGetNumInstances f tbl 0).2

theorem discoverInstances_eq (f₁ f₂ : Faults) (tbl : DeviceTable S) (stack : ℕ → Option S) :
    discoverInstances f₁ f₂ tbl stack =
      if (cpaDcGetInstances f₂ tbl (clampedCount f₁ tbl) (nullHandles stack)).1 ≠ success then
        .error (cpaDcGetInstances f₂ tbl (clampedCount f₁ tbl) (nullHandles stack)).1
      else
        .ok (clampedCount f₁ tbl,
          (cpaDcGetInstances f₂ tbl (clampedCount f₁ tbl) (nullHandles stack)).2) := rfl

theorem discoverInstances_eq_ok {f₁ f₂ : Faults} {tbl : DeviceTable S} {stack : ℕ → Option S}
    {n : Cpa16U} {handles : ℕ → Option S} :
    discoverInstances f₁ f₂ tbl stack = .ok (n, handles) ↔
      n = clampedCount f₁ tbl ∧ cpaDcGetInstances f₂ tbl n (nullHandles stack) =
        (success, handles) := by
  rw [discoverInstances_eq]
  split
  · next hst =>
    constructor
    · intro h
      contradiction
    · rintro ⟨rfl, h⟩
      rw [h] at hst
      exact absurd rfl hst
  · next hst =>
    rw [not_not] at hst
    constructor
    · intro h
      cases h
      exact ⟨rfl, Prod.ext hst rfl⟩
    · rintro ⟨rfl, h⟩
      rw [h]

theorem clampedCount_toNat {f : Faults} {tbl : DeviceTable S} (ha : f.memAlloc = false)
    (hf : f.enumeration = none) (hlt : tbl.services.length < UInt16.size) :
    (clampedCount f tbl).toNat = min maxInstances tbl.services.length := by
  have hcount : (UInt16.ofNat tbl.services.length).toNat = tbl.services.length :=
    UInt16.toNat_ofNat_of_lt hlt
  have h16 : (16 : Cpa16U).toNat = 16 := rfl
  have hnum : (cpaDcGetNumInstances f tbl 0).2 = UInt16.ofNat tbl.services.length := by
    rw [cpaDcGetNumInstances_eq, if_pos ⟨ha, hf⟩]
  rw [clampedCount, hnum]
  split
  · next h =>
    have h' := UInt16.le_iff_toNat_le.mp h
    rw [hcount, h16] at h'
    simp only [h16, maxInstances]
    omega
  · next h =>
    have h' := mt UInt16.le_iff_toNat_le.mpr h
    rw [hcount, h16] at h'
    simp only [hcount, maxInstances]
    omega

theorem clampedCount_zero {f : Faults} {tbl : DeviceTable S}
    (h : ¬ (f.memAlloc = false ∧ f.enumeration = none)) : clampedCount f tbl = 0 := by
  have hnum : (cpaDcGetNumInstances f tbl 0).2 = 0 := by
    rw [cpaDcGetNumInstances_eq, if_neg h]
  rw [clampedCount, hnum]
  rfl

theorem clampedCount_le (f : Faults) (tbl : DeviceTable S) :
    (clampedCount f tbl).toNat ≤ maxInstances := by
  rw [clampedCount]
  split
  · exact Nat.le_refl _
  · next h =>
    have h' := mt UInt16.le_iff_toNat_le.mpr h
    have h16 : (16 : Cpa16U).toNat = maxInstances := rfl
    omega

theorem discoverInstances_past {f₁ f₂ : Faults} {tbl : DeviceTable S} {stack : ℕ → Option S}
    {n : Cpa16U} {handles : ℕ → Option S}
    (h : discoverInstances f₁ f₂ tbl stack = .ok (n, handles)) :
    n ≠ 0 ∧ n = clampedCount f₁ tbl ∧ n.toNat ≤ tbl.services.length ∧
      handles = storedOver (tbl.services.take n.toNat) (nullHandles stack) := by
  obtain ⟨hn, hget⟩ := discoverInstances_eq_ok.mp h
  obtain ⟨hiff, hstored⟩ := cpaDcGetInstances_eq f₂ tbl n (nullHandles stack)
  rw [hget] at hiff hstored
  obtain ⟨hne, -, -, hle⟩ := hiff.mp rfl
  exact ⟨hne, hn, hle, hstored rfl⟩

theorem toNat_pos_of_ne_zero {n : Cpa16U} (h : n ≠ 0) : 0 < n.toNat :=
  Nat.pos_of_ne_zero fun h0 => h (UInt16.toNat_inj.mp h0)

/-- The rest of the run is given as many instances as were discovered, entry `j`
of `dcInstHandles` being instance `j`. -/
def Cfg.discovered {f₁ f₂ : Faults} {tbl : DeviceTable S} {stack : ℕ → Option S} {n : Cpa16U}
    {handles : ℕ → Option S} (h : discoverInstances f₁ f₂ tbl stack = .ok (n, handles))
    (isPolled : Option S → Bool) (device : Option S → ℕ) (usageCounter : ℕ → Int)
    (trace : ℕ → List (Int × Int)) : Cfg where
  numInstances := n.toNat
  pos := toNat_pos_of_ne_zero (discoverInstances_past h).1
  le_max := (discoverInstances_past h).2.1 ▸ clampedCount_le f₁ tbl
  isPolled j := isPolled (handles j)
  device j := device (handles j)
  usageCounter := usageCounter
  trace := trace

/-- Past the check of `cpaDcGetInstances`: between 1 and 16 workers, each with its
own service, in order, and no entry stored beyond theirs. -/
theorem discoverInstances_own_handles (f₁ f₂ : Faults) (tbl : DeviceTable S)
    (stack : ℕ → Option S) (hdistinct : tbl.services.Nodup)
    (hlt : tbl.services.length < UInt16.size) :
    (∀ n handles, discoverInstances f₁ f₂ tbl stack = .ok (n, handles) →
      1 ≤ n.toNat ∧ n.toNat ≤ maxInstances ∧
      n.toNat = min maxInstances tbl.services.length ∧
      (∀ j < n.toNat, handles j = tbl.services[j]? ∧ handles j ≠ none) ∧
      (∀ i < n.toNat, ∀ j < n.toNat, i ≠ j → handles i ≠ handles j) ∧
      ∀ j ≥ n.toNat, handles j = nullHandles stack j) ∧
    (1 ≤ tbl.services.length → f₁.memAlloc = false → f₁.enumeration = none →
      f₂.memAlloc = false → f₂.enumeration = none →
      ∃ n handles, discoverInstances f₁ f₂ tbl stack = .ok (n, handles)) := by
  constructor
  · intro n handles h
    obtain ⟨hne, hn, hle, hhandles⟩ := discoverInstances_past h
    have hok : f₁.memAlloc = false ∧ f₁.enumeration = none := by
      by_contra hcon
      exact hne (hn.trans (clampedCount_zero hcon))
    have hmin := clampedCount_toNat hok.1 hok.2 hlt
    rw [← hn] at hmin
    have hget : ∀ j < n.toNat, handles j = tbl.services[j]? ∧ handles j ≠ none := by
      intro j hj
      have hj' : j < tbl.services.length := by omega
      simp [hhandles, storedOver, hj, List.getElem?_eq_getElem hj']
    refine ⟨toNat_pos_of_ne_zero hne, hn ▸ clampedCount_le f₁ tbl, hmin, hget, ?_, ?_⟩
    · intro i hi j hj hij he
      rw [(hget i hi).1, (hget j hj).1] at he
      exact hij ((List.getElem?_inj (by omega) hdistinct).mp he)
    · intro j hj
      have hpast : (tbl.services.take n.toNat)[j]? = none :=
        List.getElem?_eq_none (by rw [List.length_take]; omega)
      rw [hhandles, storedOver, hpast, Option.none_or]
  · intro hpos ha₁ hf₁ ha₂ hf₂
    have hmin := clampedCount_toNat ha₁ hf₁ hlt
    have hne : clampedCount f₁ tbl ≠ 0 := by
      intro h0
      rw [h0] at hmin
      have h00 : (0 : Cpa16U).toNat = 0 := rfl
      simp only [maxInstances] at hmin
      omega
    obtain ⟨hiff, -⟩ := cpaDcGetInstances_eq f₂ tbl (clampedCount f₁ tbl) (nullHandles stack)
    have hst := hiff.mpr ⟨hne, ha₂, hf₂, by omega⟩
    exact ⟨_, _, discoverInstances_eq_ok.mpr ⟨rfl, Prod.ext hst rfl⟩⟩

def threeServices : DeviceTable ℕ where
  accelTbl := some ⟨0x20, 1, some [7, 8]⟩ :: some ⟨0x20, 0, some [5]⟩ ::
    some ⟨0x21, 1, some [9]⟩ :: List.replicate 1021 none
  length_eq := by simp only [List.length_cons, List.length_replicate, adfMaxDevices]

theorem threeServices_services : threeServices.services = [7, 8, 9] := by
  decide +kernel

theorem discoverInstances_own_handles_three :
    ∃ n handles, discoverInstances ⟨false, none⟩ ⟨false, none⟩ threeServices (fun _ => none) =
      .ok (n, handles) ∧ n.toNat = 3 ∧ handles 2 = some 9 := by
  obtain ⟨hown, hpast⟩ := discoverInstances_own_handles ⟨false, none⟩ ⟨false, none⟩ threeServices
    (fun _ => none) (by rw [threeServices_services]; decide)
    (by rw [threeServices_services]; decide)
  obtain ⟨n, handles, h⟩ := hpast (by rw [threeServices_services]; decide) rfl rfl rfl rfl
  obtain ⟨-, -, hn, hget, -⟩ := hown n handles h
  rw [threeServices_services] at hn hget
  have hn3 : n.toNat = 3 := hn
  exact ⟨n, handles, h, hn3, (hget 2 (by omega)).1⟩

end QatDcSample
