import QatDcSample.Crc64
import QatDcSample.Lib.BinaryPolynomial

/-!
# What the programmable CRC computes

The loop over a buffer computes the remainder that defines the checksum, whatever the
polynomial. The loop over the buffers starts anew with each one of them.
-/

namespace QatDcSample
namespace Crc64

open Polynomial BinaryPolynomial

/-! ### Reflection -/

theorem reflectLoop_bit {w : ℕ} (n i : ℕ) (hi : i < w) : ∀ inputVal reflectVal : BitVec w,
    (reflectLoop n inputVal reflectVal).getLsbD i =
      if i < n then inputVal.getLsbD (n - 1 - i) else reflectVal.getLsbD (i - n) := by
  induction n with
  | zero =>
    intro inputVal reflectVal
    rw [reflectLoop, if_neg (by omega), Nat.sub_zero]
  | succ n ih =>
    intro inputVal reflectVal
    have hand : ∀ j, (inputVal &&& 1#w).getLsbD j = (decide (j = 0) && inputVal.getLsbD 0) := by
      intro j
      rw [BitVec.getLsbD_and, BitVec.getLsbD_one]
      by_cases hj : j = 0
      · subst hj
        simp [show 0 < w by omega]
      · simp [hj]
    rw [reflectLoop, ih]
    by_cases hin : i < n
    · rw [if_pos hin, if_pos (by omega), BitVec.getLsbD_ushiftRight]
      congr 1
      omega
    · rw [if_neg hin, BitVec.getLsbD_or, BitVec.getLsbD_shiftLeft, hand]
      by_cases he : i = n
      · subst he
        simp
      · rw [if_neg (by omega)]
        have hlt : i - n < w := by omega
        have hne : ¬ i - n = 0 := by omega
        have hpos : ¬ i - n < 1 := by omega
        simp [hlt, hne, hpos, show i - n - 1 = i - (n + 1) by omega]

theorem reflectLoop_eq {w : ℕ} (value : BitVec w) : reflectLoop w value 0#w = value.reverse := by
  apply BitVec.eq_of_getLsbD_eq
  intro i hi
  rw [reflectLoop_bit w i hi, if_pos hi, BitVec.getLsbD_reverse,
    BitVec.getMsbD_eq_getLsbD, decide_eq_true hi, Bool.true_and]

theorem dcSwReflect8_eq (value : BitVec 8) : dcSwReflect8 value = value.reverse :=
  reflectLoop_eq value

theorem dcSwReflect64_eq (value : BitVec 64) : dcSwReflect64 value = value.reverse :=
  reflectLoop_eq value

/-! ### The table -/

theorem entryLoop_eq (crc64Polynomial : BitVec 64) (n : ℕ) (entry : BitVec 64) :
    entryLoop crc64Polynomial n entry = (shift crc64Polynomial)^[n] entry := by
  induction n generalizing entry with
  | zero => rfl
  | succ n ih =>
    rw [entryLoop, Function.iterate_succ_apply, ih]
    rfl

theorem tableEntry_congruent (crc64Polynomial : BitVec 64) (i : BitVec 8) :
    EqMod crc64Polynomial (poly (tableEntry crc64Polynomial i)) (X ^ 64 * poly i) := by
  have htop : poly (i.setWidth 64 <<< 56) = X ^ 56 * poly i := poly_top i (by decide)
  have h := shift_iterate_congruent (by decide) crc64Polynomial 8 (i.setWidth 64 <<< 56)
  rw [htop, ← mul_assoc, ← pow_add] at h
  rw [tableEntry, entryLoop_eq]
  exact h

/-! ### The loop over a buffer -/

/-- The bytes that enter the checksum. -/
def bytesFrom (reflectIn : Bool) (pData : ℕ → BitVec 8) : ℕ → ℕ → List (BitVec 8)
  | 0, _ => []
  | n + 1, i =>
      (if reflectIn then (pData i).reverse else pData i) :: bytesFrom reflectIn pData n (i + 1)

theorem length_bytesFrom (reflectIn : Bool) (pData : ℕ → BitVec 8) (n i : ℕ) :
    (bytesFrom reflectIn pData n i).length = n := by
  induction n generalizing i with
  | zero => rfl
  | succ n ih => rw [bytesFrom, List.length_cons, ih]

theorem poly_position (currentCrc : BitVec 64) (nextByte : BitVec 8) :
    poly ((((currentCrc >>> 56) ^^^ nextByte.setWidth 64) &&& 0xFF#64).setWidth 8) =
      poly (currentCrc >>> 56) + poly nextByte := by
  have hhigh : ∀ i, 8 ≤ i → (currentCrc >>> 56).getLsbD i = false := by
    intro i hi
    rw [BitVec.getLsbD_ushiftRight, BitVec.getLsbD_of_ge currentCrc _ (by omega)]
  have hbyte : ∀ i < 8, (0xFF#64).getLsbD i = true := by decide
  have hmask : (((currentCrc >>> 56) ^^^ nextByte.setWidth 64) &&& 0xFF#64).setWidth 8 =
      (currentCrc >>> 56).setWidth 8 ^^^ nextByte := by
    apply BitVec.eq_of_getLsbD_eq
    intro i hi
    rw [BitVec.getLsbD_setWidth, BitVec.getLsbD_and, BitVec.getLsbD_xor, BitVec.getLsbD_setWidth,
      BitVec.getLsbD_xor, BitVec.getLsbD_setWidth, hbyte i hi]
    simp [hi, show i < 64 by omega]
  rw [hmask, poly_xor, poly_setWidth _ hhigh]

theorem byte_congruent (crc64Polynomial currentCrc : BitVec 64) (nextByte : BitVec 8) :
    EqMod crc64Polynomial
      (poly ((currentCrc <<< 8) ^^^ tableEntry crc64Polynomial
        ((((currentCrc >>> 56) ^^^ nextByte.setWidth 64) &&& 0xFF#64).setWidth 8)))
      (X ^ 8 * poly currentCrc + X ^ 64 * poly nextByte) := by
  have hentry := tableEntry_congruent crc64Polynomial
    ((((currentCrc >>> 56) ^^^ nextByte.setWidth 64) &&& 0xFF#64).setWidth 8)
  rw [poly_position] at hentry
  apply feed_congruent (by decide) currentCrc
  simp only [Nat.reduceSub]
  exact hentry

theorem getElem_table {crc64Polynomial : BitVec 64} {table : Table}
    (htable : dcGenerateLookupTable true crc64Polynomial = (CpaStatus.success, some table))
    (position : BitVec 8) : table[position.toNat] = tableEntry crc64Polynomial position := by
  simp only [dcGenerateLookupTable, if_true, Prod.mk.injEq, true_and, Option.some.injEq] at htable
  rw [← htable, Vector.getElem_ofFn]
  rfl

section
variable {crcConfig : CrcControlData} {table : Table}

theorem crcLoop_congruent
    (htable : dcGenerateLookupTable true crcConfig.polynomial = (CpaStatus.success, some table))
    (pData : ℕ → BitVec 8) (n i : ℕ) (currentCrc : BitVec 64) :
    EqMod crcConfig.polynomial
      (poly (crcLoop crcConfig.reflectIn table pData n i currentCrc))
      (X ^ (8 * n) * poly currentCrc +
        X ^ 64 * message (bytesFrom crcConfig.reflectIn pData n i)) := by
  induction n generalizing i currentCrc with
  | zero =>
    rw [crcLoop, bytesFrom, message, Nat.mul_zero, pow_zero, one_mul, mul_zero, add_zero]
    exact .refl _ _
  | succ n ih =>
    have hbyte := byte_congruent crcConfig.polynomial currentCrc
      (if crcConfig.reflectIn then (pData i).reverse else pData i)
    have hnext := (hbyte.mul (X ^ (8 * n))).add (.refl crcConfig.polynomial
      (X ^ 64 * message (bytesFrom crcConfig.reflectIn pData n (i + 1))))
    have hsum : X ^ (8 * n) * (X ^ 8 * poly currentCrc + X ^ 64 *
          poly (if crcConfig.reflectIn then (pData i).reverse else pData i)) +
        X ^ 64 * message (bytesFrom crcConfig.reflectIn pData n (i + 1)) =
        X ^ (8 * (n + 1)) * poly currentCrc +
          X ^ 64 * message (bytesFrom crcConfig.reflectIn pData (n + 1) i) := by
      rw [bytesFrom, message, length_bytesFrom, Nat.mul_succ, pow_add]
      ring
    rw [hsum] at hnext
    simp only [crcLoop, getElem_table htable, dcSwReflect8_eq]
    exact (ih (i + 1) _).trans hnext

/-- The checksum of a sequence of bytes: the remainder of the data behind the initial value. -/
noncomputable def checksum (crcConfig : CrcControlData) (bytes : List (BitVec 8)) :
    (ZMod 2)[X] :=
  (X ^ (8 * bytes.length) * poly crcConfig.initialValue + X ^ 64 * message bytes) %ₘ
    generator crcConfig.polynomial

theorem crcLoop_checksum
    (htable : dcGenerateLookupTable true crcConfig.polynomial = (CpaStatus.success, some table))
    (pData : ℕ → BitVec 8) (n : ℕ) :
    poly (crcLoop crcConfig.reflectIn table pData n 0 crcConfig.initialValue) =
      checksum crcConfig (bytesFrom crcConfig.reflectIn pData n 0) := by
  rw [checksum, length_bytesFrom]
  exact (crcLoop_congruent htable pData n 0 crcConfig.initialValue).remainder

/-- For every polynomial, initial value and data, the loop over a buffer leaves their
checksum. -/
theorem crc_is_remainder
    (htable : dcGenerateLookupTable true crcConfig.polynomial = (CpaStatus.success, some table))
    (pData : ℕ → BitVec 8) (computeLength : ℕ) (currentCrc : BitVec 64) :
    ∃ crc, dcBufferCalculateCrc64 crcConfig (some table) (some pData) computeLength currentCrc =
        (CpaStatus.success, crc) ∧
      poly crc = checksum crcConfig (bytesFrom crcConfig.reflectIn pData computeLength 0) :=
  ⟨_, rfl, crcLoop_checksum htable pData computeLength⟩

/-- The polynomial of `crc64_ecma_norm_by8`, nothing reflected. -/
def ecma : CrcControlData where
  polynomial := 0x42F0E1EBA9EA3693#64
  initialValue := 0#64
  reflectIn := false
  reflectOut := false
  xorOut := 0#64

/-- The same polynomial reflected both ways, with initial value and xor all ones. -/
def ecmaReflected : CrcControlData where
  polynomial := ecma.polynomial
  initialValue := BitVec.allOnes 64
  reflectIn := true
  reflectOut := true
  xorOut := BitVec.allOnes 64

/-- The digits from 1 to 9 in ASCII. -/
def digits (i : ℕ) : BitVec 8 := BitVec.ofNat 8 (0x31 + i)

theorem crc_is_remainder_ecma : ∃ (table : Table) (crc : BitVec 64),
    dcBufferCalculateCrc64 ecmaReflected (some table) (some digits) 9 0#64 =
        (CpaStatus.success, crc) ∧
      crc.reverse ^^^ ecmaReflected.xorOut = 0x995DC9BBDF1939FA#64 ∧
      poly crc = checksum ecmaReflected
        [0x8C#8, 0x4C#8, 0xCC#8, 0x2C#8, 0xAC#8, 0x6C#8, 0xEC#8, 0x1C#8, 0x9C#8] := by
  have htable : dcGenerateLookupTable true ecmaReflected.polynomial =
      (CpaStatus.success, some _) := rfl
  have hbytes : bytesFrom ecmaReflected.reflectIn digits 9 0 =
      [0x8C#8, 0x4C#8, 0xCC#8, 0x2C#8, 0xAC#8, 0x6C#8, 0xEC#8, 0x1C#8, 0x9C#8] := by decide
  have hvalue : (dcBufferCalculateCrc64 ecmaReflected
      (dcGenerateLookupTable true ecmaReflected.polynomial).2 (some digits) 9 0#64).2.reverse ^^^
        ecmaReflected.xorOut = 0x995DC9BBDF1939FA#64 := by decide +kernel
  obtain ⟨crc, hcrc, hpoly⟩ := crc_is_remainder htable digits 9 0#64
  rw [htable, hcrc] at hvalue
  rw [hbytes] at hpoly
  exact ⟨_, crc, hcrc, hvalue, hpoly⟩

/-! ### The loop over the buffers -/

/-- What each buffer holds of the bytes consumed. -/
def shares (reflectIn : Bool) : List FlatBuffer → ℕ → List (List (BitVec 8))
  | [], _ => []
  | buffer :: buffers, consumedBytes =>
      bytesFrom reflectIn (buffer.pData.getD fun _ => 0#8)
          (min buffer.dataLenInBytes consumedBytes) 0 ::
        shares reflectIn buffers (consumedBytes - buffer.dataLenInBytes)

variable {buffers : List FlatBuffer} {consumedBytes : ℕ} {before : List (List (BitVec 8))}
  {last : List (BitVec 8)}

theorem buffersLoop_last
    (htable : dcGenerateLookupTable true crcConfig.polynomial = (CpaStatus.success, some table))
    (hdata : ∀ buffer ∈ buffers, buffer.pData.isSome = true)
    (hshares : shares crcConfig.reflectIn buffers consumedBytes = before ++ [last])
    (swCrc : BitVec 64) :
    ∃ crc, buffersLoop crcConfig (some table) buffers consumedBytes swCrc =
        (CpaStatus.success, crc) ∧ poly crc = checksum crcConfig last := by
  induction buffers generalizing consumedBytes before swCrc with
  | nil =>
    rw [shares] at hshares
    exact absurd hshares.symm (List.append_ne_nil_of_right_ne_nil _ (List.cons_ne_nil _ _))
  | cons buffer buffers ih =>
    obtain ⟨pData, hsome⟩ := Option.isSome_iff_exists.mp (hdata buffer (List.mem_cons_self ..))
    have hlength : (if consumedBytes > buffer.dataLenInBytes then buffer.dataLenInBytes
        else consumedBytes) = min buffer.dataLenInBytes consumedBytes := by
      split <;> omega
    have hrest : (if consumedBytes > buffer.dataLenInBytes then
        consumedBytes - buffer.dataLenInBytes else 0) = consumedBytes - buffer.dataLenInBytes := by
      split <;> omega
    have hpoly := crcLoop_checksum htable pData (min buffer.dataLenInBytes consumedBytes)
    have hloop : buffersLoop crcConfig (some table) (buffer :: buffers) consumedBytes swCrc =
        buffersLoop crcConfig (some table) buffers (consumedBytes - buffer.dataLenInBytes)
          (crcLoop crcConfig.reflectIn table pData (min buffer.dataLenInBytes consumedBytes) 0
            crcConfig.initialValue) := by
      simp only [buffersLoop, dcBufferCalculateCrc64, hlength, hrest, hsome, ne_eq, not_true,
        if_false]
    rw [hloop]
    rw [shares, hsome, Option.getD_some] at hshares
    cases before with
    | nil =>
      -- the last buffer
      rw [List.nil_append, List.cons.injEq] at hshares
      cases buffers with
      | nil => exact ⟨_, rfl, by rw [hpoly, hshares.1]⟩
      | cons next rest => cases hshares.2
    | cons first before =>
      rw [List.cons_append, List.cons.injEq] at hshares
      exact ih (fun b hb => hdata b (List.mem_cons_of_mem _ hb)) hshares.2 _

/-- Over several buffers the function answers the checksum of the last one's share alone. -/
theorem prog_crc_of_last_buffer
    (htable : dcGenerateLookupTable true crcConfig.polynomial = (CpaStatus.success, some table))
    (hdata : ∀ buffer ∈ buffers, buffer.pData.isSome = true)
    (hshares : shares crcConfig.reflectIn buffers consumedBytes = before ++ [last])
    (swCrc : BitVec 64) :
    ∃ crc, dcCalculateProgCrc64 crcConfig (some table) buffers consumedBytes swCrc =
        (CpaStatus.success,
          (if crcConfig.reflectOut then crc.reverse else crc) ^^^ crcConfig.xorOut) ∧
      poly crc = checksum crcConfig last := by
  obtain ⟨crc, hloop, hpoly⟩ := buffersLoop_last htable hdata hshares swCrc
  refine ⟨crc, ?_, hpoly⟩
  simp only [dcCalculateProgCrc64, hloop, ne_eq, not_true, if_false, dcSwReflect64_eq]

/-- A buffer with all the bytes consumed, and an empty one. -/
def twoBuffers : List FlatBuffer := [⟨1, some fun _ => 1#8⟩, ⟨0, some fun _ => 0#8⟩]

theorem prog_crc_of_last_buffer_ecma : ∃ (table : Table) (crc : BitVec 64),
    dcCalculateProgCrc64 ecma (some table) twoBuffers 1 0#64 =
        (CpaStatus.success, crc ^^^ ecma.xorOut) ∧ poly crc = checksum ecma [] := by
  have htable : dcGenerateLookupTable true ecma.polynomial = (CpaStatus.success, some _) := rfl
  have hshares : shares ecma.reflectIn twoBuffers 1 = [[1#8]] ++ [[]] := rfl
  obtain ⟨crc, h⟩ := prog_crc_of_last_buffer htable (by decide) hshares 0#64
  exact ⟨_, crc, h⟩

theorem checksum_eq_append_iff (hodd : crcConfig.polynomial.getLsbD 0 = true)
    (l l' : List (BitVec 8)) : checksum crcConfig l' = checksum crcConfig (l ++ l') ↔
      checksum crcConfig l = poly crcConfig.initialValue := by
  have hsum : X ^ (8 * (l ++ l').length) * poly crcConfig.initialValue +
      X ^ 64 * message (l ++ l') =
      X ^ (8 * l'.length) * (X ^ (8 * l.length) * poly crcConfig.initialValue +
        X ^ 64 * message l) + X ^ 64 * message l' := by
    rw [message_append, List.length_append, Nat.mul_add, pow_add]
    ring
  rw [checksum, checksum, checksum, hsum, ← remainder_poly crcConfig.polynomial
    crcConfig.initialValue, remainder_eq_iff, remainder_eq_iff, remainder_poly]
  have hsame := EqMod.refl crcConfig.polynomial (X ^ 64 * message l')
  constructor
  · intro h
    have hboth := h.add hsame
    rw [add_assoc, add_assoc, CharTwo.add_self_eq_zero, add_zero, add_zero] at hboth
    exact hboth.symm.cancel hodd
  · intro h
    exact (h.symm.mul (X ^ (8 * l'.length))).add hsame

/-- Where the polynomial has its constant term, the function answers the checksum of all the
bytes consumed, as its comment says, exactly when those before the last buffer's take the
initial value back to itself. -/
theorem prog_crc_as_documented_iff
    (htable : dcGenerateLookupTable true crcConfig.polynomial = (CpaStatus.success, some table))
    (hodd : crcConfig.polynomial.getLsbD 0 = true)
    (hdata : ∀ buffer ∈ buffers, buffer.pData.isSome = true)
    (hshares : shares crcConfig.reflectIn buffers consumedBytes = before ++ [last])
    (swCrc : BitVec 64) :
    ∃ crc, dcCalculateProgCrc64 crcConfig (some table) buffers consumedBytes swCrc =
        (CpaStatus.success,
          (if crcConfig.reflectOut then crc.reverse else crc) ^^^ crcConfig.xorOut) ∧
      (poly crc = checksum crcConfig (before.flatten ++ last) ↔
        checksum crcConfig before.flatten = poly crcConfig.initialValue) := by
  obtain ⟨crc, hloop, hpoly⟩ := buffersLoop_last htable hdata hshares swCrc
  refine ⟨crc, ?_, ?_⟩
  · simp only [dcCalculateProgCrc64, hloop, ne_eq, not_true, if_false, dcSwReflect64_eq]
  · rw [hpoly]
    exact checksum_eq_append_iff hodd before.flatten last

/-- The data is one byte: its checksum is not that of no data. -/
theorem prog_crc_as_documented_iff_ecma : ∃ (table : Table) (crc : BitVec 64),
    dcCalculateProgCrc64 ecma (some table) twoBuffers 1 0#64 =
        (CpaStatus.success, crc ^^^ ecma.xorOut) ∧ poly crc ≠ checksum ecma [1#8] := by
  have htable : dcGenerateLookupTable true ecma.polynomial = (CpaStatus.success, some _) := rfl
  have hshares : shares ecma.reflectIn twoBuffers 1 = [[1#8]] ++ [[]] := rfl
  obtain ⟨crc, h, hiff⟩ := prog_crc_as_documented_iff htable (by decide) (by decide) hshares 0#64
  refine ⟨_, crc, h, fun hcrc => ?_⟩
  have hback := hiff.mp hcrc
  have hzero : poly ecma.initialValue = 0 := poly_zero
  have hone : poly (1#8) = poly (1#64) := by
    apply poly_setWidth (1#64)
    intro i hi
    have hne : ¬ i = 0 := by omega
    rw [BitVec.getLsbD_one, decide_eq_false hne, Bool.and_false]
  have hmessage : message [1#8] = poly (1#64) := by
    rw [message, message, List.length_nil, Nat.mul_zero, pow_zero, one_mul, add_zero, hone]
  have hdata : checksum ecma [1#8] = (X ^ 64 * poly (1#64)) %ₘ generator ecma.polynomial := by
    rw [checksum, hzero, hmessage, mul_zero, zero_add]
  have hnone : poly ecma.initialValue = (X ^ 64 * 0) %ₘ generator ecma.polynomial := by
    rw [hzero, mul_zero, zero_modByMonic]
  rw [show ([[1#8]] : List (List (BitVec 8))).flatten = [1#8] from rfl, hdata, hnone,
    remainder_eq_iff] at hback
  have hno := remainder_eq_iff.mpr (hback.cancel (by decide))
  rw [remainder_poly, zero_modByMonic, ← hzero] at hno
  exact absurd (poly_injective hno) (by decide)

end

end Crc64
end QatDcSample
