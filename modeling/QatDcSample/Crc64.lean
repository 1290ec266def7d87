import QatDcSample.Cpa
import QatDcSample.Lib.BinaryPolynomial

/-!
# The programmable CRC of the driver

The checksum that the driver computes in software to compare it with the device's: a table
for the polynomial of the session, one lookup for each byte of the data. A `Cpa8U` is a word of
8 bits here and a `Cpa64U` one of 64.
-/

namespace QatDcSample
namespace Crc64

/-- `CpaCrcControlData` -/
structure CrcControlData where
  polynomial : BitVec 64
  initialValue : BitVec 64
  reflectIn : Bool
  reflectOut : Bool
  xorOut : BitVec 64

/-- `CpaFlatBuffer`, as the function reads it: `none` is `NULL`. -/
structure FlatBuffer where
  dataLenInBytes : ℕ
  pData : Option (ℕ → BitVec 8)

/-- The loop of `dcSwReflect8` and of `dcSwReflect64`. -/
def reflectLoop {w : ℕ} : ℕ → BitVec w → BitVec w → BitVec w
  | 0, _, reflectVal => reflectVal
  | n + 1, inputVal, reflectVal =>
      reflectLoop n (inputVal >>> 1) ((reflectVal <<< 1) ||| (inputVal &&& 1#w))

def dcSwReflect8 (value : BitVec 8) : BitVec 8 := reflectLoop 8 value 0#8

def dcSwReflect64 (value : BitVec 64) : BitVec 64 := reflectLoop 64 value 0#64

/-- The loop over the bits in `dcGenerateLookupTable`. -/
def entryLoop (crc64Polynomial : BitVec 64) : ℕ → BitVec 64 → BitVec 64
  | 0, tableEntry => tableEntry
  | n + 1, tableEntry =>
      entryLoop crc64Polynomial n
        (if tableEntry.msb then (tableEntry <<< 1) ^^^ crc64Polynomial else tableEntry <<< 1)

def tableEntry (crc64Polynomial : BitVec 64) (i : BitVec 8) : BitVec 64 :=
  entryLoop crc64Polynomial 8 (i.setWidth 64 <<< 56)

abbrev Table := Vector (BitVec 64) 256

/-- `dcGenerateLookupTable`; `malloc` says whether there is memory for the table. -/
def dcGenerateLookupTable (malloc : Bool) (crc64Polynomial : BitVec 64) :
    CpaStatus × Option Table :=
  if malloc then
    (CpaStatus.success, some (Vector.ofFn fun i => tableEntry crc64Polynomial (BitVec.ofFin i)))
  else (CpaStatus.resource, none)

/-- The loop of `dcBufferCalculateCrc64`, from byte `i` on. -/
def crcLoop (reflectIn : Bool) (pCrcLookupTable : Table) (pData : ℕ → BitVec 8) :
    ℕ → ℕ → BitVec 64 → BitVec 64
  | 0, _, currentCrc => currentCrc
  | n + 1, i, currentCrc =>
      let nextByte := if reflectIn then dcSwReflect8 (pData i) else pData i
      let position : BitVec 8 :=
        (((currentCrc >>> 56) ^^^ nextByte.setWidth 64) &&& 0xFF#64).setWidth 8
      crcLoop reflectIn pCrcLookupTable pData n (i + 1)
        ((currentCrc <<< 8) ^^^ pCrcLookupTable[position.toNat])

def dcBufferCalculateCrc64 (crcConfig : CrcControlData) (pCrcLookupTable : Option Table)
    (pData : Option (ℕ → BitVec 8)) (computeLength : ℕ) (currentCrc : BitVec 64) :
    CpaStatus × BitVec 64 :=
  match pData, pCrcLookupTable with
  | some pData, some pCrcLookupTable =>
      (CpaStatus.success,
        crcLoop crcConfig.reflectIn pCrcLookupTable pData computeLength 0 crcConfig.initialValue)
  | _, _ => (CpaStatus.invalidParam, currentCrc)

/-- The loop of `dcCalculateProgCrc64` over the buffers. -/
def buffersLoop (crcConfig : CrcControlData) (pCrcLookupTable : Option Table) :
    List FlatBuffer → ℕ → BitVec 64 → CpaStatus × BitVec 64
  | [], _, swCrc => (CpaStatus.success, swCrc)
  | buffer :: buffers, consumedBytes, swCrc =>
      let flatBufferLength := buffer.dataLenInBytes
      let computeLength :=
        if consumedBytes > flatBufferLength then flatBufferLength else consumedBytes
      let consumedBytes :=
        if consumedBytes > flatBufferLength then consumedBytes - flatBufferLength else 0
      match dcBufferCalculateCrc64 crcConfig pCrcLookupTable buffer.pData computeLength swCrc with
      | (status, swCrc) =>
          if status ≠ CpaStatus.success then (status, swCrc)
          else buffersLoop crcConfig pCrcLookupTable buffers consumedBytes swCrc

def dcCalculateProgCrc64 (crcConfig : CrcControlData) (pCrcLookupTable : Option Table)
    (buffers : List FlatBuffer) (consumedBytes : ℕ) (swCrc : BitVec 64) : CpaStatus × BitVec 64 :=
  match buffersLoop crcConfig pCrcLookupTable buffers consumedBytes swCrc with
  | (status, swCrc) =>
      if status ≠ CpaStatus.success then (status, swCrc)
      else
        let swCrc := if crcConfig.reflectOut then dcSwReflect64 swCrc else swCrc
        (status, swCrc ^^^ crcConfig.xorOut)

end Crc64
end QatDcSample
