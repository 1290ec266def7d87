import QatDcSample.SlabRuns
import QatDcSample.PageTable
import Mathlib.Data.Int.Notation

/-!
# Contiguous memory for the driver and its users

`qae_mem_common.c`, `qae_mem_lib_utils.h` and the slab part of
`qae_mem_utils_uio.c`: slabs mapped from the kernel, found again by hash key, kept
in a cache when all their memory was freed. Lists hold control block addresses.
-/

namespace QatDcSample
namespace Numa

open Slab PageTable

abbrev QAE_MAX_ALLOC_SIZE : ℕ := 0x400000
abbrev QAE_MAX_PHYS_ALIGN : ℕ := 0x400000
abbrev NUMA_ANY_NODE : ℤ := -1

/-- `g_max_cache` and `g_max_lookup_num`. -/
abbrev MAX_CACHE : ℕ := 0x800000
abbrev MAX_LOOKUP_NUM : ℕ := 10

inductive SlabType where
  | SMALL | LARGE | HUGE_PAGE
  deriving DecidableEq

/-- `+= 1` and `-= 1` on a `uint32_t`. -/
def incr32 (n : ℕ) : ℕ := if n + 1 = UInt32.size then 0 else n + 1

def decr32 (n : ℕ) : ℕ := if n = 0 then UInt32.size - 1 else n - 1

/-- `dev_mem_info_t`; `ctrl` is what follows it in the control block of a slab. -/
structure DevMemInfo where
  nodeId : ℤ
  size : ℕ
  type : SlabType
  allocations : ℕ
  phy_addr : BitVec 64
  virt_addr : ℕ
  ctrl : BlockCtrl

def paging (hugepages : Bool) : Paging := if hugepages then hugepage else page

/-- The state of the library in one process, with or without huge pages. -/
structure Memory (hugepages : Bool) where
  slab : ℕ → DevMemInfo
  userMem : List ℕ
  userLargeMem : List ℕ
  userCache : List ℕ
  slab_list : ℕ → List ℕ
  page_table : Table (paging hugepages)
  cache_size : ℕ
  strict_node : Bool

variable {hugepages : Bool}

namespace Memory

def setSlab (m : Memory hugepages) (p : ℕ) (info : DevMemInfo) : Memory hugepages :=
  { m with slab := Function.update m.slab p info }

def setCtrl (m : Memory hugepages) (p : ℕ) (ctrl : BlockCtrl) : Memory hugepages :=
  m.setSlab p { m.slab p with ctrl }

def key (m : Memory hugepages) (p : ℕ) : ℕ := (getKey (m.slab p).phy_addr).toNat

def addSlabToHash (m : Memory hugepages) (p : ℕ) : Memory hugepages :=
  { m with slab_list := Function.update m.slab_list (m.key p) (p :: m.slab_list (m.key p)) }

def delSlabFromHash (m : Memory hugepages) (p : ℕ) : Memory hugepages :=
  { m with slab_list := Function.update m.slab_list (m.key p) ((m.slab_list (m.key p)).erase p) }

/-- Addresses are unsigned: the offset of an address below the slab is huge. -/
def within (m : Memory hugepages) (virt_addr p : ℕ) : Bool :=
  (virt_addr + UInt64.size - (m.slab p).virt_addr) % UInt64.size < (m.slab p).size

def findSlabInHash (m : Memory hugepages) (virt_addr : ℕ) : Option ℕ :=
  (m.slab_list (loadKeyIn (paging hugepages) m.page_table virt_addr).toNat).find?
    (m.within virt_addr)

/-- `init_slab_and_alloc` -/
def initSlabAndAlloc (m : Memory hugepages) (p size phys_align_unit : ℕ) :
    Option (Option ℕ × Memory hugepages) :=
  match initSlab (m.slab p).size (m.slab p).ctrl with
  | none => none
  | some ctrl =>
      match qaeMemAlloc p ctrl size phys_align_unit with
      | none => none
      | some (none, ctrl) => some (none, m.setCtrl p ctrl)
      | some (some virt_addr, ctrl) =>
          some (some virt_addr, { m.setCtrl p ctrl with userMem := p :: m.userMem })

/-- `push_slab`; the answer is whether the slab was taken. -/
def pushSlab (m : Memory hugepages) (p : ℕ) : Bool × Memory hugepages :=
  if m.cache_size + (m.slab p).size ≤ MAX_CACHE then
    (true, { m with
      cache_size := m.cache_size + (m.slab p).size
      userCache := p :: m.userCache })
  else
    (false, m)

def popSlab (m : Memory hugepages) (node : ℤ) : Option (ℕ × Memory hugepages) :=
  match m.userCache.find? (fun p =>
      !(decide (node ≠ NUMA_ANY_NODE) && m.strict_node && decide (node ≠ (m.slab p).nodeId))) with
  | none => none
  | some p =>
      some (p, { m with
        cache_size := m.cache_size - (m.slab p).size
        userCache := m.userCache.erase p })

/-- `__qae_free_slab`: the slab is unmapped and goes back to the kernel. -/
def freeSlab (m : Memory hugepages) (p : ℕ) : Memory hugepages := m.delSlabFromHash p

/-- `__qae_userMemLookupBySize`, from a place of the list on. -/
def userMemLookupBySize (size : ℕ) (node : ℤ) (align : ℕ) : ℕ → List ℕ → Memory hugepages →
    Option (Option (ℕ × ℕ) × Memory hugepages)
  | _, [], m => some (none, m)
  | link_num, p :: rest, m =>
      if m.strict_node && decide ((m.slab p).nodeId ≠ node) then
        userMemLookupBySize size node align link_num rest m
      else
        match qaeMemAlloc p (m.slab p).ctrl size align with
        | none => none
        | some (some block, ctrl) => some (some (p, block), m.setCtrl p ctrl)
        | some (none, ctrl) =>
            if link_num + 1 ≥ MAX_LOOKUP_NUM then
              some (none, m.setCtrl p ctrl)
            else
              userMemLookupBySize size node align (link_num + 1) rest (m.setCtrl p ctrl)

/-- `__qae_find_slab` -/
def findSlab (m : Memory hugepages) (size : ℕ) (node : ℤ) (align : ℕ) :
    Option (Option (ℕ × ℕ) × Memory hugepages) :=
  match userMemLookupBySize size node align 0 m.userMem m with
  | none => none
  | some (some found, m) => some (some found, m)
  | some (none, m) =>
      match m.popSlab node with
      | none => some (none, m)
      | some (p, m) =>
          match m.initSlabAndAlloc p size align with
          | none => none
          | some (some addr, m) => some (some (p, addr), m)
          | some (none, m) => some (none, m.freeSlab p)

end Memory

/-- What the kernel is asked for. -/
structure SlabRequest where
  size : ℕ
  node : ℤ
  type : SlabType

/-- What it answers with: where it mapped the control block and, of a large slab, the
memory. -/
structure NewSlab where
  ctrl_addr : ℕ
  virt_addr : ℕ
  phy_addr : BitVec 64
  size : ℕ
  nodeId : ℤ

/-- What a request for a slab comes to: a new slab or, if it fails, the node of the
memory found for it where that was not mapped. -/
abbrev SlabAnswer := Except (Option ℤ) NewSlab

/-- The information block of a new slab. -/
def NewSlab.info (new : NewSlab) (type : SlabType) : DevMemInfo where
  nodeId := new.nodeId
  size := new.size
  type := type
  allocations := 0
  phy_addr := new.phy_addr
  virt_addr := if type = .LARGE then new.virt_addr else new.ctrl_addr
  ctrl := blankCtrl

/-- `g_strict_node` is cleared once `ioctl_alloc_slab` got memory of another node,
before it maps that memory. -/
def Memory.noteNode (m : Memory hugepages) (request : SlabRequest) (nodeId : Option ℤ) :
    Memory hugepages :=
  { m with
    strict_node := m.strict_node &&
      decide (request.type = .HUGE_PAGE ∨ ∀ n ∈ nodeId, request.node = n) }

/-- `__qae_alloc_slab`; a small slab starts with its own control block. -/
def Memory.allocSlab (m : Memory hugepages) (request : SlabRequest)
    (kernel : SlabRequest → SlabAnswer) : Option ℕ × Memory hugepages :=
  match kernel request with
  | .error nodeId => (none, m.noteNode request nodeId)
  | .ok new =>
      (some new.ctrl_addr, ((m.noteNode request (some new.nodeId)).setSlab new.ctrl_addr
        (new.info request.type)).addSlabToHash new.ctrl_addr)

/-- The end of `__qae_alloc_addr`: a new slab, entered in the page table, is put in its
list and serves the request. -/
def Memory.serveFrom (m : Memory hugepages) (p size phys_align_unit : ℕ) (mem_type : SlabType) :
    Option (Option ℕ × Memory hugepages) :=
  if mem_type = .LARGE then
    some (some (m.slab p).virt_addr, { m with userLargeMem := p :: m.userLargeMem })
  else if (m.slab p).virt_addr % 4096 ≠ 0 then
    some (none, m.freeSlab p)
  else
    match m.initSlabAndAlloc p size phys_align_unit with
    | none => none
    | some (none, m) => some (none, m.freeSlab p)
    | some (some addr, m) => some (some addr, m)

/-- The rest of `__qae_alloc_addr` once a new slab is mapped. -/
def Memory.useSlab (m : Memory hugepages) (p size phys_align_unit : ℕ) (mem_type : SlabType)
    (mmaps : ℕ → ℕ → Bool) : Option (Option ℕ × Memory hugepages) :=
  let info := m.slab p
  let page_table := storeMmapRange (paging hugepages) m.page_table info.virt_addr info.phy_addr
    info.size mmaps
  ({ m with page_table }.setSlab p { info with allocations := 1 }).serveFrom p size
    phys_align_unit mem_type

/-- A request is served from a slab of its own. -/
def isLarge (size phys_alignment_byte : ℕ) : Bool :=
  decide (divRoundUp size UNIT_SIZE + RESERVED > BLOCK_SIZES) ||
    decide (phys_alignment_byte ≥ SLAB_SIZE)

/-- The slab asked for when a request needs a new one. -/
def slabRequest (hugepages : Bool) (size : ℕ) (node : ℤ) (phys_alignment_byte : ℕ) : SlabRequest :=
  if isLarge size phys_alignment_byte then
    { size := divRoundUp (max size phys_alignment_byte) UNIT_SIZE * UNIT_SIZE
      node
      type := .LARGE }
  else
    { size := BLOCK_SIZES * UNIT_SIZE
      node
      type := if hugepages then .HUGE_PAGE else .SMALL }

/-- `__qae_alloc_addr`. -/
def Memory.allocAddr (m : Memory hugepages) (size : ℕ) (node : ℤ) (phys_alignment_byte : ℕ)
    (kernel : SlabRequest → SlabAnswer) (mmaps : ℕ → ℕ → Bool) :
    Option (Option ℕ × Memory hugepages) :=
  let phys_align_unit := phys_alignment_byte / UNIT_SIZE
  let request := slabRequest hugepages size node phys_alignment_byte
  if isLarge size phys_alignment_byte then
    if hugepages then
      some (none, m)
    else
      match m.allocSlab request kernel with
      | (none, m) => some (none, m)
      | (some p, m) => m.useSlab p size phys_align_unit request.type mmaps
  else
    match m.findSlab size node phys_align_unit with
    | none => none
    | some (some (p, addr), m) =>
        some (some addr, m.setSlab p
          { m.slab p with allocations := incr32 (m.slab p).allocations })
    | some (none, m) =>
        match m.allocSlab request kernel with
        | (none, m) => some (none, m)
        | (some p, m) => m.useSlab p size phys_align_unit request.type mmaps

/-- A power of two, as the code tests it. -/
def alignmentOk (phys_alignment_byte : ℕ) : Bool :=
  phys_alignment_byte ≠ 0 && phys_alignment_byte ≤ QAE_MAX_PHYS_ALIGN &&
    phys_alignment_byte &&& (phys_alignment_byte - 1) = 0

def Memory.qaeMemAllocNUMA (m : Memory hugepages) (size : ℕ) (node : ℤ)
    (phys_alignment_byte : ℕ) (kernel : SlabRequest → SlabAnswer) (mmaps : ℕ → ℕ → Bool) :
    Option (Option ℕ × Memory hugepages) :=
  if size = 0 then some (none, m)
  else if size > QAE_MAX_ALLOC_SIZE then some (none, m)
  else if alignmentOk phys_alignment_byte = false then some (none, m)
  else m.allocAddr size node phys_alignment_byte kernel mmaps

/-- The end of `__qae_free_addr` for a slab whose last block was released: it goes to
the cache, or to the kernel if the cache is full. -/
def Memory.recycle (m : Memory hugepages) (p : ℕ) : Memory hugepages :=
  match { m with userMem := m.userMem.erase p }.pushSlab p with
  | (true, m) => m
  | (false, m) => m.freeSlab p

/-- `__qae_free_addr` -/
def Memory.freeAddr (m : Memory hugepages) (va : ℕ) (secure_free : Bool) :
    Option (Memory hugepages) :=
  match m.findSlabInHash va with
  | none => some m
  | some p =>
      if (m.slab p).type = .LARGE then
        some ({ m with userLargeMem := m.userLargeMem.erase p }.freeSlab p)
      else
        match qaeMemFree p (m.slab p).ctrl va secure_free with
        | none => none
        | some r =>
            let m := m.setCtrl p r.block_ctrl
            if r.released then
              let allocations := decr32 (m.slab p).allocations
              let m := m.setSlab p { m.slab p with allocations }
              if allocations ≠ 0 then some m else some (m.recycle p)
            else
              some m

/-- `__qae_memFreeNUMA` on the pointer itself. -/
def Memory.qaeMemFreeNUMA (m : Memory hugepages) (va : ℕ) (secure_free : Bool) :
    Option (Memory hugepages) :=
  if va = 0 then some m else m.freeAddr va secure_free

def Memory.qaeVirtToPhysNUMA (m : Memory hugepages) (va : ℕ) : BitVec 64 :=
  loadAddrIn (paging hugepages) m.page_table va

/-- `qaePhysToVirtNUMA`: the first slab of the list that the address is in. -/
def Memory.qaePhysToVirtNUMA (m : Memory hugepages) (physAddress : BitVec 64) : Option ℕ :=
  let offset := fun p => (physAddress - (m.slab p).phy_addr).toNat
  match m.userMem.find? (fun p => offset p < (m.slab p).size) with
  | none => none
  | some p => some ((m.slab p).virt_addr + offset p)

end Numa
end QatDcSample
