import ScratchOs.Machine.Record

namespace ScratchOs

open Data

/-! The virtual memory manager of `kernel/vmm.c`.

A `VirtualMemoryRegion` is 16 bytes on this target: `base` at 0, `size` at 4,
`next` at 8 and the one-byte `free` at 12. Region nodes are kept in storage
from `kmalloc`, so the manager runs on a platform that also has a heap.
-/

def virtualMemoryStart : Word := 0x400000
def virtualMemoryEnd : Word := 0xC0000000
def vmMetaSize : Word := 16
def bufferSize : Word := 0x10

structure HeapPlatform (σ : Type) extends Platform σ where
  kmalloc : Word → σ → Option (Word × σ)

structure Vmm (σ : Type) where
  vmBase : Word
  world : σ

namespace Vmm

section Fields

variable {σ : Type} (platform : Platform σ)

def loadBase (region : Word) (world : σ) : Option Word := platform.load32 region world
def loadSize (region : Word) (world : σ) : Option Word := platform.load32 (region + 4) world
def loadNext (region : Word) (world : σ) : Option Word := platform.load32 (region + 8) world
def loadFree (region : Word) (world : σ) : Option Bool :=
  (platform.load8 (region + 12) world).map (· != 0)

def storeBase (region value : Word) (world : σ) : Option σ := platform.store32 region value world
def storeSize (region value : Word) (world : σ) : Option σ := platform.store32 (region + 4) value world
def storeNext (region value : Word) (world : σ) : Option σ := platform.store32 (region + 8) value world
def storeFree (region : Word) (value : Bool) (world : σ) : Option σ :=
  platform.store8 (region + 12) (if value then 1 else 0) world

end Fields

variable {σ : Type} (platform : HeapPlatform σ)

def initializeVmm (world : σ) : Option (Vmm σ) := do
  let (vmBase, world) ← platform.kmalloc vmMetaSize world
  if vmBase = 0 then some { vmBase, world }
  else do
    let world ← storeBase platform.toPlatform vmBase virtualMemoryStart world
    let world ← storeSize platform.toPlatform vmBase (virtualMemoryEnd - virtualMemoryStart) world
    let world ← storeFree platform.toPlatform vmBase true world
    let world ← storeNext platform.toPlatform vmBase 0 world
    some { vmBase, world }

def regionFits (size : Word) (world : σ) (region : Word) : Option Bool := do
  let free ← loadFree platform.toPlatform region world
  if free then (loadSize platform.toPlatform region world).map fun regionSize => decide (size ≤ regionSize)
  else some false

def findFirstFreeVirtualMemoryRegion (size : Word) (vmm : Vmm σ) : Option Word :=
  findNode (regionFits platform size vmm.world) (loadNext platform.toPlatform · vmm.world) walkFuel vmm.vmBase

def splitVirtualMemoryRegion (freeRegion size : Word) (world : σ) : Option σ := do
  let regionSize ← loadSize platform.toPlatform freeRegion world
  if regionSize ≤ size then some world
  else do
    let (newRegion, world) ← platform.kmalloc vmMetaSize world
    if newRegion = 0 then some world
    else do
      let regionSize ← loadSize platform.toPlatform freeRegion world
      let world ← storeSize platform.toPlatform newRegion (regionSize - size) world
      let base ← loadBase platform.toPlatform freeRegion world
      let world ← storeBase platform.toPlatform newRegion (base + size) world
      let next ← loadNext platform.toPlatform freeRegion world
      let world ← storeNext platform.toPlatform newRegion next world
      let world ← storeFree platform.toPlatform newRegion true world
      let world ← storeSize platform.toPlatform freeRegion size world
      storeNext platform.toPlatform freeRegion newRegion world

/-- The addition wraps for sizes near `2 ^ 32`, which then count as 0. -/
def alignSizeToPageSize (size : Word) : Word := ((size + pageSize - 1) / pageSize) * pageSize

/-- The mapping loop of `vmm_alloc`. It reads the bounds of the region again
before every page, and its condition admits the page behind the region. -/
def mapRegionPages (freeRegion flags : Word) : Nat → Word → σ → Option (Bool × σ)
  | 0, _, _ => none
  | fuel + 1, virtualAddr, world => do
      let size ← loadSize platform.toPlatform freeRegion world
      let base ← loadBase platform.toPlatform freeRegion world
      if virtualAddr ≤ size + base then do
        let physicalAddr := (platform.allocBlock world).1
        let world := (platform.allocBlock world).2
        if physicalAddr = 0 then some (false, world)
        else do
          let (mapped, world) ← platform.mapAddress virtualAddr physicalAddr flags world
          let world := if mapped then world else platform.freeBlock physicalAddr world
          mapRegionPages freeRegion flags fuel (virtualAddr + pageSize) world
      else some (true, world)

def vmmAlloc (size flags : Word) (vmm : Vmm σ) : Option (Word × Vmm σ) :=
  let size := alignSizeToPageSize size
  if vmm.vmBase = 0 ∨ size = 0 then some (0, vmm)
  else do
    let freeRegion ← findFirstFreeVirtualMemoryRegion platform size vmm
    if freeRegion = 0 then some (0, vmm)
    else do
      let regionSize ← loadSize platform.toPlatform freeRegion vmm.world
      if regionSize < size + bufferSize then some (0, vmm)
      else do
        let world ← splitVirtualMemoryRegion platform freeRegion size vmm.world
        let base ← loadBase platform.toPlatform freeRegion world
        let (mapped, world) ← mapRegionPages platform freeRegion flags walkFuel base world
        if mapped then do
          let world ← storeFree platform.toPlatform freeRegion false world
          let base ← loadBase platform.toPlatform freeRegion world
          some (base, { vmm with world })
        else some (0, { vmm with world })

theorem vmmAlloc_unset {vmm : Vmm σ} (unset : vmm.vmBase = 0) (size flags : Word) :
    vmmAlloc platform size flags vmm = some (0, vmm) := if_pos (.inl unset)

def findMemoryRegion (ptr : Word) (vmm : Vmm σ) : Option Word :=
  findNode (fun region => (loadBase platform.toPlatform region vmm.world).map fun base => decide (base = ptr))
    (loadNext platform.toPlatform · vmm.world) walkFuel vmm.vmBase

def vmmFree (ptr : Word) (vmm : Vmm σ) : Option (Vmm σ) :=
  if ptr = 0 ∨ virtualMemoryEnd ≤ ptr ∨ ptr < kernelHeapStart then some vmm
  else do
    let region ← findMemoryRegion platform ptr vmm
    if region = 0 then some vmm
    else do
      let world ← storeFree platform.toPlatform region true vmm.world
      let nextRegion ← loadNext platform.toPlatform region world
      if nextRegion = 0 then some { vmm with world }
      else do
        let nextFree ← loadFree platform.toPlatform nextRegion world
        if nextFree then do
          let next ← loadNext platform.toPlatform nextRegion world
          let world ← storeNext platform.toPlatform region next world
          let size ← loadSize platform.toPlatform region world
          let nextSize ← loadSize platform.toPlatform nextRegion world
          let world ← storeSize platform.toPlatform region (size + nextSize) world
          some { vmm with world }
        else some { vmm with world }

def getTotalSizeFrom (world : σ) : Nat → Word → Word → Option Word
  | 0, _, _ => none
  | fuel + 1, current, totalSize =>
      if current = 0 then some totalSize
      else do
        let size ← loadSize platform.toPlatform current world
        let next ← loadNext platform.toPlatform current world
        getTotalSizeFrom world fuel next (totalSize + size)

def getTotalSize (vmm : Vmm σ) : Option Word := getTotalSizeFrom platform vmm.world walkFuel vmm.vmBase 0

/-- The guard of `vmm_free` wants a pointer below `VIRTUAL_MEMORY_END` and not
below `KERNEL_HEAP_START`, which lies above it: no pointer passes. -/
theorem vmmFree_eq (ptr : Word) (vmm : Vmm σ) : vmmFree platform ptr vmm = some vmm := by
  have refused : ptr = 0 ∨ virtualMemoryEnd ≤ ptr ∨ ptr < kernelHeapStart := by
    unfold virtualMemoryEnd kernelHeapStart
    by_cases high : (0xC0000000 : Word) ≤ ptr
    · exact .inr (.inl high)
    · refine .inr (.inr ?_)
      rw [BitVec.le_def] at high
      rw [BitVec.lt_def]
      exact Nat.lt_trans (Nat.lt_of_not_le high) (by decide)
  rw [vmmFree, if_pos refused]

end Vmm

end ScratchOs
