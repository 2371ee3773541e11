import ScratchOs.Machine.Record

namespace ScratchOs

open Data

/-! The kernel heap of `kernel/kmalloc.c`.

A `Block` header is 16 bytes on this target: `next` at 0, `size` at 4, the
one-byte `free` at 8 and `canary` at 12. Headers are read and written through
the platform, field by field and in the order of the source.
-/

def initialKernelHeapSize : Word := 0x10000
def canaryValue : Word := 0x69420691
def minMemBlockSize : Word := 64
def metaBlockSize : Word := 16

/-- The two globals of `kmalloc.c` over the state of the machine. -/
structure Heap (σ : Type) where
  gMemoryBase : Word
  endOfHeap : Word
  world : σ

namespace Heap

variable {σ : Type} (platform : Platform σ)

def loadNext (block : Word) (world : σ) : Option Word := platform.load32 block world
def loadSize (block : Word) (world : σ) : Option Word := platform.load32 (block + 4) world
def loadFree (block : Word) (world : σ) : Option Bool :=
  (platform.load8 (block + 8) world).map (· != 0)
def loadCanary (block : Word) (world : σ) : Option Word := platform.load32 (block + 12) world

def storeNext (block value : Word) (world : σ) : Option σ := platform.store32 block value world
def storeSize (block value : Word) (world : σ) : Option σ := platform.store32 (block + 4) value world
def storeFree (block : Word) (value : Bool) (world : σ) : Option σ :=
  platform.store8 (block + 8) (if value then 1 else 0) world
def storeCanary (block value : Word) (world : σ) : Option σ := platform.store32 (block + 12) value world

/-- The mapping loop of `initialize_kernel_heap`: a `NULL` frame is mapped like
any other, only a refused mapping stops it. -/
def mapInitialPages : Nat → Word → σ → Option (Bool × σ)
  | 0, _, world => some (true, world)
  | left + 1, virtualAddr, world => do
      let physicalAddr := (platform.allocBlock world).1
      let world := (platform.allocBlock world).2
      let (mapped, world) ← platform.mapAddress virtualAddr physicalAddr pteReadWrite world
      if mapped then mapInitialPages left (virtualAddr + pageSize) world
      else some (false, world)

/-- `virtual_addr <= KERNEL_HEAP_START + INITIAL_KERNEL_HEAP_SIZE` admits both ends. -/
def initialPages : Nat := initialKernelHeapSize.toNat / pageSize.toNat + 1

def initializeKernelHeap (world : σ) : Option (Heap σ) := do
  let (mapped, world) ← mapInitialPages platform initialPages kernelHeapStart world
  if mapped then
    let gMemoryBase := kernelHeapStart
    let world ← storeFree platform gMemoryBase true world
    let world ← storeSize platform gMemoryBase initialKernelHeapSize world
    let world ← storeNext platform gMemoryBase 0 world
    let world ← storeCanary platform gMemoryBase canaryValue world
    let size ← loadSize platform gMemoryBase world
    some { gMemoryBase, endOfHeap := gMemoryBase + size, world }
  else some { gMemoryBase := 0, endOfHeap := 0, world }

/-- `current->free && current->size >= size`, which reads the size of free blocks only. -/
def blockFits (size : Word) (world : σ) (block : Word) : Option Bool := do
  let free ← loadFree platform block world
  if free then (loadSize platform block world).map fun blockSize => decide (size ≤ blockSize)
  else some false

def findFirstFreeKernelBlock (size : Word) (heap : Heap σ) : Option Word :=
  findNode (blockFits platform size heap.world) (loadNext platform · heap.world) walkFuel heap.gMemoryBase

/-- The loop of `ksbrk`: one frame is taken for every byte address, and given
back when the page is there already. -/
def mapHeapBytes : Nat → Word → σ → Option (Bool × σ) := mapPages platform 1 pteReadWrite

def ksbrk (nbytes : Word) (heap : Heap σ) : Option (Word × Heap σ) :=
  if kernelHeapEnd < heap.endOfHeap + nbytes then some (0, heap)
  else do
    let prevHeapEnd := heap.endOfHeap
    let newHeapEnd := heap.endOfHeap + nbytes
    let steps := newHeapEnd.toNat + 1 - prevHeapEnd.toNat
    let (mapped, world) ← mapHeapBytes platform steps prevHeapEnd heap.world
    if mapped then some (prevHeapEnd, { heap with endOfHeap := newHeapEnd, world })
    else some (0, { heap with world })

def requestSpace (size : Word) (heap : Heap σ) : Option (Word × Heap σ) := do
  let (block, heap) ← ksbrk platform 0 heap
  let (request, heap) ← ksbrk platform (size + metaBlockSize) heap
  if block ≠ request then some (0, heap)
  else if request = 0 then some (0, heap)
  else do
    let world ← storeSize platform block size heap.world
    let world ← storeNext platform block 0 world
    let world ← storeFree platform block false world
    let world ← storeCanary platform block canaryValue world
    some (block, { heap with world })

def getLastKernelBlockFrom : Nat → Word → σ → Option Word
  | 0, _, _ => none
  | fuel + 1, current, world => do
      let next ← loadNext platform current world
      if next ≠ 0 then getLastKernelBlockFrom fuel next world else some current

def getLastKernelBlock (heap : Heap σ) : Option Word :=
  getLastKernelBlockFrom platform walkFuel heap.gMemoryBase heap.world

def splitBlock (block nbytes : Word) (world : σ) : Option σ := do
  let originalSize ← loadSize platform block world
  let world ← storeSize platform block nbytes world
  let blockSize ← loadSize platform block world
  let newBlock := block + blockSize + metaBlockSize
  let world ← storeFree platform newBlock true world
  let next ← loadNext platform block world
  let world ← storeNext platform newBlock next world
  let world ← storeSize platform newBlock (originalSize - nbytes - metaBlockSize) world
  let world ← storeCanary platform newBlock canaryValue world
  storeNext platform block newBlock world

def kmalloc (nbytes : Word) (heap : Heap σ) : Option (Word × Heap σ) :=
  if nbytes = 0 ∨ heap.gMemoryBase = 0 then some (0, heap)
  else do
    let block ← findFirstFreeKernelBlock platform nbytes heap
    if block = 0 then do
      let (block, heap) ← requestSpace platform nbytes heap
      if block = 0 then some (0, heap)
      else do
        let lastBlock ← getLastKernelBlock platform heap
        let world ← storeNext platform lastBlock block heap.world
        let world ← storeFree platform block false world
        some (block + metaBlockSize, { heap with world })
    else do
      let size ← loadSize platform block heap.world
      let world ← if nbytes + metaBlockSize + minMemBlockSize < size
        then splitBlock platform block nbytes heap.world else some heap.world
      let world ← storeFree platform block false world
      some (block + metaBlockSize, { heap with world })

/-- `kernel_Panic` halts the machine, so a bad canary has no result. -/
def kfree (ptr : Word) (heap : Heap σ) : Option (Heap σ) :=
  if ptr = 0 ∨ kernelHeapEnd ≤ ptr ∨ ptr ≤ kernelHeapStart then some heap
  else do
    let block := ptr - metaBlockSize
    let canary ← loadCanary platform block heap.world
    if canary ≠ canaryValue then none
    else do
      let world ← storeFree platform block true heap.world
      let nextBlock ← loadNext platform block world
      if nextBlock = 0 then some { heap with world }
      else do
        let nextFree ← loadFree platform nextBlock world
        if nextFree then do
          let next ← loadNext platform nextBlock world
          let world ← storeNext platform block next world
          let size ← loadSize platform block world
          let nextSize ← loadSize platform nextBlock world
          let world ← storeSize platform block (size + (nextSize + metaBlockSize)) world
          some { heap with world }
        else some { heap with world }

end Heap

end ScratchOs
