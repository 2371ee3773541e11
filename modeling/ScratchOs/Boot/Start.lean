import ScratchOs.Boot.Directory
import ScratchOs.Boot.Geometry
import ScratchOs.Boot.MemoryMap
import ScratchOs.Paging.Switch
import ScratchOs.Utils.Memtools

namespace ScratchOs

open Data

/-! `start` of `boot/stage2/stage2.c`: from the boot sector to the kernel. What it
prints goes to the screen only and is left out, but for the message it stops with. -/

namespace Data.ByteMemory

def read16 (memory : ByteMemory) (address : Word) : BitVec 16 := memory (address + 1) ++ memory address

end Data.ByteMemory

namespace Boot

def bootSectAddress : Word := 0x7c00
def directoryBuffer : Word := 0x7e00

/-- The packed structure at this address. -/
def Fat12Bpb.read (memory : ByteMemory) (address : Word) : Fat12Bpb where
  bytesPerSector := memory.read16 (address + 11)
  sectorsPerCluster := memory (address + 13)
  reservedSectors := memory.read16 (address + 14)
  numFATs := memory (address + 16)
  maxRootDirEntries := memory.read16 (address + 17)
  sectorsPerFAT := memory.read16 (address + 22)

def DirectoryEntry.read (memory : ByteMemory) (entry : Word) : DirectoryEntry where
  clusterHiBytes := memory.read16 (entry + 20)
  clusterLoBytes := memory.read16 (entry + 26)

/-- `entry->fileSize`. -/
def fileSizeAt (memory : ByteMemory) (entry : Word) : Word := memory.read32 (entry + 28)

/-- The number of sectors is cut to sixteen bits by the call of `disk_read`. -/
def readFat (drive : Drive) (bpb : Fat12Bpb) (disk : Disk) (fatBuffer : Word) (loader : Loader) : Option (Bool × Loader) :=
  diskRead drive (bpb.reservedSectors.setWidth 32) (BitVec.ofNat 16 (bpb.sectorsPerFAT.toNat * bpb.numFATs.toNat)) fatBuffer
    (disk.headsPerCylinder.setWidth 8) (disk.sectorsPerTrack.setWidth 8) loader

def diskOf (registers : ParamRegisters) : Disk :=
  ⟨(x86GetDiskParams registers).sectorsPerTrack, (x86GetDiskParams registers).headsPerCylinder⟩

/-- The endless loop behind `End`, or the jump to the kernel. -/
inductive Outcome where
  | halted (message : String) (loader : Loader)
  | kernelStart (memInfo : E820.MemoryInfo) (memory : ByteMemory)

/-- `if (error)` the message and the endless loop. -/
def checked (message : String) (read : Option (Bool × Loader)) (next : Loader → Option Outcome) : Option Outcome := do
  let (error, loader) ← read
  if error then some (.halted message loader) else next loader

/-- `failed` and `registers` are the carry flag and the answer of `int 13h, AH=08h`.
The loop of `read_file` is cut off after `fuel` clusters. -/
def start (fuel : Nat) (drive : Drive) (failed : Bool) (registers : ParamRegisters) (loader : Loader) : Option Outcome :=
  if failed then some (.halted "failed ret\n" loader)
  else
    let disk := diskOf registers
    let memInfo := E820.readE820MemoryInfo loader.memory
    let bpb := Fat12Bpb.read loader.memory bootSectAddress
    checked "Failed to read root directory\n" (readDirectoryBuffer drive bpb disk directoryBuffer loader) fun loader =>
      match findKernel loader.memory directoryBuffer bpb with
      | none => some (.halted "Failed to find file\n" loader)
      | some entry =>
          checked "Failed to read FAT\n" (readFat drive bpb disk fatBuffer loader) fun loader =>
            checked "Failed to read file\n"
              (readFile fuel drive (DirectoryEntry.read loader.memory entry) disk bpb kernelBuffer fatBuffer loader) fun loader =>
                let memory := Memtools.memcpy kernelLoadAddr kernelBuffer (fileSizeAt loader.memory entry).toNat loader.memory
                some (.kernelStart memInfo (Stage2.initializePaging memory))

/-! The volume and the memory it is read into. -/

/-- The disk from this sector on, as if it were in memory from address 0 on. -/
def diskImage (drive : Drive) (sector : Nat) : ByteMemory := fun place => drive.bytes (sector * bytesPerDiskSector + place.toNat)

def directoryImage (drive : Drive) (bpb : Fat12Bpb) : ByteMemory := diskImage drive (directorySector bpb)

def tableImage (drive : Drive) (bpb : Fat12Bpb) : ByteMemory := diskImage drive bpb.reservedSectors.toNat

def tableSectors (bpb : Fat12Bpb) : Nat := bpb.sectorsPerFAT.toNat * bpb.numFATs.toNat

/-- The first entry with the kernel's name is this one, and its file is this chain. -/
structure HasKernel (drive : Drive) (bpb : Fat12Bpb) (index : Nat) (chain : List Nat) : Prop where
  inside : index < bpb.maxRootDirEntries.toNat
  name : diskName drive bpb index = kernelName
  first : ∀ earlier < index, diskName drive bpb earlier ≠ kernelName
  start : chain.head? = some (getStartingCluster (DirectoryEntry.read (directoryImage drive bpb) (entryAddress 0 index))).toNat
  linked : FatChain (fatEntry (tableImage drive bpb) 0) chain
  entries : ∀ cluster ∈ chain, cluster * 3 / 2 + 1 < tableSectors bpb * bytesPerDiskSector
  size : (fileSizeAt (directoryImage drive bpb) (entryAddress 0 index)).toNat ≤ chain.length * clusterSize bpb

/-- The stack of `start` begins at `0x90000` and is given a page. -/
def stackEnd : Nat := 0x8F000

/-- All sectors can be named, and no buffer reaches into the next or into the stack. -/
structure KernelFits (drive : Drive) (bpb : Fat12Bpb) (chain : List Nat) : Prop where
  directory : DirectoryFits drive bpb directoryBuffer
  fewTables : tableSectors bpb < 256
  tables : ∀ sector < tableSectors bpb, bpb.reservedSectors.toNat + sector < 256 * (drive.heads * drive.sectors)
  clusters : ∀ cluster ∈ chain, ∀ sector < bpb.sectorsPerCluster.toNat,
    clusterSector bpb cluster + sector < 256 * (drive.heads * drive.sectors)
  directoryEnd : directoryBuffer.toNat + bpb.maxRootDirEntries.toNat * directoryEntryByteSize ≤ fatBuffer.toNat
  tablesEnd : fatBuffer.toNat + tableSectors bpb * bytesPerDiskSector ≤ kernelBuffer.toNat
  kernelEnd : kernelBuffer.toNat + chain.length * clusterSize bpb ≤ stackEnd

variable {drive : Drive} {disk : Disk} {bpb : Fat12Bpb} {loader : Loader} {memory other : ByteMemory} {buffer : Word}
  {index first count fuel : Nat} {chain : List Nat}

/-- Consecutive sectors into a buffer below the end of the first megabyte. -/
theorem Readable.diskRead (readable : Readable drive disk bpb) (few : count < 256)
    (below : ∀ sector < count, first + sector < 256 * (drive.heads * drive.sectors)) (named : first < 2 ^ 32)
    (low : buffer.toNat + count * bytesPerDiskSector ≤ 0x100000) :
    ∃ after, Boot.diskRead drive (BitVec.ofNat 32 first) (BitVec.ofNat 16 count) buffer (disk.headsPerCylinder.setWidth 8)
        (disk.sectorsPerTrack.setWidth 8) loader = some (decide (AllTriesFail drive.fails loader.issued.length), after) ∧
      after.issued.length = afterTries drive.fails loader.issued.length ∧
      after.memory = if AllTriesFail drive.fails loader.issued.length then loader.memory
        else copyIn drive (first * bytesPerDiskSector) buffer.toNat (count * bytesPerDiskSector) loader.memory := by
  have heads := readable.heads
  have sectors := readable.sectors
  have fewHeads := readable.fewHeads
  have fewSectors := readable.fewSectors
  have start : (BitVec.ofNat 32 first).toNat = first := by
    rw [BitVec.toNat_ofNat, Nat.mod_eq_of_lt named]
  have number : (BitVec.ofNat 16 count).toNat = count := by
    rw [BitVec.toNat_ofNat, Nat.mod_eq_of_lt (by omega)]
  obtain ⟨after, run, issued, memory⟩ := @diskRead_spec drive loader (BitVec.ofNat 32 first) (BitVec.ofNat 16 count) buffer
    (disk.headsPerCylinder.setWidth 8) (disk.sectorsPerTrack.setWidth 8) (by rw [BitVec.toNat_setWidth]; omega)
    (by rw [BitVec.toNat_setWidth]; omega) readable.someHead readable.someSector fewSectors (by rwa [number])
    (by rw [number, start]; exact below) (by rwa [number])
  rw [start, number] at memory
  exact ⟨after, run, issued, memory⟩

theorem Readable.wholeSectors (readable : Readable drive disk bpb) :
    bpb.maxRootDirEntries.toNat * directoryEntryByteSize / bytesPerDiskSector * bytesPerDiskSector =
      bpb.maxRootDirEntries.toNat * directoryEntryByteSize := by
  have aligned := readable.wholeDirectory
  unfold directoryEntryByteSize bytesPerDiskSector
  omega

theorem readDirectoryBuffer_spec (readable : Readable drive disk bpb) (fits : DirectoryFits drive bpb buffer) :
    ∃ after, readDirectoryBuffer drive bpb disk buffer loader =
        some (decide (AllTriesFail drive.fails loader.issued.length), after) ∧
      after.issued.length = afterTries drive.fails loader.issued.length ∧
      after.memory = if AllTriesFail drive.fails loader.issued.length then loader.memory
        else copyIn drive (directorySector bpb * bytesPerDiskSector) buffer.toNat
          (bpb.maxRootDirEntries.toNat * directoryEntryByteSize) loader.memory := by
  have sectorBytes : bpb.bytesPerSector.toNat = bytesPerDiskSector := by rw [readable.sectorBytes]; rfl
  have nonzero : bpb.bytesPerSector ≠ 0 := by rw [readable.sectorBytes]; decide
  have whole := readable.wholeSectors
  obtain ⟨after, run, issued, memory⟩ := @Readable.diskRead drive disk bpb loader buffer (directorySector bpb)
    (bpb.maxRootDirEntries.toNat * directoryEntryByteSize / bytesPerDiskSector) readable fits.few fits.below
    (directorySector_lt bpb) (by rw [whole]; exact fits.low)
  rw [whole] at memory
  refine ⟨after, ?_, issued, memory⟩
  rw [readDirectoryBuffer, if_neg nonzero, directoryNumSectors, sectorBytes]
  exact run

theorem readFat_spec (readable : Readable drive disk bpb) (fits : KernelFits drive bpb chain) :
    ∃ after, readFat drive bpb disk fatBuffer loader = some (decide (AllTriesFail drive.fails loader.issued.length), after) ∧
      after.issued.length = afterTries drive.fails loader.issued.length ∧
      after.memory = if AllTriesFail drive.fails loader.issued.length then loader.memory
        else copyIn drive (bpb.reservedSectors.toNat * bytesPerDiskSector) fatBuffer.toNat
          (tableSectors bpb * bytesPerDiskSector) loader.memory := by
  have ends := fits.tablesEnd
  have bound := bpb.reservedSectors.isLt
  have same : bpb.reservedSectors.setWidth 32 = BitVec.ofNat 32 bpb.reservedSectors.toNat := by
    rw [BitVec.ofNat_toNat]
  obtain ⟨after, run, issued, memory⟩ := @Readable.diskRead drive disk bpb loader fatBuffer bpb.reservedSectors.toNat
    (tableSectors bpb) readable fits.fewTables fits.tables (by omega)
    (Nat.le_trans ends (by decide))
  refine ⟨after, ?_, issued, memory⟩
  rw [readFat, same]
  exact run

theorem copyIn_inside {source target size : Nat} {place : Word} (lower : target ≤ place.toNat)
    (upper : place.toNat < target + size) : copyIn drive source target size memory place =
      drive.bytes (source + (place.toNat - target)) := by
  rw [copyIn, if_pos ⟨lower, upper⟩]

/-- A buffer shows the disk. -/
def Shows (memory : ByteMemory) (buffer : Word) (image : ByteMemory) (size : Nat) : Prop :=
  ∀ place < size, memory (buffer + BitVec.ofNat 32 place) = image (BitVec.ofNat 32 place)

theorem shows_copyIn {sector size : Nat} (room : buffer.toNat + size ≤ 2 ^ 32) :
    Shows (copyIn drive (sector * bytesPerDiskSector) buffer.toNat size memory) buffer (diskImage drive sector) size := by
  intro place inside
  have address : (buffer + BitVec.ofNat 32 place).toNat = buffer.toNat + place := by
    rw [BitVec.toNat_add, BitVec.toNat_ofNat]
    omega
  have offset : (BitVec.ofNat 32 place).toNat = place := by
    rw [BitVec.toNat_ofNat, Nat.mod_eq_of_lt (by omega)]
  rw [copyIn_inside (by omega) (by omega), address, Nat.add_sub_cancel_left, diskImage, offset]

theorem Shows.congr {image : ByteMemory} {size : Nat} (shows : Shows memory buffer image size) (room : buffer.toNat + size ≤ 2 ^ 32)
    (same : ∀ place : Word, buffer.toNat ≤ place.toNat → place.toNat < buffer.toNat + size → other place = memory place) :
    Shows other buffer image size := by
  intro place inside
  have address : (buffer + BitVec.ofNat 32 place).toNat = buffer.toNat + place := by
    rw [BitVec.toNat_add, BitVec.toNat_ofNat]
    omega
  rw [same _ (by omega) (by omega), shows place inside]

/-- The entries of a directory are the same in the buffer and on the disk. -/
theorem Shows.entry {image : ByteMemory} (shows : Shows memory buffer image (bpb.maxRootDirEntries.toNat * directoryEntryByteSize))
    (inside : index < bpb.maxRootDirEntries.toNat) :
    DirectoryEntry.read memory (entryAddress buffer index) = DirectoryEntry.read image (entryAddress 0 index) ∧
      fileSizeAt memory (entryAddress buffer index) = fileSizeAt image (entryAddress 0 index) := by
  have byte : ∀ offset < 32, memory (entryAddress buffer index + BitVec.ofNat 32 offset) =
      image (entryAddress 0 index + BitVec.ofNat 32 offset) := by
    intro offset small
    have joined : ∀ start : Word, entryAddress start index + BitVec.ofNat 32 offset =
        start + BitVec.ofNat 32 (directoryEntryByteSize * index + offset) := by
      intro start
      rw [entryAddress, BitVec.add_assoc, BitVec.ofNat_add]
    have shown := shows (directoryEntryByteSize * index + offset) (by unfold directoryEntryByteSize; omega)
    rw [joined, joined, shown]
    exact congrArg image (BitVec.zero_add _).symm
  have lanes : ∀ start : Word, start + 20 + 1 = start + 21 ∧ start + 26 + 1 = start + 27 ∧ start + 28 + 1 = start + 29 ∧
      start + 28 + 2 = start + 30 ∧ start + 28 + 3 = start + 31 := by
    intro start
    refine ⟨?_, ?_, ?_, ?_, ?_⟩ <;> bv_omega
  obtain ⟨high, low, size1, size2, size3⟩ := lanes (entryAddress buffer index)
  obtain ⟨diskHigh, diskLow, diskSize1, diskSize2, diskSize3⟩ := lanes (entryAddress 0 index)
  constructor
  · simp only [DirectoryEntry.read, ByteMemory.read16, high, low, diskHigh, diskLow]
    congr 2
    · exact byte 21 (by decide)
    · exact byte 20 (by decide)
    · exact byte 27 (by decide)
    · exact byte 26 (by decide)
  · simp only [fileSizeAt, ByteMemory.read32, size1, size2, size3, diskSize1, diskSize2, diskSize3]
    congr 1
    · exact byte 28 (by decide)
    · exact byte 29 (by decide)
    · exact byte 30 (by decide)
    · exact byte 31 (by decide)

theorem Shows.fatEntry {image : ByteMemory} {size cluster : Nat} (shows : Shows memory buffer image size)
    (inside : cluster * 3 / 2 + 1 < size) : Boot.fatEntry memory buffer cluster = Boot.fatEntry image 0 cluster := by
  have first := shows (cluster * 3 / 2) (by omega)
  have second := shows (cluster * 3 / 2 + 1) inside
  simp only [Boot.fatEntry, first, second]
  rw [show (0 : Word) + BitVec.ofNat 32 (cluster * 3 / 2) = BitVec.ofNat 32 (cluster * 3 / 2) from BitVec.zero_add _,
    show (0 : Word) + BitVec.ofNat 32 (cluster * 3 / 2 + 1) = BitVec.ofNat 32 (cluster * 3 / 2 + 1) from BitVec.zero_add _]

/-- The file, with the table in its buffer. -/
theorem readFile_spec (readable : Readable drive disk bpb) (has : HasKernel drive bpb index chain) (fits : KernelFits drive bpb chain)
    (shows : Shows loader.memory fatBuffer (tableImage drive bpb) (tableSectors bpb * bytesPerDiskSector))
    (enough : chain.length ≤ fuel) : ∃ error after,
    readFile fuel drive (DirectoryEntry.read (directoryImage drive bpb) (entryAddress 0 index)) disk bpb kernelBuffer fatBuffer loader =
      some (error, after) ∧ ChainRead drive bpb chain kernelBuffer.toNat loader error after := by
  have linked := has.linked.congr fun cluster member => shows.fatEntry (has.entries cluster member)
  have tablesEnd := fits.tablesEnd
  have kernelEnd := fits.kernelEnd
  have start := has.start
  have low : kernelBuffer.toNat + chain.length * clusterSize bpb ≤ 0x100000 := Nat.le_trans kernelEnd (by decide)
  have apart : ∀ cluster ∈ chain, ∀ place ∈ entryBytes fatBuffer cluster,
      place.toNat < kernelBuffer.toNat ∨ kernelBuffer.toNat + chain.length * clusterSize bpb ≤ place.toNat := by
    intro cluster member place entry
    have inside := has.entries cluster member
    have buffer : fatBuffer.toNat = 0x9b4c := rfl
    have kernel : kernelBuffer.toNat = 0x30000 := rfl
    left
    have short : ∀ offset < tableSectors bpb * bytesPerDiskSector, (fatBuffer + BitVec.ofNat 32 offset).toNat < kernelBuffer.toNat := by
      intro offset small
      rw [BitVec.toNat_add, BitVec.toNat_ofNat, Nat.mod_eq_of_lt (show offset < 2 ^ 32 by omega), Nat.mod_eq_of_lt (by omega)]
      omega
    obtain rfl | rfl := entry
    · exact short _ (by omega)
    · exact short _ inside
  cases chain with
  | nil => exact absurd linked id
  | cons cluster rest =>
      obtain rfl := Option.some.inj start
      obtain ⟨error, after, read, run⟩ := readable.chainRead linked fits.clusters low apart
      refine ⟨error, after, ?_, read⟩
      rw [readFile, readable.directoryEnd_eq, Option.bind_eq_bind, Option.bind_some]
      have same := run fuel enough
      rwa [BitVec.ofNat_toNat, BitVec.setWidth_eq] at same

/-- The boot loader's tables are all that `initialize_paging` writes. -/
theorem initializePaging_outside {place : Word} (low : place.toNat < 0x60000 ∨ 0x65000 ≤ place.toNat) :
    Stage2.initializePaging memory place = memory place := by
  have away : ∀ table : Word, 0x60000 ≤ table.toNat → table.toNat ≤ 0x64000 → place ∈ (frameSpan table)ᶜ := by
    intro table above below
    rw [Set.mem_compl_iff, mem_span]
    omega
  have identity := away Stage2.identityMapTableAddr (by decide) (by decide)
  have kernel := away Stage2.kernelMapTableAddr (by decide) (by decide)
  have directory := away Stage2.pagingDirectoryAddr (by decide) (by decide)
  rw [Stage2.initializePaging, write_entry_outside (by decide) (by decide) directory, write_entry_outside (by decide) (by decide) directory,
    write_entry_outside (by decide) (by decide) directory, Stage2.fillTable_outside (by decide) kernel,
    Stage2.fillTable_outside (by decide) identity, clearFrame_outside (by decide) identity, clearFrame_outside (by decide) identity,
    clearFrame_outside (by decide) directory]

/-- The kernel is where its code expects to be, byte by byte as on the disk, the
first four megabytes are where they were, and the memory map is still below. -/
structure KernelLoaded (drive : Drive) (bpb : Fat12Bpb) (index : Nat) (chain : List Nat) (before memory : ByteMemory) : Prop where
  windows : ∀ pmm, (⟨memory, Stage2.pagingDirectoryAddr, pmm⟩ : Machine).Windows
  file : ∀ pmm, ∀ offset < (fileSizeAt (directoryImage drive bpb) (entryAddress 0 index)).toNat,
    (⟨memory, Stage2.pagingDirectoryAddr, pmm⟩ : Machine).load8 (kernelVirtualAddr + BitVec.ofNat 32 offset) =
      (chain.flatMap (clusterBytes drive bpb))[offset]?
  low : ∀ place : Word, place.toNat < directoryBuffer.toNat → memory place = before place

/-- One of the reads that `start` needs fails three times in a row. -/
def ReadFails (drive : Drive) (loader : Loader) (reads : Nat) : Prop :=
  ∃ read < reads, AllTriesFail drive.fails (firstTry drive.fails loader.issued.length read)

theorem kernelLoaded {before : ByteMemory} {after : Loader} (has : HasKernel drive bpb index chain) (fits : KernelFits drive bpb chain)
    (content : bytesAt after.memory kernelBuffer.toNat (chain.length * clusterSize bpb) = chain.flatMap (clusterBytes drive bpb))
    (low : ∀ place : Word, place.toNat < directoryBuffer.toNat → after.memory place = before place) :
    KernelLoaded drive bpb index chain before (Stage2.initializePaging (Memtools.memcpy kernelLoadAddr kernelBuffer
      (fileSizeAt (directoryImage drive bpb) (entryAddress 0 index)).toNat after.memory)) := by
  have size := has.size
  have kernelEnd := fits.kernelEnd
  have source : kernelBuffer.toNat = 0x30000 := rfl
  have target : kernelLoadAddr.toNat = 0x100000 := rfl
  have virtual : kernelVirtualAddr.toNat = 0xC0000000 := rfl
  have directory : directoryBuffer.toNat = 0x7e00 := rfl
  unfold stackEnd at kernelEnd
  generalize length : (fileSizeAt (directoryImage drive bpb) (entryAddress 0 index)).toNat = bytes at *
  have windows : ∀ pmm, (⟨_, Stage2.pagingDirectoryAddr, pmm⟩ : Machine).Windows := fun pmm =>
    (Stage2.threeSlots (Memtools.memcpy kernelLoadAddr kernelBuffer bytes after.memory) pmm).windows
  refine ⟨windows, fun pmm offset inside => ?_, fun place below => ?_⟩
  · -- The file's byte is copied up, not touched by the tables, and seen through the kernel's table.
    rw [length] at inside
    have address : (kernelLoadAddr + BitVec.ofNat 32 offset).toNat = 0x100000 + offset := by
      rw [BitVec.toNat_add, BitVec.toNat_ofNat, target]
      omega
    have upper : (kernelVirtualAddr + BitVec.ofNat 32 offset).toNat = 0xC0000000 + offset := by
      rw [BitVec.toNat_add, BitVec.toNat_ofNat, virtual]
      omega
    have seen := (windows pmm).kernel (kernelVirtualAddr + BitVec.ofNat 32 offset) (by omega) (by omega)
    have place : kernelVirtualAddr + BitVec.ofNat 32 offset - kernelVirtualAddr + kernelLoadAddr =
        kernelLoadAddr + BitVec.ofNat 32 offset := by
      rw [BitVec.add_comm kernelVirtualAddr, BitVec.add_sub_cancel, BitVec.add_comm]
    rw [Machine.load8, seen, place, Option.map_some]
    change some (Stage2.initializePaging _ _) = _
    rw [initializePaging_outside (by omega), Memtools.memcpy_apart (by omega) (by omega) (by omega) inside, ← content]
    have listed : offset < chain.length * clusterSize bpb := by omega
    have buffered : BitVec.ofNat 32 (kernelBuffer.toNat + offset) = kernelBuffer + BitVec.ofNat 32 offset := by
      rw [BitVec.ofNat_add, BitVec.ofNat_toNat, BitVec.setWidth_eq]
    rw [bytesAt, List.getElem?_map, List.getElem?_range listed, Option.map_some, buffered]
  · rw [initializePaging_outside (by omega), Memtools.memcpy_apply (by omega) (by omega), if_neg (by omega), low place below]

variable {registers : ParamRegisters} {message : String}

/-- `start` stops without the kernel and has left everything from the second megabyte on alone. -/
def Halts (before : Loader) (outcome : Option Outcome) : Prop :=
  ∃ message after, outcome = some (.halted message after) ∧
    ∀ place : Word, 0x100000 ≤ place.toNat → after.memory place = before.memory place

theorem checked_failed {read : Option (Bool × Loader)} {next : Loader → Option Outcome} {after : Loader}
    (failed : read = some (true, after)) : checked message read next = some (.halted message after) := by
  rw [checked, failed]
  rfl

theorem checked_done {read : Option (Bool × Loader)} {next : Loader → Option Outcome} {after : Loader}
    (done : read = some (false, after)) : checked message read next = next after := by
  rw [checked, done]
  rfl

/-- `start` reads the directory, the tables and the clusters of the file. If one of
these reads fails for good it stops. Otherwise it enters the kernel, which finds its
file at its virtual address, the first four megabytes where they were, and the memory
map that stage 1 has left. -/
theorem start_loads_kernel (drive : Drive) (registers : ParamRegisters) (loader : Loader) (bpb : Fat12Bpb)
    (sector : Fat12Bpb.read loader.memory bootSectAddress = bpb) (readable : Readable drive (diskOf registers) bpb)
    (has : HasKernel drive bpb index chain) (fits : KernelFits drive bpb chain) (enough : chain.length ≤ fuel) :
    (ReadFails drive loader (chain.length + 2) → Halts loader (start fuel drive false registers loader)) ∧
    (¬ ReadFails drive loader (chain.length + 2) → ∃ memory,
      start fuel drive false registers loader = some (.kernelStart (E820.readE820MemoryInfo loader.memory) memory) ∧
      KernelLoaded drive bpb index chain loader.memory memory) := by
  have directoryEnd := fits.directoryEnd
  have tablesEnd := fits.tablesEnd
  have kernelEnd := fits.kernelEnd
  have buffer : directoryBuffer.toNat = 0x7e00 := rfl
  have tables : fatBuffer.toNat = 0x9b4c := rfl
  have kernel : kernelBuffer.toNat = 0x30000 := rfl
  unfold stackEnd at kernelEnd
  rw [start, if_neg Bool.false_ne_true, sector]
  -- The directory.
  obtain ⟨listed, listing, listedIssued, listedMemory⟩ := @readDirectoryBuffer_spec drive (diskOf registers) bpb loader
    directoryBuffer readable fits.directory
  by_cases noDirectory : AllTriesFail drive.fails loader.issued.length
  · rw [decide_eq_true noDirectory] at listing
    rw [if_pos noDirectory] at listedMemory
    refine ⟨fun _ => ⟨_, listed, checked_failed listing, fun place _ => by rw [listedMemory]⟩, fun works => ?_⟩
    exact absurd ⟨0, by omega, noDirectory⟩ works
  rw [decide_eq_false noDirectory] at listing
  rw [if_neg noDirectory] at listedMemory
  have found : findKernel listed.memory directoryBuffer bpb = some (entryAddress directoryBuffer index) := by
    obtain ⟨after, run, finds⟩ := @findKernel_eq_some_iff drive (diskOf registers) bpb loader directoryBuffer readable
      fits.directory noDirectory
    cases listing.symm.trans run
    exact (finds _).mpr ⟨index, has.inside, rfl, has.name, has.first⟩
  have listedOutside : ∀ place : Word, place.toNat < directoryBuffer.toNat ∨ fatBuffer.toNat ≤ place.toNat →
      listed.memory place = loader.memory place := by
    intro place away
    rw [listedMemory]
    exact copyIn_outside (by omega)
  rw [checked_done listing]
  simp only [found]
  -- The tables.
  obtain ⟨tabled, tabling, tabledIssued, tabledMemory⟩ := @readFat_spec drive (diskOf registers) bpb listed chain readable fits
  rw [listedIssued] at tabling tabledIssued tabledMemory
  by_cases noTables : AllTriesFail drive.fails (afterTries drive.fails loader.issued.length)
  · rw [decide_eq_true noTables] at tabling
    rw [if_pos noTables] at tabledMemory
    refine ⟨fun _ => ⟨_, tabled, checked_failed tabling, fun place high => ?_⟩, fun works => ?_⟩
    · rw [tabledMemory, listedOutside place (by omega)]
    · exact absurd ⟨1, by omega, noTables⟩ works
  rw [decide_eq_false noTables] at tabling
  rw [if_neg noTables] at tabledMemory
  have tabledOutside : ∀ place : Word, place.toNat < fatBuffer.toNat ∨ kernelBuffer.toNat ≤ place.toNat →
      tabled.memory place = listed.memory place := by
    intro place away
    rw [tabledMemory]
    exact copyIn_outside (by omega)
  have showsTables : Shows tabled.memory fatBuffer (tableImage drive bpb) (tableSectors bpb * bytesPerDiskSector) := by
    rw [tabledMemory]
    exact shows_copyIn (by omega)
  have showsDirectory : Shows tabled.memory directoryBuffer (directoryImage drive bpb)
      (bpb.maxRootDirEntries.toNat * directoryEntryByteSize) := by
    have shows := @shows_copyIn drive loader.memory directoryBuffer (directorySector bpb)
      (bpb.maxRootDirEntries.toNat * directoryEntryByteSize) (by omega)
    rw [← listedMemory] at shows
    exact shows.congr (by omega) fun place _ below => tabledOutside place (by omega)
  rw [checked_done tabling, (showsDirectory.entry has.inside).1]
  -- The file.
  obtain ⟨error, filed, filing, read⟩ := readFile_spec readable has fits showsTables enough
  have failure : error = true ↔ ∃ position < chain.length,
      AllTriesFail drive.fails (firstTry drive.fails loader.issued.length (position + 2)) := by
    rw [read.failure, tabledIssued]
    rfl
  have filedOutside : ∀ place : Word, place.toNat < kernelBuffer.toNat ∨ 0x100000 ≤ place.toNat →
      filed.memory place = tabled.memory place := fun place away => read.outside place (by omega)
  cases error with
  | true =>
      refine ⟨fun _ => ⟨_, filed, checked_failed filing, fun place high => ?_⟩, fun works => ?_⟩
      · rw [filedOutside place (by omega), tabledOutside place (by omega), listedOutside place (by omega)]
      · obtain ⟨position, inside, failed⟩ := failure.mp rfl
        exact absurd ⟨position + 2, by omega, failed⟩ works
  | false =>
      constructor
      · rintro ⟨position, inside, failed⟩
        match position with
        | 0 => exact absurd failed noDirectory
        | 1 => exact absurd failed noTables
        | position + 2 => exact absurd (failure.mpr ⟨position, by omega, failed⟩) Bool.false_ne_true
      · intro _
        have shows := showsDirectory.congr (by omega) fun place _ below => filedOutside place (by omega)
        refine ⟨_, checked_done filing, ?_⟩
        rw [(shows.entry has.inside).2]
        refine kernelLoaded has fits (read.content rfl) fun place below => ?_
        rw [filedOutside place (by omega), tabledOutside place (by omega), listedOutside place (by omega)]

/-- A 1.44 MB volume with nothing on it but a kernel of one sector in cluster 2. -/
def kernelFloppy : Drive where
  heads := 2
  sectors := 18
  bytes place :=
    if 34816 ≤ place ∧ place < 34827 then kernelName.getD (place - 34816) 0
    else if place = 34842 ∨ place = 34845 then 2
    else if place = 25603 then 0xFF
    else if place = 25604 then 0x0F
    else 0
  fails _ := false

/-- Memory with the fields of `boot_sect.asm`. -/
def bootSector : ByteMemory := fun place =>
  if place = 0x7c0c then 2 else if place = 0x7c0d then 1 else if place = 0x7c0e then 50 else if place = 0x7c10 then 2
  else if place = 0x7c11 then 224 else if place = 0x7c16 then 9 else 0

theorem start_loads_kernel_floppy : ∃ memory,
    start 1 kernelFloppy false ⟨4, 79, 18, 1⟩ ⟨bootSector, []⟩ = some (.kernelStart ⟨0, 0x504⟩ memory) ∧
      KernelLoaded kernelFloppy floppyBpb 0 [2] bootSector memory := by
  have works : ¬ ReadFails kernelFloppy ⟨bootSector, []⟩ ([2].length + 2) := by
    rintro ⟨read, _, failed⟩
    cases failed 0 (by decide)
  have sector : Fat12Bpb.read bootSector bootSectAddress = floppyBpb := by
    rw [Fat12Bpb.read, floppyBpb, Fat12Bpb.mk.injEq]
    decide
  have has : HasKernel kernelFloppy floppyBpb 0 [2] :=
    ⟨by decide, by decide, fun earlier before => absurd before (Nat.not_lt_zero earlier), by decide,
      ⟨by decide, by decide, by decide⟩, by decide, by decide⟩
  have fits : KernelFits kernelFloppy floppyBpb [2] :=
    ⟨⟨by decide, by decide, by decide⟩, by decide, by decide, by decide, by decide, by decide, by decide⟩
  exact (start_loads_kernel kernelFloppy ⟨4, 79, 18, 1⟩ ⟨bootSector, []⟩ floppyBpb sector
    ⟨rfl, rfl, by decide, by decide, by decide, by decide, by decide, by decide⟩ has fits (by decide)).2 works

end Boot

end ScratchOs
