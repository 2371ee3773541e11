import ScratchOs.Boot.DataArea

namespace ScratchOs.Boot

open Data

/-! The root directory: how much of it is read, what is looked for in it, and
where the files are taken to begin behind it. -/

/-- The first sector behind the tables. -/
def directorySector (bpb : Fat12Bpb) : Nat := bpb.reservedSectors.toNat + bpb.numFATs.toNat * bpb.sectorsPerFAT.toNat

/-- Cut to sixteen bits by the call of `disk_read`. -/
def directoryNumSectors (bpb : Fat12Bpb) : BitVec 16 :=
  BitVec.ofNat 16 (bpb.maxRootDirEntries.toNat * directoryEntryByteSize / bpb.bytesPerSector.toNat)

def readDirectoryBuffer (drive : Drive) (bpb : Fat12Bpb) (disk : Disk) (directoryBuffer : Word) (loader : Loader) :
    Option (Bool × Loader) :=
  if bpb.bytesPerSector = 0 then none
  else
    diskRead drive (BitVec.ofNat 32 (directorySector bpb)) (directoryNumSectors bpb) directoryBuffer
      (disk.headsPerCylinder.setWidth 8) (disk.sectorsPerTrack.setWidth 8) loader

def fileNameLength : Nat := 11

def entryAddress (directoryBuffer : Word) (index : Nat) : Word :=
  directoryBuffer + BitVec.ofNat 32 (directoryEntryByteSize * index)

def nameAt (memory : ByteMemory) (address : Word) : List Byte :=
  (List.range fileNameLength).map fun place => memory (address + BitVec.ofNat 32 place)

/-- The loop of `find_file`; the entry's address, or the null pointer. -/
def findFileFrom (filename : List Byte) (memory : ByteMemory) (directoryBuffer : Word) : Nat → Nat → Option Word
  | _, 0 => none
  | index, left + 1 =>
      if nameAt memory (entryAddress directoryBuffer index) = filename then some (entryAddress directoryBuffer index)
      else findFileFrom filename memory directoryBuffer (index + 1) left

def findFile (filename : List Byte) (memory : ByteMemory) (directoryBuffer directoryEntryCount : Word) : Option Word :=
  findFileFrom filename memory directoryBuffer 0 directoryEntryCount.toNat

/-- `KERNEL  BIN`. -/
def kernelName : List Byte := [0x4B, 0x45, 0x52, 0x4E, 0x45, 0x4C, 0x20, 0x20, 0x42, 0x49, 0x4E]

def findKernel (memory : ByteMemory) (directoryBuffer : Word) (bpb : Fat12Bpb) : Option Word :=
  findFile kernelName memory directoryBuffer (bpb.maxRootDirEntries.setWidth 32)

variable {drive : Drive} {disk : Disk} {bpb : Fat12Bpb} {loader after : Loader} {directoryBuffer : Word}
variable {filename : List Byte} {memory other : ByteMemory} {first count : Nat} {address : Word}

/-! Finding. -/

theorem findFileFrom_eq_some_iff : findFileFrom filename memory directoryBuffer first count = some address ↔
    ∃ index, first ≤ index ∧ index < first + count ∧ address = entryAddress directoryBuffer index ∧
      nameAt memory (entryAddress directoryBuffer index) = filename ∧
      ∀ earlier, first ≤ earlier → earlier < index →
        nameAt memory (entryAddress directoryBuffer earlier) ≠ filename := by
  induction count generalizing first with
  | zero =>
      constructor
      · intro found
        cases found
      · rintro ⟨index, above, below, _⟩
        omega
  | succ count ih =>
      by_cases here : nameAt memory (entryAddress directoryBuffer first) = filename
      · rw [findFileFrom, if_pos here]
        constructor
        · intro found
          cases found
          exact ⟨first, Nat.le_refl _, by omega, rfl, here, fun earlier above below => by omega⟩
        · rintro ⟨index, above, _, rfl, _, none⟩
          obtain rfl : index = first := by
            by_contra later
            exact none first (Nat.le_refl _) (by omega) here
          rfl
      · rw [findFileFrom, if_neg here, ih]
        constructor
        · rintro ⟨index, above, below, place, name, none⟩
          refine ⟨index, by omega, by omega, place, name, fun earlier lower upper => ?_⟩
          by_cases atFirst : earlier = first
          · rwa [atFirst]
          · exact none earlier (by omega) upper
        · rintro ⟨index, above, below, place, name, none⟩
          have later : first ≠ index := by
            rintro rfl
            exact here name
          exact ⟨index, by omega, by omega, place, name, fun earlier lower upper => none earlier (by omega) upper⟩

/-- The first entry with that name among those scanned. -/
theorem findFile_eq_some_iff {directoryEntryCount : Word} :
    findFile filename memory directoryBuffer directoryEntryCount = some address ↔
      ∃ index < directoryEntryCount.toNat, address = entryAddress directoryBuffer index ∧
        nameAt memory (entryAddress directoryBuffer index) = filename ∧
        ∀ earlier < index, nameAt memory (entryAddress directoryBuffer earlier) ≠ filename := by
  rw [findFile, findFileFrom_eq_some_iff]
  simp only [Nat.zero_le, Nat.zero_add, true_and, forall_const]

/-! Reading. -/

theorem readTries_issued (request : Request) (tries : Nat) (loader : Loader) :
    ∃ earlier, (readTries (int13 drive request) (tries + 1) loader).2.issued = request :: earlier := by
  induction tries generalizing loader with
  | zero =>
      cases failed : drive.fails loader.issued.length with
      | false =>
          rw [readTries_done (int13_done failed)]
          exact ⟨_, rfl⟩
      | true =>
          rw [readTries_failed (int13_failed failed)]
          exact ⟨_, rfl⟩
  | succ tries ih =>
      cases failed : drive.fails loader.issued.length with
      | false =>
          rw [readTries_done (int13_done failed)]
          exact ⟨_, rfl⟩
      | true =>
          rw [readTries_failed (int13_failed failed)]
          exact ih _

theorem directorySector_lt (bpb : Fat12Bpb) : directorySector bpb < 2 ^ 32 := by
  have reserved := bpb.reservedSectors.isLt
  have tables := fatSectors_le bpb
  unfold directorySector
  omega

theorem directorySector_toNat (bpb : Fat12Bpb) : (BitVec.ofNat 32 (directorySector bpb)).toNat = directorySector bpb := by
  rw [BitVec.toNat_ofNat, Nat.mod_eq_of_lt (directorySector_lt bpb)]

/-- The number of sectors as `x86_disk_read` gets it: it is cut once more, to eight bits. -/
theorem directoryNumSectors_cut (bpb : Fat12Bpb) : ((directoryNumSectors bpb).setWidth 8).toNat =
    bpb.maxRootDirEntries.toNat * directoryEntryByteSize / bpb.bytesPerSector.toNat % 256 := by
  rw [directoryNumSectors, BitVec.toNat_setWidth, BitVec.toNat_ofNat]
  exact Nat.mod_mod_of_dvd _ (by decide)

theorem readDirectoryBuffer_issued {error : Bool}
    (run : readDirectoryBuffer drive bpb disk directoryBuffer loader = some (error, after)) :
    ∃ request earlier, after.issued = request :: earlier ∧ request.count = (directoryNumSectors bpb).setWidth 8 ∧
      lbaToChs (BitVec.ofNat 32 (directorySector bpb)) (disk.headsPerCylinder.setWidth 8)
        (disk.sectorsPerTrack.setWidth 8) = some (request.cylinder, request.head, request.sector) := by
  rw [readDirectoryBuffer] at run
  split at run
  · cases run
  · rw [diskRead, Option.bind_eq_bind, Option.bind_eq_some_iff] at run
    obtain ⟨⟨cylinder, head, sector⟩, coordinates, tried⟩ := run
    let request : Request := ⟨cylinder, head, sector, (directoryNumSectors bpb).setWidth 8,
      (linearToSegmentOffset directoryBuffer).1, (linearToSegmentOffset directoryBuffer).2⟩
    have result : readTries (int13 drive request) numTries loader = (error, after) := Option.some.inj tried
    obtain ⟨earlier, issued⟩ := @readTries_issued drive request 2 loader
    rw [show readTries (int13 drive request) (2 + 1) loader = (error, after) from result] at issued
    exact ⟨request, earlier, issued, rfl, coordinates⟩

/-! The extent of the directory. -/

/-- A byte of the disk stands in these sectors of it. -/
def InDiskSectors (first count byte : Nat) : Prop :=
  first * bytesPerDiskSector ≤ byte ∧ byte < (first + count) * bytesPerDiskSector

/-- Where on the disk the root directory is: behind the tables, which are counted in sectors of the volume. -/
def directoryStart (bpb : Fat12Bpb) : Nat := directorySector bpb * bpb.bytesPerSector.toNat

/-- The reported geometry is the drive's, and its coordinates can name the sector. -/
structure Names (drive : Drive) (disk : Disk) (sector : Nat) : Prop where
  heads : (disk.headsPerCylinder.setWidth 8 : Byte).toNat = drive.heads
  sectors : (disk.sectorsPerTrack.setWidth 8 : Byte).toNat = drive.sectors
  someHead : 0 < drive.heads
  someSector : 0 < drive.sectors
  track : drive.sectors ≤ 63
  below : sector < 256 * (drive.heads * drive.sectors)

/-- The entries `find_file` scans are all in the disk sectors that `disk_read` is
called for and that the drive is then asked for, and cluster 2 is looked for behind them. -/
structure CoversDirectory (bpb : Fat12Bpb) : Prop where
  called : ∀ place < bpb.maxRootDirEntries.toNat * directoryEntryByteSize,
    InDiskSectors (BitVec.ofNat 32 (directorySector bpb)).toNat ((directoryNumSectors bpb).setWidth 8).toNat
      (directoryStart bpb + place)
  asked : ∀ drive disk directoryBuffer loader error after request earlier, Names drive disk (directorySector bpb) →
    readDirectoryBuffer drive bpb disk directoryBuffer loader = some (error, after) →
      after.issued = request :: earlier →
        ∀ place < bpb.maxRootDirEntries.toNat * directoryEntryByteSize,
          InDiskSectors (request.firstSector drive) request.count.toNat (directoryStart bpb + place)
  behind : ∀ file : FileRead, file.bpb = bpb →
    directoryStart bpb + bpb.maxRootDirEntries.toNat * directoryEntryByteSize ≤
      (file.lba 2).toNat * bytesPerDiskSector

theorem Names.firstSector {request : Request} (names : Names drive disk (directorySector bpb))
    (coordinates : lbaToChs (BitVec.ofNat 32 (directorySector bpb)) (disk.headsPerCylinder.setWidth 8)
      (disk.sectorsPerTrack.setWidth 8) = some (request.cylinder, request.head, request.sector)) :
    request.firstSector drive = directorySector bpb := by
  have heads := names.heads
  have sectors := names.sectors
  have track := names.track
  have below := names.below
  rw [← heads, ← sectors] at below
  obtain ⟨cylinder, head, sector, chs, _, first, _, place⟩ := @lbaToChs_sector (BitVec.ofNat 32 (directorySector bpb)) _ _
    (heads ▸ names.someHead) (sectors ▸ names.someSector) (sectors ▸ track) (by rwa [directorySector_toNat])
  cases coordinates.symm.trans chs
  rw [heads, sectors, ← Nat.add_sub_assoc first, directorySector_toNat] at place
  exact place

/-- Rounding down loses nothing of a whole number of units only. -/
theorem le_div_mul_iff {bytes size : Nat} : bytes ≤ bytes / size * size ↔ size ∣ bytes := by
  constructor
  · intro enough
    exact ⟨bytes / size, (Nat.mul_comm .. ▸ Nat.le_antisymm enough (Nat.div_mul_le_self bytes size))⟩
  · intro whole
    exact Nat.le_of_eq (Nat.div_mul_cancel whole).symm

theorem le_cut_div_mul_iff {bytes size : Nat} (some : 0 < size) :
    bytes ≤ bytes / size % 256 * size ↔ size ∣ bytes ∧ bytes / size < 256 := by
  constructor
  · intro enough
    have cut := Nat.mod_le (bytes / size) 256
    have whole := le_div_mul_iff.mp (Nat.le_trans enough (Nat.mul_le_mul_right size cut))
    refine ⟨whole, ?_⟩
    rw [← Nat.div_mul_cancel whole, Nat.mul_div_cancel _ some] at enough
    have sectors := Nat.le_of_mul_le_mul_right enough some
    have below := Nat.mod_lt (bytes / size) (show 0 < 256 by decide)
    omega
  · rintro ⟨whole, few⟩
    rw [Nat.mod_eq_of_lt few]
    exact le_div_mul_iff.mpr whole

/-- Disk sectors that are counted in larger units do not hold the bytes. -/
theorem size_le_of_le_div_mul {bytes size unit : Nat} (some : 0 < bytes) (enough : bytes ≤ bytes / size * unit) :
    size ≤ unit := by
  by_contra larger
  have within := Nat.le_trans enough (Nat.mul_le_mul_left (bytes / size) (Nat.le_of_not_le larger))
  have whole := Nat.le_antisymm within (Nat.div_mul_le_self bytes size)
  have same : bytes / size * size ≤ bytes / size * unit := whole ▸ enough
  have counted : 0 < bytes / size := by
    rcases Nat.eq_zero_or_pos (bytes / size) with none | counted
    · rw [none] at enough
      omega
    · exact counted
  exact larger (Nat.le_of_mul_le_mul_left same counted)

theorem firstCluster_lba (file : FileRead) : file.lba 2 = file.dataStart := by
  rw [FileRead.lba, BitVec.sub_self, BitVec.zero_mul, BitVec.add_zero]

/-- The two clauses about sectors, in numbers. -/
theorem coversDirectory_iff_bounds (someBytes : bpb.bytesPerSector ≠ 0) : CoversDirectory bpb ↔
    (∀ place < bpb.maxRootDirEntries.toNat * directoryEntryByteSize, InDiskSectors (directorySector bpb)
      (bpb.maxRootDirEntries.toNat * directoryEntryByteSize / bpb.bytesPerSector.toNat % 256)
      (directoryStart bpb + place)) ∧
    directoryStart bpb + bpb.maxRootDirEntries.toNat * directoryEntryByteSize ≤
      (directorySector bpb + bpb.maxRootDirEntries.toNat * directoryEntryByteSize / bpb.bytesPerSector.toNat) *
        bytesPerDiskSector := by
  have located : ∀ file : FileRead, file.bpb = bpb → (file.lba 2).toNat = directorySector bpb +
      bpb.maxRootDirEntries.toNat * directoryEntryByteSize / bpb.bytesPerSector.toNat := by
    rintro file rfl
    rw [firstCluster_lba, (FileRead.dataStart_toNat file).1, directorySector]
  constructor
  · rintro ⟨called, _, behind⟩
    rw [directorySector_toNat, directoryNumSectors_cut] at called
    refine ⟨called, ?_⟩
    rw [← located ⟨blank.drive, floppyDisk, bpb, fatBuffer, _, if_neg someBytes⟩ rfl]
    exact behind _ rfl
  · rintro ⟨called, behind⟩
    refine ⟨?_, ?_, fun file volume => ?_⟩
    · rwa [directorySector_toNat, directoryNumSectors_cut]
    · intro drive disk directoryBuffer loader error after request earlier names run issued
      obtain ⟨same, _, again, count, coordinates⟩ := readDirectoryBuffer_issued run
      cases (List.cons.inj (issued.symm.trans again)).1
      rwa [names.firstSector coordinates, count, directoryNumSectors_cut]
    · rwa [located file volume]

/-- The directory is taken to begin as many disk sectors into the disk as there are
sectors of the volume before it, and its size is divided by the size of a sector
and rounded down. That is right for sectors of 512 bytes that the entries fill and
that the eight bits of a read request can count. Sectors of another size place the
directory elsewhere, unless nothing is in front of it. -/
theorem coversDirectory_iff (bpb : Fat12Bpb) (someBytes : bpb.bytesPerSector ≠ 0) :
    CoversDirectory bpb ↔
      bpb.bytesPerSector = 512 ∧ 16 ∣ bpb.maxRootDirEntries.toNat ∧ bpb.maxRootDirEntries.toNat < 4096 ∨
      directorySector bpb = 0 ∧ bpb.bytesPerSector.toNat < 512 ∧
        bpb.maxRootDirEntries.toNat * directoryEntryByteSize ≤
          bpb.maxRootDirEntries.toNat * directoryEntryByteSize / bpb.bytesPerSector.toNat % 256 * bytesPerDiskSector ∨
      bpb.maxRootDirEntries = 0 ∧ (directorySector bpb = 0 ∨ bpb.bytesPerSector.toNat ≤ 512) := by
  have sector : bpb.bytesPerSector = 512 ↔ bpb.bytesPerSector.toNat = 512 :=
    ⟨fun same => by rw [same]; rfl, fun same => BitVec.eq_of_toNat_eq same⟩
  have empty : bpb.maxRootDirEntries = 0 ↔ bpb.maxRootDirEntries.toNat = 0 :=
    ⟨fun same => by rw [same]; rfl, fun same => BitVec.eq_of_toNat_eq same⟩
  have cut := Nat.mod_le (bpb.maxRootDirEntries.toNat * directoryEntryByteSize / bpb.bytesPerSector.toNat) 256
  rw [coversDirectory_iff_bounds someBytes, sector, empty]
  unfold InDiskSectors directoryStart
  have disk : bytesPerDiskSector = 512 := rfl
  have each : directoryEntryByteSize = 32 := rfl
  rw [disk, each] at *
  generalize bpb.bytesPerSector.toNat = size at *
  generalize directorySector bpb = front at *
  constructor
  · rintro ⟨called, behind⟩
    rcases Nat.eq_zero_or_pos bpb.maxRootDirEntries.toNat with none | some
    · rw [none, Nat.zero_mul, Nat.zero_div, Nat.add_zero, Nat.add_zero] at behind
      refine .inr (.inr ⟨none, ?_⟩)
      rcases Nat.eq_zero_or_pos front with nothing | something
      · exact .inl nothing
      · exact .inr (Nat.le_of_mul_le_mul_left behind something)
    · have lower := (called 0 (by omega)).1
      have upper := (called (bpb.maxRootDirEntries.toNat * 32 - 1) (by omega)).2
      have enough : bpb.maxRootDirEntries.toNat * 32 ≤ bpb.maxRootDirEntries.toNat * 32 / size % 256 * 512 := by
        rw [Nat.add_mul] at upper
        omega
      have small := size_le_of_le_div_mul (Nat.mul_pos some (by decide))
        (Nat.le_trans enough (Nat.mul_le_mul_right 512 cut))
      rcases Nat.lt_or_eq_of_le small with less | rfl
      · refine .inr (.inl ⟨?_, less, enough⟩)
        by_contra something
        exact Nat.not_le_of_lt less (Nat.le_of_mul_le_mul_left lower (Nat.pos_of_ne_zero something))
      · have whole := (le_cut_div_mul_iff (by decide)).mp enough
        exact .inl ⟨rfl, by omega, by omega⟩
  · rintro (⟨rfl, whole, few⟩ | ⟨rfl, less, enough⟩ | ⟨none, near⟩)
    · have enough := (le_cut_div_mul_iff (show 0 < 512 by decide)).mpr
        (show 512 ∣ bpb.maxRootDirEntries.toNat * 32 ∧ bpb.maxRootDirEntries.toNat * 32 / 512 < 256 by omega)
      exact ⟨fun place inside => by omega, by omega⟩
    · exact ⟨fun place inside => by omega, by omega⟩
    · rw [none]
      refine ⟨fun place inside => absurd inside (by omega), ?_⟩
      rcases near with rfl | near
      · omega
      · rw [Nat.zero_mul, Nat.zero_div]
        exact Nat.mul_le_mul_left front near

theorem coversDirectory_iff_floppy : CoversDirectory floppyBpb :=
  (coversDirectory_iff floppyBpb (by decide)).mpr (by decide)

/-- A hundred entries: the last four are in a seventh sector. -/
theorem hundredEntries_lost : ¬ ∀ bpb : Fat12Bpb, bpb.bytesPerSector ≠ 0 → CoversDirectory bpb := by
  intro all
  have covers := all ⟨512, 1, 50, 2, 100, 9⟩ (by decide)
  have behind := covers.behind ⟨blank.drive, floppyDisk, ⟨512, 1, 50, 2, 100, 9⟩, fatBuffer, 74, rfl⟩ rfl
  exact absurd behind (by decide)

/-! What is found in the buffer. -/

/-- The entries as they are on the disk. -/
def directoryBytes (drive : Drive) (bpb : Fat12Bpb) : List Byte :=
  (List.range (bpb.maxRootDirEntries.toNat * directoryEntryByteSize)).map fun place =>
    drive.bytes (directorySector bpb * bytesPerDiskSector + place)

/-- The sectors of the directory can be named and counted, and the buffer is in reach. -/
structure DirectoryFits (drive : Drive) (bpb : Fat12Bpb) (directoryBuffer : Word) : Prop where
  few : bpb.maxRootDirEntries.toNat * directoryEntryByteSize / bytesPerDiskSector < 256
  below : ∀ sector < bpb.maxRootDirEntries.toNat * directoryEntryByteSize / bytesPerDiskSector,
    directorySector bpb + sector < 256 * (drive.heads * drive.sectors)
  low : directoryBuffer.toNat + bpb.maxRootDirEntries.toNat * directoryEntryByteSize ≤ 0x100000

/-- A directory of whole sectors stands in the buffer unless all tries failed. -/
theorem readDirectoryBuffer_content (readable : Readable drive disk bpb)
    (fits : DirectoryFits drive bpb directoryBuffer) :
    ∃ after, readDirectoryBuffer drive bpb disk directoryBuffer loader =
        some (decide (AllTriesFail drive.fails loader.issued.length), after) ∧
      (¬ AllTriesFail drive.fails loader.issued.length →
        bytesAt after.memory directoryBuffer.toNat (bpb.maxRootDirEntries.toNat * directoryEntryByteSize) =
          directoryBytes drive bpb) := by
  have heads := readable.heads
  have sectors := readable.sectors
  have fewHeads := readable.fewHeads
  have fewSectors := readable.fewSectors
  have few := fits.few
  have low := fits.low
  have sectorBytes : bpb.bytesPerSector.toNat = bytesPerDiskSector := by rw [readable.sectorBytes]; rfl
  have nonzero : bpb.bytesPerSector ≠ 0 := by rw [readable.sectorBytes]; decide
  have whole : bpb.maxRootDirEntries.toNat * directoryEntryByteSize / bytesPerDiskSector * bytesPerDiskSector =
      bpb.maxRootDirEntries.toNat * directoryEntryByteSize := by
    have aligned := readable.wholeDirectory
    unfold directoryEntryByteSize bytesPerDiskSector
    omega
  have start := directorySector_toNat bpb
  have count : (BitVec.ofNat 16 (bpb.maxRootDirEntries.toNat * directoryEntryByteSize / bytesPerDiskSector)).toNat =
      bpb.maxRootDirEntries.toNat * directoryEntryByteSize / bytesPerDiskSector := by
    rw [BitVec.toNat_ofNat, Nat.mod_eq_of_lt (by omega)]
  obtain ⟨after, run, _, memory⟩ := @diskRead_spec drive loader (BitVec.ofNat 32 (directorySector bpb))
    (BitVec.ofNat 16 (bpb.maxRootDirEntries.toNat * directoryEntryByteSize / bytesPerDiskSector)) directoryBuffer
    (disk.headsPerCylinder.setWidth 8) (disk.sectorsPerTrack.setWidth 8) (by rw [BitVec.toNat_setWidth]; omega)
    (by rw [BitVec.toNat_setWidth]; omega) readable.someHead readable.someSector fewSectors (by rwa [count])
    (by rw [count, start]; exact fits.below) (by rwa [count, whole])
  refine ⟨after, ?_, fun works => ?_⟩
  · rw [readDirectoryBuffer, if_neg nonzero, directoryNumSectors, sectorBytes]
    exact run
  · rw [memory, if_neg works, start, count, whole, bytesAt_copyIn _ _ _ (by omega)]
    rfl

def diskName (drive : Drive) (bpb : Fat12Bpb) (index : Nat) : List Byte :=
  (List.range fileNameLength).map fun place =>
    drive.bytes (directorySector bpb * bytesPerDiskSector + (directoryEntryByteSize * index + place))

theorem nameAt_eq_diskName {index : Nat} (inside : index < bpb.maxRootDirEntries.toNat)
    (content : bytesAt memory directoryBuffer.toNat (bpb.maxRootDirEntries.toNat * directoryEntryByteSize) =
      directoryBytes drive bpb) :
    nameAt memory (entryAddress directoryBuffer index) = diskName drive bpb index := by
  refine List.map_congr_left fun place within => ?_
  have short := List.mem_range.mp within
  unfold fileNameLength at short
  unfold directoryEntryByteSize at content ⊢
  have same := List.map_inj_left.mp content (32 * index + place) (List.mem_range.mpr (by omega))
  rw [← same, entryAddress, directoryEntryByteSize]
  congr 1
  apply BitVec.eq_of_toNat_eq
  rw [BitVec.toNat_add, BitVec.toNat_add, BitVec.toNat_ofNat, BitVec.toNat_ofNat, BitVec.toNat_ofNat]
  omega

/-- `start` finds the kernel in the buffer exactly when, and where, an entry of the disk has its name. -/
theorem findKernel_eq_some_iff (readable : Readable drive disk bpb)
    (fits : DirectoryFits drive bpb directoryBuffer)
    (works : ¬ AllTriesFail drive.fails loader.issued.length) :
    ∃ after, readDirectoryBuffer drive bpb disk directoryBuffer loader = some (false, after) ∧
      ∀ address, findKernel after.memory directoryBuffer bpb = some address ↔
        ∃ index < bpb.maxRootDirEntries.toNat, address = entryAddress directoryBuffer index ∧
          diskName drive bpb index = kernelName ∧ ∀ earlier < index, diskName drive bpb earlier ≠ kernelName := by
  obtain ⟨after, run, content⟩ := @readDirectoryBuffer_content _ _ _ loader _ readable fits
  rw [decide_eq_false works] at run
  refine ⟨after, run, fun address => ?_⟩
  have count : (bpb.maxRootDirEntries.setWidth 32).toNat = bpb.maxRootDirEntries.toNat := by
    rw [BitVec.toNat_setWidth]
    omega
  have names : ∀ index < bpb.maxRootDirEntries.toNat,
      nameAt after.memory (entryAddress directoryBuffer index) = diskName drive bpb index :=
    fun index inside => nameAt_eq_diskName inside (content works)
  rw [findKernel, findFile_eq_some_iff, count]
  constructor
  · rintro ⟨index, inside, place, name, none⟩
    exact ⟨index, inside, place, (names index inside).symm.trans name,
      fun earlier before => names earlier (by omega) ▸ none earlier before⟩
  · rintro ⟨index, inside, place, name, none⟩
    exact ⟨index, inside, place, (names index inside).trans name,
      fun earlier before => (names earlier (by omega)).symm ▸ none earlier before⟩

/-- `DIRECTORY_BUFFER` on the volume of `boot_sect.asm`. -/
example : DirectoryFits floppy floppyBpb 0x7e00 := ⟨by decide, by decide, by decide⟩

end ScratchOs.Boot
