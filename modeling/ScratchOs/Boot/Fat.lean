import ScratchOs.Boot.Disk

namespace ScratchOs

open Data

/-! Files of the boot volume, `boot/stage2/FAT.c`. -/

namespace Boot

/-- The fields of the boot sector that locate the parts of the volume. -/
structure Fat12Bpb where
  bytesPerSector : BitVec 16
  sectorsPerCluster : Byte
  reservedSectors : BitVec 16
  numFATs : Byte
  maxRootDirEntries : BitVec 16
  sectorsPerFAT : BitVec 16

structure DirectoryEntry where
  clusterHiBytes : BitVec 16
  clusterLoBytes : BitVec 16

structure Disk where
  sectorsPerTrack : BitVec 16
  headsPerCylinder : BitVec 16

def directoryEntryByteSize : Nat := 32

def getNextCluster (memory : ByteMemory) (fat currentCluster : Word) : Word :=
  let byteOffset := currentCluster * 3 / 2
  let first : Word := (memory (fat + byteOffset)).setWidth 32
  let second : Word := (memory (fat + (byteOffset + 1))).setWidth 32
  let nextCluster :=
    if currentCluster &&& 1 ≠ 0 then (first >>> 4) ||| (second <<< 4)
    else first ||| ((second &&& 0x0F) <<< 8)
  nextCluster &&& 0x0FFF

def getStartingCluster (entry : DirectoryEntry) : Word :=
  (entry.clusterHiBytes.setWidth 32 <<< 16) ||| entry.clusterLoBytes.setWidth 32

/-- The first sector behind the root directory. A volume without bytes in its
sectors makes the division fault. -/
def directoryEnd (bpb : Fat12Bpb) : Option Word :=
  if bpb.bytesPerSector = 0 then none
  else
    let directorySectors := BitVec.ofNat 32
      (bpb.maxRootDirEntries.toNat * directoryEntryByteSize / bpb.bytesPerSector.toNat)
    let fatSectors := BitVec.ofNat 32 (bpb.numFATs.toNat * bpb.sectorsPerFAT.toNat)
    some (bpb.reservedSectors.setWidth 32 + directorySectors + fatSectors)

/-- The loop of `read_file`, cut off after `fuel` clusters. -/
def readClusters (drive : Drive) (disk : Disk) (bpb : Fat12Bpb) (fat dataStart : Word) :
    Nat → Word → Word → Loader → Option (Bool × Loader)
  | 0, _, _, _ => none
  | fuel + 1, currentCluster, outputBuffer, loader => do
      let lba := dataStart + (currentCluster - 2) * bpb.sectorsPerCluster.setWidth 32
      let (error, loader) ← diskRead drive lba (bpb.sectorsPerCluster.setWidth 16) outputBuffer
        (disk.headsPerCylinder.setWidth 8) (disk.sectorsPerTrack.setWidth 8) loader
      let outputBuffer := outputBuffer + BitVec.ofNat 32 (bpb.sectorsPerCluster.toNat * bpb.bytesPerSector.toNat)
      let currentCluster := getNextCluster loader.memory fat currentCluster
      if error = false ∧ currentCluster < 0xFF8 then
        readClusters drive disk bpb fat dataStart fuel currentCluster outputBuffer loader
      else some (error, loader)

def readFile (fuel : Nat) (drive : Drive) (entry : DirectoryEntry) (disk : Disk) (bpb : Fat12Bpb)
    (outputBuffer fat : Word) (loader : Loader) : Option (Bool × Loader) := do
  let dataStart ← directoryEnd bpb
  readClusters drive disk bpb fat dataStart fuel (getStartingCluster entry) outputBuffer loader

/-! What the volume holds. -/

/-- Entry `cluster` of a table of 12-bit entries, two of them in three bytes. -/
def fatEntry (memory : ByteMemory) (fat : Word) (cluster : Nat) : Nat :=
  let first := (memory (fat + BitVec.ofNat 32 (cluster * 3 / 2))).toNat
  let second := (memory (fat + BitVec.ofNat 32 (cluster * 3 / 2 + 1))).toNat
  if cluster % 2 = 0 then first + 256 * (second % 16) else first / 16 + 16 * second

/-- Following `next` visits exactly these clusters and then an end mark. -/
def FatChain (next : Nat → Nat) : List Nat → Prop
  | [] => False
  | [cluster] => 2 ≤ cluster ∧ cluster ≤ 0xFF6 ∧ 0xFF8 ≤ next cluster
  | cluster :: follower :: rest =>
      2 ≤ cluster ∧ cluster ≤ 0xFF6 ∧ next cluster = follower ∧ FatChain next (follower :: rest)

/-- The volume's first data sector: reserved sectors, tables, root directory. -/
def dataSector (bpb : Fat12Bpb) : Nat :=
  bpb.reservedSectors.toNat + bpb.numFATs.toNat * bpb.sectorsPerFAT.toNat +
    (bpb.maxRootDirEntries.toNat * directoryEntryByteSize + (bytesPerDiskSector - 1)) / bytesPerDiskSector

def clusterSector (bpb : Fat12Bpb) (cluster : Nat) : Nat :=
  dataSector bpb + (cluster - 2) * bpb.sectorsPerCluster.toNat

def clusterSize (bpb : Fat12Bpb) : Nat := bpb.sectorsPerCluster.toNat * bytesPerDiskSector

def clusterBytes (drive : Drive) (bpb : Fat12Bpb) (cluster : Nat) : List Byte :=
  (List.range (clusterSize bpb)).map fun place => drive.bytes (clusterSector bpb cluster * bytesPerDiskSector + place)

def bytesAt (memory : ByteMemory) (address count : Nat) : List Byte :=
  (List.range count).map fun place => memory (BitVec.ofNat 32 (address + place))

/-- The number of the read request that starts on the cluster at this position. -/
def firstTry (fails : Nat → Bool) (start : Nat) : Nat → Nat
  | 0 => start
  | position + 1 => firstTry fails (afterTries fails start) position

/-! Decoding. -/

theorem evenEntry_toNat (first second : Byte) :
    ((first.setWidth 32 ||| ((second.setWidth 32 &&& 0x0F) <<< 8)) &&& (0x0FFF : Word)).toNat =
      first.toNat + 256 * (second.toNat % 16) := by
  have firstLt := first.isLt
  have secondLt := second.isLt
  have low : (first.setWidth 32).toNat = first.toNat := by rw [BitVec.toNat_setWidth]; omega
  have nibble : (second.setWidth 32 &&& (0x0F : Word)).toNat = second.toNat % 16 := by
    rw [BitVec.toNat_and, BitVec.toNat_setWidth, Nat.mod_eq_of_lt (by omega)]
    exact Nat.and_two_pow_sub_one_eq_mod _ 4
  have high : ((second.setWidth 32 &&& (0x0F : Word)) <<< 8).toNat = (second.toNat % 16) <<< 8 := by
    rw [BitVec.toNat_shiftLeft, nibble, Nat.shiftLeft_eq]
    omega
  rw [BitVec.toNat_and, BitVec.toNat_or, low, high, Nat.or_comm, ← Nat.shiftLeft_add_eq_or_of_lt firstLt,
    Nat.shiftLeft_eq]
  refine (Nat.and_two_pow_sub_one_eq_mod _ 12).trans ?_
  omega

theorem oddEntry_toNat (first second : Byte) :
    (((first.setWidth 32 >>> 4) ||| (second.setWidth 32 <<< 4)) &&& (0x0FFF : Word)).toNat =
      first.toNat / 16 + 16 * second.toNat := by
  have firstLt := first.isLt
  have secondLt := second.isLt
  have low : (first.setWidth 32 >>> 4).toNat = first.toNat / 16 := by
    rw [BitVec.toNat_ushiftRight, BitVec.toNat_setWidth, Nat.shiftRight_eq_div_pow]
    omega
  have high : ((second.setWidth 32 : Word) <<< 4).toNat = second.toNat <<< 4 := by
    rw [BitVec.toNat_shiftLeft, BitVec.toNat_setWidth, Nat.shiftLeft_eq, Nat.shiftLeft_eq]
    omega
  have lowLt : first.toNat / 16 < 2 ^ 4 := by omega
  rw [BitVec.toNat_and, BitVec.toNat_or, low, high, Nat.or_comm, ← Nat.shiftLeft_add_eq_or_of_lt lowLt,
    Nat.shiftLeft_eq]
  refine (Nat.and_two_pow_sub_one_eq_mod _ 12).trans ?_
  omega

theorem getNextCluster_eq (memory : ByteMemory) (fat : Word) {cluster : Nat} (small : cluster < 2 ^ 30) :
    (getNextCluster memory fat (BitVec.ofNat 32 cluster)).toNat = fatEntry memory fat cluster := by
  have offset : BitVec.ofNat 32 cluster * 3 / 2 = BitVec.ofNat 32 (cluster * 3 / 2) := by
    apply BitVec.eq_of_toNat_eq
    rw [BitVec.toNat_udiv, BitVec.toNat_mul, BitVec.toNat_ofNat, BitVec.toNat_ofNat,
      show (3 : Word).toNat = 3 from rfl, show (2 : Word).toNat = 2 from rfl,
      Nat.mod_eq_of_lt (show cluster < 2 ^ 32 by omega), Nat.mod_eq_of_lt (show cluster * 3 < 2 ^ 32 by omega),
      Nat.mod_eq_of_lt (show cluster * 3 / 2 < 2 ^ 32 by omega)]
  have next : BitVec.ofNat 32 (cluster * 3 / 2) + 1 = BitVec.ofNat 32 (cluster * 3 / 2 + 1) := by
    bv_omega
  have parity : (BitVec.ofNat 32 cluster &&& 1).toNat = cluster % 2 := by
    rw [BitVec.toNat_and, BitVec.toNat_ofNat, Nat.mod_eq_of_lt (by omega)]
    exact Nat.and_two_pow_sub_one_eq_mod _ 1
  simp only [getNextCluster, fatEntry, offset, next]
  by_cases even : cluster % 2 = 0
  · have clear : BitVec.ofNat 32 cluster &&& 1 = 0 := BitVec.eq_of_toNat_eq (by rw [parity, even]; rfl)
    rw [if_neg (not_not.mpr clear), if_pos even, evenEntry_toNat]
  · have set : BitVec.ofNat 32 cluster &&& 1 ≠ 0 := fun clear => even (by rw [← parity, clear]; rfl)
    rw [if_pos set, if_neg even, oddEntry_toNat]

theorem fatEntry_lt (memory : ByteMemory) (fat : Word) (cluster : Nat) : fatEntry memory fat cluster < 4096 := by
  unfold fatEntry
  have first := (memory (fat + BitVec.ofNat 32 (cluster * 3 / 2))).isLt
  have second := (memory (fat + BitVec.ofNat 32 (cluster * 3 / 2 + 1))).isLt
  simp only
  split <;> omega

/-! Reading. -/

variable {drive : Drive} {disk : Disk} {bpb : Fat12Bpb} {fat outputBuffer : Word} {loader : Loader} {chain : List Nat}

theorem fatEntry_congr {memory other : ByteMemory} {cluster : Nat}
    (first : memory (fat + BitVec.ofNat 32 (cluster * 3 / 2)) = other (fat + BitVec.ofNat 32 (cluster * 3 / 2)))
    (second : memory (fat + BitVec.ofNat 32 (cluster * 3 / 2 + 1)) =
      other (fat + BitVec.ofNat 32 (cluster * 3 / 2 + 1))) :
    fatEntry memory fat cluster = fatEntry other fat cluster := by
  simp only [fatEntry, first, second]

/-- The bytes of the table that hold the entry of `cluster`. -/
def entryBytes (fat : Word) (cluster : Nat) : Set Word :=
  {fat + BitVec.ofNat 32 (cluster * 3 / 2), fat + BitVec.ofNat 32 (cluster * 3 / 2 + 1)}

theorem FatChain.cluster_bounds {next : Nat → Nat} (linked : FatChain next chain) :
    ∀ cluster ∈ chain, 2 ≤ cluster ∧ cluster ≤ 0xFF6 := by
  induction chain with
  | nil => simp
  | cons cluster rest ih =>
      cases rest with
      | nil =>
          intro other member
          cases List.mem_singleton.mp member
          exact ⟨linked.1, linked.2.1⟩
      | cons follower rest =>
          intro other member
          rcases List.mem_cons.mp member with rfl | member
          · exact ⟨linked.1, linked.2.1⟩
          · exact ih linked.2.2.2 other member

theorem FatChain.congr {next next' : Nat → Nat} (linked : FatChain next chain)
    (same : ∀ cluster ∈ chain, next' cluster = next cluster) : FatChain next' chain := by
  induction chain with
  | nil => exact linked
  | cons cluster rest ih =>
      have here := same cluster List.mem_cons_self
      cases rest with
      | nil => exact ⟨linked.1, linked.2.1, here.symm ▸ linked.2.2⟩
      | cons follower rest =>
          exact ⟨linked.1, linked.2.1, here.trans linked.2.2.1,
            ih linked.2.2.2 fun other member => same other (List.mem_cons_of_mem _ member)⟩

/-- What the loader expects of a volume and of the drive it is on: 512-byte
sectors, a root directory of whole sectors, and the geometry that `disk` reports. -/
structure Readable (drive : Drive) (disk : Disk) (bpb : Fat12Bpb) : Prop where
  sectorBytes : bpb.bytesPerSector = 512
  wholeDirectory : bpb.maxRootDirEntries.toNat % 16 = 0
  heads : disk.headsPerCylinder.toNat = drive.heads
  sectors : disk.sectorsPerTrack.toNat = drive.sectors
  someHead : 1 ≤ drive.heads
  fewHeads : drive.heads ≤ 255
  someSector : 1 ≤ drive.sectors
  fewSectors : drive.sectors ≤ 63

theorem Readable.directoryEnd_eq (readable : Readable drive disk bpb) :
    directoryEnd bpb = some (BitVec.ofNat 32 (dataSector bpb)) := by
  have whole := readable.wholeDirectory
  have sectorBytes : bpb.bytesPerSector.toNat = 512 := by rw [readable.sectorBytes]; rfl
  have nonzero : bpb.bytesPerSector ≠ 0 := by rw [readable.sectorBytes]; decide
  have same : (bpb.maxRootDirEntries.toNat * 32 + (512 - 1)) / 512 = bpb.maxRootDirEntries.toNat * 32 / 512 := by
    omega
  simp only [directoryEnd, if_neg nonzero, dataSector, sectorBytes, directoryEntryByteSize, bytesPerDiskSector, same,
    Option.some.injEq]
  apply BitVec.eq_of_toNat_eq
  simp only [BitVec.toNat_add, BitVec.toNat_ofNat, BitVec.toNat_setWidth]
  omega

theorem fatSectors_le (bpb : Fat12Bpb) : bpb.numFATs.toNat * bpb.sectorsPerFAT.toNat ≤ 255 * 65535 :=
  Nat.mul_le_mul (Nat.le_of_lt_succ bpb.numFATs.isLt) (Nat.le_of_lt_succ bpb.sectorsPerFAT.isLt)

theorem dataSector_lt (bpb : Fat12Bpb) : dataSector bpb < 2 ^ 25 := by
  have reserved := bpb.reservedSectors.isLt
  have tables := fatSectors_le bpb
  have entries := bpb.maxRootDirEntries.isLt
  unfold dataSector directoryEntryByteSize bytesPerDiskSector
  omega

theorem lba_toNat {cluster : Nat} (lower : 2 ≤ cluster) (upper : cluster ≤ 0xFF6) :
    (BitVec.ofNat 32 (dataSector bpb) + (BitVec.ofNat 32 cluster - 2) * bpb.sectorsPerCluster.setWidth 32).toNat =
      clusterSector bpb cluster := by
  have bound := dataSector_lt bpb
  have few := bpb.sectorsPerCluster.isLt
  have shift : (BitVec.ofNat 32 cluster - 2 : Word).toNat = cluster - 2 := by bv_omega
  have product : (cluster - 2) * bpb.sectorsPerCluster.toNat ≤ 0xFF4 * 255 :=
    Nat.mul_le_mul (by omega) (by omega)
  rw [BitVec.toNat_add, BitVec.toNat_mul, shift, BitVec.toNat_setWidth, BitVec.toNat_ofNat,
    Nat.mod_eq_of_lt (show bpb.sectorsPerCluster.toNat < 2 ^ 32 by omega),
    Nat.mod_eq_of_lt (show (cluster - 2) * bpb.sectorsPerCluster.toNat < 2 ^ 32 by omega),
    Nat.mod_eq_of_lt (show dataSector bpb < 2 ^ 32 by omega), clusterSector]
  exact Nat.mod_eq_of_lt (by omega)

theorem bytesAt_add (memory : ByteMemory) (address front back : Nat) :
    bytesAt memory address (front + back) = bytesAt memory address front ++ bytesAt memory (address + front) back := by
  simp only [bytesAt, List.range_add, List.map_append, List.map_map, Function.comp_def, Nat.add_assoc]

theorem bytesAt_congr {memory other : ByteMemory} {address count : Nat} (room : address + count ≤ 2 ^ 32)
    (same : ∀ place : Word, address ≤ place.toNat → place.toNat < address + count → memory place = other place) :
    bytesAt memory address count = bytesAt other address count := by
  refine List.map_congr_left fun offset inside => ?_
  have below := List.mem_range.mp inside
  have value : (BitVec.ofNat 32 (address + offset)).toNat = address + offset := by
    rw [BitVec.toNat_ofNat, Nat.mod_eq_of_lt (by omega)]
  exact same _ (by omega) (by omega)

theorem bytesAt_copyIn (drive : Drive) (memory : ByteMemory) (source : Nat) {target count : Nat}
    (room : target + count ≤ 2 ^ 32) :
    bytesAt (copyIn drive source target count memory) target count =
      (List.range count).map fun place => drive.bytes (source + place) := by
  refine List.map_congr_left fun offset inside => ?_
  have below := List.mem_range.mp inside
  have value : (BitVec.ofNat 32 (target + offset)).toNat = target + offset := by
    rw [BitVec.toNat_ofNat, Nat.mod_eq_of_lt (by omega)]
  rw [copyIn, value, if_pos (by omega), Nat.add_sub_cancel_left]

theorem Readable.readCluster (readable : Readable drive disk bpb) {cluster : Nat} (lower : 2 ≤ cluster)
    (upper : cluster ≤ 0xFF6)
    (below : ∀ sector < bpb.sectorsPerCluster.toNat,
      clusterSector bpb cluster + sector < 256 * (drive.heads * drive.sectors))
    (low : outputBuffer.toNat + clusterSize bpb ≤ 0x100000) :
    ∃ after, diskRead drive
        (BitVec.ofNat 32 (dataSector bpb) + (BitVec.ofNat 32 cluster - 2) * bpb.sectorsPerCluster.setWidth 32)
        (bpb.sectorsPerCluster.setWidth 16) outputBuffer (disk.headsPerCylinder.setWidth 8)
        (disk.sectorsPerTrack.setWidth 8) loader = some (decide (AllTriesFail drive.fails loader.issued.length), after) ∧
      after.issued.length = afterTries drive.fails loader.issued.length ∧
      after.memory = if AllTriesFail drive.fails loader.issued.length then loader.memory
        else copyIn drive (clusterSector bpb cluster * bytesPerDiskSector) outputBuffer.toNat (clusterSize bpb)
          loader.memory := by
  have few := bpb.sectorsPerCluster.isLt
  have heads := readable.heads
  have sectors := readable.sectors
  have fewHeads := readable.fewHeads
  have fewSectors := readable.fewSectors
  have count : (bpb.sectorsPerCluster.setWidth 16).toNat = bpb.sectorsPerCluster.toNat := by
    rw [BitVec.toNat_setWidth]
    omega
  have lba := @lba_toNat bpb cluster lower upper
  obtain ⟨after, run, issued, memory⟩ := @diskRead_spec drive loader
    (BitVec.ofNat 32 (dataSector bpb) + (BitVec.ofNat 32 cluster - 2) * bpb.sectorsPerCluster.setWidth 32)
    (bpb.sectorsPerCluster.setWidth 16) outputBuffer (disk.headsPerCylinder.setWidth 8)
    (disk.sectorsPerTrack.setWidth 8) (by rw [BitVec.toNat_setWidth]; omega) (by rw [BitVec.toNat_setWidth]; omega)
    readable.someHead readable.someSector fewSectors (by omega) (by rw [count, lba]; exact below)
    (by rw [count]; exact low)
  rw [lba, count] at memory
  exact ⟨after, run, issued, memory⟩

/-- What reading a chain leaves behind. -/
structure ChainRead (drive : Drive) (bpb : Fat12Bpb) (chain : List Nat) (output : Nat) (before : Loader)
    (error : Bool) (after : Loader) : Prop where
  content : error = false → bytesAt after.memory output (chain.length * clusterSize bpb) =
    chain.flatMap (clusterBytes drive bpb)
  outside : ∀ place : Word, place.toNat < output ∨ output + chain.length * clusterSize bpb ≤ place.toNat →
    after.memory place = before.memory place
  failure : error = true ↔ ∃ position < chain.length,
    AllTriesFail drive.fails (firstTry drive.fails before.issued.length position)

theorem ChainRead.failed {cluster : Nat} {rest : List Nat} {output : Nat} {after : Loader}
    (tries : AllTriesFail drive.fails loader.issued.length) (memory : after.memory = loader.memory) :
    ChainRead drive bpb (cluster :: rest) output loader true after where
  content impossible := absurd impossible (by decide)
  outside _ _ := by rw [memory]
  failure := iff_of_true rfl ⟨0, by simp, tries⟩

theorem ChainRead.last {cluster : Nat} {after : Loader} (low : outputBuffer.toNat + clusterSize bpb ≤ 0x100000)
    (tries : ¬ AllTriesFail drive.fails loader.issued.length)
    (memory : after.memory = copyIn drive (clusterSector bpb cluster * bytesPerDiskSector) outputBuffer.toNat
      (clusterSize bpb) loader.memory) :
    ChainRead drive bpb [cluster] outputBuffer.toNat loader false after where
  content _ := by
    rw [List.length_singleton, Nat.one_mul, memory, bytesAt_copyIn _ _ _ (by omega), List.flatMap_singleton]
    rfl
  outside place away := by
    rw [List.length_singleton, Nat.one_mul] at away
    rw [memory, copyIn, if_neg (by omega)]
  failure := by
    refine iff_of_false (by decide) ?_
    rintro ⟨position, inside, failed⟩
    rw [List.length_singleton] at inside
    obtain rfl : position = 0 := by omega
    exact tries failed

theorem ChainRead.cons {cluster : Nat} {rest : List Nat} {output : Nat} {middle after : Loader} {error : Bool}
    (low : output + (rest.length + 1) * clusterSize bpb ≤ 0x100000)
    (tries : ¬ AllTriesFail drive.fails loader.issued.length)
    (issued : middle.issued.length = afterTries drive.fails loader.issued.length)
    (memory : middle.memory = copyIn drive (clusterSector bpb cluster * bytesPerDiskSector) output (clusterSize bpb)
      loader.memory)
    (later : ChainRead drive bpb rest (output + clusterSize bpb) middle error after) :
    ChainRead drive bpb (cluster :: rest) output loader error after := by
  have total : (rest.length + 1) * clusterSize bpb = clusterSize bpb + rest.length * clusterSize bpb := by
    rw [Nat.succ_mul, Nat.add_comm]
  constructor
  · intro done
    have first : bytesAt after.memory output (clusterSize bpb) = clusterBytes drive bpb cluster := by
      rw [bytesAt_congr (by omega) fun place _ inside => later.outside place (.inl inside), memory,
        bytesAt_copyIn _ _ _ (by omega)]
      rfl
    rw [List.length_cons, total, bytesAt_add, first, later.content done, List.flatMap_cons]
  · intro place away
    rw [List.length_cons, total] at away
    rw [later.outside place (by omega), memory, copyIn, if_neg (by omega)]
  · rw [later.failure, issued]
    constructor
    · rintro ⟨position, inside, failed⟩
      exact ⟨position + 1, by rw [List.length_cons]; omega, failed⟩
    · rintro ⟨position, inside, failed⟩
      cases position with
      | zero => exact absurd failed tries
      | succ position => exact ⟨position, by rw [List.length_cons] at inside; omega, failed⟩

/-- A place outside the whole output is outside the part of one cluster. -/
theorem copyIn_outside {source output count : Nat} {memory : ByteMemory} {place : Word}
    (away : place.toNat < output ∨ output + count ≤ place.toNat) :
    copyIn drive source output count memory place = memory place := by
  rw [copyIn, if_neg (by omega)]

/-- One round of the loop on a cluster of a chain: it ends with an error, or
the cluster is in place and the table still says how to go on. -/
theorem Readable.round (readable : Readable drive disk bpb) {cluster : Nat} {rest : List Nat}
    (linked : FatChain (fatEntry loader.memory fat) (cluster :: rest))
    (below : ∀ member ∈ cluster :: rest, ∀ sector < bpb.sectorsPerCluster.toNat,
      clusterSector bpb member + sector < 256 * (drive.heads * drive.sectors))
    (low : outputBuffer.toNat + (rest.length + 1) * clusterSize bpb ≤ 0x100000)
    (apart : ∀ member ∈ cluster :: rest, ∀ place ∈ entryBytes fat member,
      place.toNat < outputBuffer.toNat ∨ outputBuffer.toNat + (rest.length + 1) * clusterSize bpb ≤ place.toNat) :
    ∃ middle, middle.issued.length = afterTries drive.fails loader.issued.length ∧
      (AllTriesFail drive.fails loader.issued.length → middle.memory = loader.memory ∧
        ∀ fuel, readClusters drive disk bpb fat (BitVec.ofNat 32 (dataSector bpb)) (fuel + 1)
          (BitVec.ofNat 32 cluster) outputBuffer loader = some (true, middle)) ∧
      (¬ AllTriesFail drive.fails loader.issued.length →
        middle.memory = copyIn drive (clusterSector bpb cluster * bytesPerDiskSector) outputBuffer.toNat
          (clusterSize bpb) loader.memory ∧
        (∀ member ∈ cluster :: rest, fatEntry middle.memory fat member = fatEntry loader.memory fat member) ∧
        ∀ fuel, readClusters drive disk bpb fat (BitVec.ofNat 32 (dataSector bpb)) (fuel + 1)
          (BitVec.ofNat 32 cluster) outputBuffer loader =
            if fatEntry loader.memory fat cluster < 0xFF8 then
              readClusters drive disk bpb fat (BitVec.ofNat 32 (dataSector bpb)) fuel
                (BitVec.ofNat 32 (fatEntry loader.memory fat cluster))
                (outputBuffer + BitVec.ofNat 32 (clusterSize bpb)) middle
            else some (false, middle)) := by
  have total : (rest.length + 1) * clusterSize bpb = clusterSize bpb + rest.length * clusterSize bpb := by
    rw [Nat.succ_mul, Nat.add_comm]
  obtain ⟨lower, upper⟩ := linked.cluster_bounds cluster List.mem_cons_self
  obtain ⟨middle, run, issued, memory⟩ := @Readable.readCluster drive disk bpb outputBuffer loader readable cluster
    lower upper (below cluster List.mem_cons_self) (by omega)
  have sectorBytes : bpb.bytesPerSector.toNat = 512 := by rw [readable.sectorBytes]; rfl
  refine ⟨middle, issued, fun failed => ⟨by rw [memory, if_pos failed], fun fuel => ?_⟩, fun done => ?_⟩
  · rw [readClusters, run, decide_eq_true failed]
    simp
  · rw [if_neg done] at memory
    have same : ∀ member ∈ cluster :: rest,
        fatEntry middle.memory fat member = fatEntry loader.memory fat member := by
      intro member listed
      have away := apart member listed
      apply fatEntry_congr
      · rw [memory, copyIn_outside (by have := away _ (.inl rfl); omega)]
      · rw [memory, copyIn_outside (by have := away _ (.inr rfl); omega)]
    refine ⟨memory, same, fun fuel => ?_⟩
    have value := getNextCluster_eq middle.memory fat (show cluster < 2 ^ 30 by omega)
    rw [same cluster List.mem_cons_self] at value
    have bound := fatEntry_lt loader.memory fat cluster
    have next : getNextCluster middle.memory fat (BitVec.ofNat 32 cluster) =
        BitVec.ofNat 32 (fatEntry loader.memory fat cluster) := by
      apply BitVec.eq_of_toNat_eq
      rw [value, BitVec.toNat_ofNat, Nat.mod_eq_of_lt (by omega)]
    have compare : BitVec.ofNat 32 (fatEntry loader.memory fat cluster) < (0xFF8 : Word) ↔
        fatEntry loader.memory fat cluster < 0xFF8 := by
      rw [BitVec.lt_def, BitVec.toNat_ofNat, Nat.mod_eq_of_lt (by omega)]
      rfl
    rw [readClusters, run, decide_eq_false done]
    simp only [Option.bind_eq_bind, Option.bind_some, true_and, next, compare, sectorBytes]
    rfl

/-- The loop reads a chain to its end, or to the first cluster that cannot be read. -/
theorem Readable.chainRead (readable : Readable drive disk bpb) {cluster : Nat} {rest : List Nat}
    (linked : FatChain (fatEntry loader.memory fat) (cluster :: rest))
    (below : ∀ member ∈ cluster :: rest, ∀ sector < bpb.sectorsPerCluster.toNat,
      clusterSector bpb member + sector < 256 * (drive.heads * drive.sectors))
    (low : outputBuffer.toNat + (rest.length + 1) * clusterSize bpb ≤ 0x100000)
    (apart : ∀ member ∈ cluster :: rest, ∀ place ∈ entryBytes fat member,
      place.toNat < outputBuffer.toNat ∨ outputBuffer.toNat + (rest.length + 1) * clusterSize bpb ≤ place.toNat) :
    ∃ error after, ChainRead drive bpb (cluster :: rest) outputBuffer.toNat loader error after ∧
      ∀ fuel, rest.length < fuel → readClusters drive disk bpb fat (BitVec.ofNat 32 (dataSector bpb)) fuel
        (BitVec.ofNat 32 cluster) outputBuffer loader = some (error, after) := by
  induction rest generalizing cluster outputBuffer loader with
  | nil =>
      obtain ⟨middle, issued, stops, goes⟩ := readable.round linked below low apart
      by_cases failed : AllTriesFail drive.fails loader.issued.length
      · obtain ⟨memory, run⟩ := stops failed
        refine ⟨true, middle, .failed failed memory, fun fuel positive => ?_⟩
        obtain ⟨fuel, rfl⟩ := Nat.exists_eq_succ_of_ne_zero (Nat.ne_of_gt positive)
        exact run fuel
      · obtain ⟨memory, _, run⟩ := goes failed
        have ended := linked.2.2
        rw [List.length_nil, Nat.zero_add, Nat.one_mul] at low
        refine ⟨false, middle, .last low failed memory, fun fuel positive => ?_⟩
        obtain ⟨fuel, rfl⟩ := Nat.exists_eq_succ_of_ne_zero (Nat.ne_of_gt positive)
        rw [run fuel, if_neg (by omega)]
  | cons follower rest ih =>
      obtain ⟨middle, issued, stops, goes⟩ := readable.round linked below low apart
      by_cases failed : AllTriesFail drive.fails loader.issued.length
      · obtain ⟨memory, run⟩ := stops failed
        refine ⟨true, middle, .failed failed memory, fun fuel positive => ?_⟩
        obtain ⟨fuel, rfl⟩ := Nat.exists_eq_succ_of_ne_zero (Nat.ne_of_gt (Nat.zero_lt_of_lt positive))
        exact run fuel
      · obtain ⟨memory, same, run⟩ := goes failed
        obtain ⟨_, _, next, tail⟩ := linked
        rw [List.length_cons] at low apart
        have total : (rest.length + 1 + 1) * clusterSize bpb =
            clusterSize bpb + (rest.length + 1) * clusterSize bpb := by
          rw [Nat.succ_mul, Nat.add_comm]
        have moved : (outputBuffer + BitVec.ofNat 32 (clusterSize bpb)).toNat =
            outputBuffer.toNat + clusterSize bpb := by
          rw [BitVec.toNat_add, BitVec.toNat_ofNat, Nat.mod_eq_of_lt (show clusterSize bpb < 2 ^ 32 by omega)]
          exact Nat.mod_eq_of_lt (by omega)
        obtain ⟨error, after, read, rerun⟩ := @ih (outputBuffer + BitVec.ofNat 32 (clusterSize bpb)) middle follower
          (tail.congr fun member listed => same member (List.mem_cons_of_mem _ listed))
          (fun member listed => below member (List.mem_cons_of_mem _ listed)) (by omega)
          (fun member listed place entry => by
            have away := apart member (List.mem_cons_of_mem _ listed) place entry
            omega)
        rw [moved] at read
        refine ⟨error, after, .cons (by rw [List.length_cons]; omega) failed issued memory read, fun fuel enough => ?_⟩
        rw [List.length_cons] at enough
        obtain ⟨fuel, rfl⟩ := Nat.exists_eq_succ_of_ne_zero (Nat.ne_of_gt (Nat.zero_lt_of_lt enough))
        have follows := (tail.cluster_bounds follower List.mem_cons_self).2
        rw [run fuel, next, if_pos (by omega), rerun fuel (by omega)]

/-- `read_file` on an entry whose first cluster heads a chain: if it reports
success the clusters stand one after the other in the buffer, and it reports an
error exactly when some cluster could not be read in three tries. -/
theorem read_file_correct (drive : Drive) (disk : Disk) (bpb : Fat12Bpb) (entry : DirectoryEntry)
    (outputBuffer fat : Word) (loader : Loader) (chain : List Nat) (readable : Readable drive disk bpb)
    (linked : FatChain (fatEntry loader.memory fat) chain)
    (start : chain.head? = some (getStartingCluster entry).toNat)
    (below : ∀ cluster ∈ chain, ∀ sector < bpb.sectorsPerCluster.toNat,
      clusterSector bpb cluster + sector < 256 * (drive.heads * drive.sectors))
    (low : outputBuffer.toNat + chain.length * clusterSize bpb ≤ 0x100000)
    (apart : ∀ cluster ∈ chain, ∀ place ∈ entryBytes fat cluster,
      place.toNat < outputBuffer.toNat ∨ outputBuffer.toNat + chain.length * clusterSize bpb ≤ place.toNat) :
    ∃ error after,
      (∀ fuel, chain.length ≤ fuel → readFile fuel drive entry disk bpb outputBuffer fat loader = some (error, after)) ∧
      (error = false → bytesAt after.memory outputBuffer.toNat (chain.length * clusterSize bpb) =
        chain.flatMap (clusterBytes drive bpb)) ∧
      (error = true ↔ ∃ position < chain.length,
        AllTriesFail drive.fails (firstTry drive.fails loader.issued.length position)) := by
  cases chain with
  | nil => exact absurd linked id
  | cons cluster rest =>
      obtain rfl : cluster = (getStartingCluster entry).toNat := Option.some.inj start
      obtain ⟨error, after, read, run⟩ := readable.chainRead linked below low apart
      refine ⟨error, after, fun fuel enough => ?_, read.content, read.failure⟩
      rw [readFile, readable.directoryEnd_eq, Option.bind_eq_bind, Option.bind_some]
      have same := run fuel enough
      rwa [BitVec.ofNat_toNat, BitVec.setWidth_eq] at same

/-! A 1.44 MB volume as `boot_sect.asm` describes it. -/

def floppyBpb : Fat12Bpb := ⟨512, 1, 50, 2, 224, 9⟩

def floppyDisk : Disk := ⟨18, 2⟩

/-- Nothing on it fails; sector `n` is filled with `n`. -/
def floppy : Drive := ⟨2, 18, fun place => BitVec.ofNat 8 (place / 512), fun _ => false⟩

theorem read_file_correct_floppy :
    ∃ error after, readFile 1 floppy ⟨0, 2⟩ floppyDisk floppyBpb 0x30000 0x9b4c ⟨fun _ => 0xFF, []⟩ =
        some (error, after) ∧
      (error = false → bytesAt after.memory 0x30000 (1 * clusterSize floppyBpb) =
        [2].flatMap (clusterBytes floppy floppyBpb)) := by
  obtain ⟨error, after, run, content, _⟩ := read_file_correct floppy floppyDisk floppyBpb ⟨0, 2⟩ 0x30000 0x9b4c
    ⟨fun _ => 0xFF, []⟩ [2] ⟨rfl, rfl, rfl, rfl, by decide, by decide, by decide, by decide⟩
    ⟨by decide, by decide, by decide⟩ rfl
    (by decide) (by decide) (by
      intro cluster member place entry
      cases List.mem_singleton.mp member
      rcases entry with rfl | rfl <;> decide)
  exact ⟨error, after, run 1 (by decide), content⟩

end Boot

end ScratchOs
