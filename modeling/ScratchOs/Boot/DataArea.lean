import ScratchOs.Boot.ReadFile

namespace ScratchOs.Boot

open Data

/-! Which of the sectors `read_file` asks for belong to the files of the volume.
Nothing checks the numbers it finds in the directory and in the table. -/

namespace FileRead

/-- The sectors of the `disk_read` for this cluster, against the volume's size. -/
def ReadsDataArea (file : FileRead) (totalSectors : BitVec 16) (cluster : Word) : Prop :=
  file.dataStart.toNat ≤ (file.lba cluster).toNat ∧
    (file.lba cluster).toNat + file.bpb.sectorsPerCluster.toNat ≤ totalSectors.toNat

/-- The volume has a cluster of this number. The first one has number 2. -/
def HasCluster (file : FileRead) (totalSectors : BitVec 16) (cluster : Word) : Prop :=
  2 ≤ cluster.toNat ∧
    file.dataStart.toNat + (cluster.toNat - 1) * file.bpb.sectorsPerCluster.toNat ≤ totalSectors.toNat

instance (file : FileRead) (totalSectors : BitVec 16) (cluster : Word) :
    Decidable (file.ReadsDataArea totalSectors cluster) := inferInstanceAs (Decidable (_ ∧ _))

instance (file : FileRead) (totalSectors : BitVec 16) (cluster : Word) :
    Decidable (file.HasCluster totalSectors cluster) := inferInstanceAs (Decidable (_ ∧ _))

variable {file : FileRead} {totalSectors : BitVec 16} {cluster : Word}

theorem dataStart_toNat (file : FileRead) :
    file.dataStart.toNat = file.bpb.reservedSectors.toNat + file.bpb.numFATs.toNat * file.bpb.sectorsPerFAT.toNat +
      file.bpb.maxRootDirEntries.toNat * directoryEntryByteSize / file.bpb.bytesPerSector.toNat ∧
    file.dataStart.toNat < 2 ^ 25 := by
  have located := file.located
  unfold directoryEnd at located
  split at located
  · cases located
  · have reserved := file.bpb.reservedSectors.isLt
    have entries := file.bpb.maxRootDirEntries.isLt
    have tables := fatSectors_le file.bpb
    have directory := Nat.div_le_self (file.bpb.maxRootDirEntries.toNat * directoryEntryByteSize)
      file.bpb.bytesPerSector.toNat
    have start := congrArg BitVec.toNat (Option.some.inj located)
    rw [BitVec.toNat_add, BitVec.toNat_add, BitVec.toNat_setWidth, BitVec.toNat_ofNat, BitVec.toNat_ofNat] at start
    generalize file.bpb.maxRootDirEntries.toNat * directoryEntryByteSize / file.bpb.bytesPerSector.toNat = sectors at *
    unfold directoryEntryByteSize at directory
    omega

/-- How far behind the directory a cluster is looked for. -/
theorem clusterOffset (file : FileRead) (lower : 2 ≤ cluster.toNat) (small : cluster.toNat < 2 ^ 24) :
    ((cluster - 2) * file.bpb.sectorsPerCluster.setWidth 32).toNat =
      (cluster.toNat - 2) * file.bpb.sectorsPerCluster.toNat := by
  have few := file.bpb.sectorsPerCluster.isLt
  have shift : (cluster - 2).toNat = cluster.toNat - 2 := by bv_omega
  have bound : (cluster.toNat - 2) * file.bpb.sectorsPerCluster.toNat ≤ 2 ^ 24 * 255 :=
    Nat.mul_le_mul (by omega) (by omega)
  rw [BitVec.toNat_mul, shift, BitVec.toNat_setWidth,
    Nat.mod_eq_of_lt (show file.bpb.sectorsPerCluster.toNat < 2 ^ 32 by omega)]
  exact Nat.mod_eq_of_lt (by omega)

/-- The two numbers below the first cluster are looked for below the address 0. -/
theorem clusterOffset_wraps (file : FileRead) (some : file.bpb.sectorsPerCluster ≠ 0) (below : cluster.toNat < 2) :
    2 ^ 32 - 510 ≤ ((cluster - 2) * file.bpb.sectorsPerCluster.setWidth 32).toNat := by
  have few := file.bpb.sectorsPerCluster.isLt
  have positive : 0 < file.bpb.sectorsPerCluster.toNat := BitVec.toNat_pos_of_ne_zero some
  have shift : (cluster - 2).toNat = 2 ^ 32 - (2 - cluster.toNat) := by bv_omega
  have missing : (2 - cluster.toNat) * file.bpb.sectorsPerCluster.toNat ≤ 2 * 255 :=
    Nat.mul_le_mul (Nat.sub_le _ _) (Nat.le_of_lt_succ few)
  have some : 0 < (2 - cluster.toNat) * file.bpb.sectorsPerCluster.toNat := Nat.mul_pos (by omega) positive
  have wrapped : (2 ^ 32 - (2 - cluster.toNat)) * file.bpb.sectorsPerCluster.toNat =
      2 ^ 32 - (2 - cluster.toNat) * file.bpb.sectorsPerCluster.toNat +
        (file.bpb.sectorsPerCluster.toNat - 1) * 2 ^ 32 := by
    rw [Nat.sub_mul]
    omega
  rw [BitVec.toNat_mul, shift, BitVec.toNat_setWidth,
    Nat.mod_eq_of_lt (show file.bpb.sectorsPerCluster.toNat < 2 ^ 32 by omega), wrapped, Nat.add_mul_mod_self_right,
    Nat.mod_eq_of_lt (by omega)]
  omega

theorem lba_toNat (file : FileRead) (cluster : Word) :
    (file.lba cluster).toNat = (file.dataStart.toNat +
      ((cluster - 2) * file.bpb.sectorsPerCluster.setWidth 32).toNat) % 2 ^ 32 := by
  rw [lba, BitVec.toNat_add]

theorem HasCluster.small (has : file.HasCluster totalSectors cluster) (some : file.bpb.sectorsPerCluster ≠ 0) :
    cluster.toNat ≤ 2 ^ 16 := by
  have positive : 0 < file.bpb.sectorsPerCluster.toNat := BitVec.toNat_pos_of_ne_zero some
  have product := Nat.le_mul_of_pos_right (cluster.toNat - 1) positive
  have total := totalSectors.isLt
  have fits := has.2
  omega

theorem readsDataArea_iff (some : file.bpb.sectorsPerCluster ≠ 0) (small : cluster.toNat < 2 ^ 24) :
    file.ReadsDataArea totalSectors cluster ↔ file.HasCluster totalSectors cluster := by
  have start := (dataStart_toNat file).2
  have total := totalSectors.isLt
  rw [ReadsDataArea, HasCluster, lba_toNat]
  by_cases lower : 2 ≤ cluster.toNat
  · have sectors : (cluster.toNat - 1) * file.bpb.sectorsPerCluster.toNat =
        (cluster.toNat - 2) * file.bpb.sectorsPerCluster.toNat + file.bpb.sectorsPerCluster.toNat := by
      rw [← Nat.succ_mul]
      congr 1
      omega
    rw [clusterOffset file lower small, sectors]
    have few := file.bpb.sectorsPerCluster.isLt
    have bound : (cluster.toNat - 2) * file.bpb.sectorsPerCluster.toNat ≤ 2 ^ 24 * 255 :=
      Nat.mul_le_mul (by omega) (by omega)
    omega
  · have far := clusterOffset_wraps file some (Nat.not_le.mp lower)
    have below := ((cluster - 2) * file.bpb.sectorsPerCluster.setWidth 32).isLt
    omega

/-- A read for a cluster of the volume is inside also where nothing bounds its number. -/
theorem HasCluster.readsDataArea (has : file.HasCluster totalSectors cluster) :
    file.ReadsDataArea totalSectors cluster := by
  by_cases some : file.bpb.sectorsPerCluster = 0
  · have none : file.bpb.sectorsPerCluster.toNat = 0 := by rw [some]; rfl
    have start := (dataStart_toNat file).2
    have offset : ((cluster - 2) * file.bpb.sectorsPerCluster.setWidth 32).toNat = 0 := by
      rw [BitVec.toNat_mul, BitVec.toNat_setWidth, none]
      rfl
    have fits := has.2
    rw [none] at fits
    rw [ReadsDataArea, lba_toNat, offset, none]
    omega
  · have bound := has.small some
    exact (readsDataArea_iff some (by omega)).mpr has

end FileRead

/-- `read_file` looks for every cluster it visits at its distance from the end of
the directory. That is inside the data area exactly when the volume has such a
cluster; a first cluster from 2^24 on could come back to it by overflow. -/
theorem readFile_reads_clusters (file : FileRead) (totalSectors : BitVec 16) (entry : DirectoryEntry)
    (outputBuffer : Word) (loader : Loader) :
    file.dataStart.toNat = file.bpb.reservedSectors.toNat + file.bpb.numFATs.toNat * file.bpb.sectorsPerFAT.toNat +
      file.bpb.maxRootDirEntries.toNat * directoryEntryByteSize / file.bpb.bytesPerSector.toNat ∧
    (∀ count round, file.roundAt (FileRead.firstRound entry outputBuffer loader) count = some round →
      (file.HasCluster totalSectors round.currentCluster → file.ReadsDataArea totalSectors round.currentCluster) ∧
      (file.bpb.sectorsPerCluster ≠ 0 → 0 < count ∨ round.currentCluster.toNat < 2 ^ 24 →
        file.ReadsDataArea totalSectors round.currentCluster → file.HasCluster totalSectors round.currentCluster)) := by
  refine ⟨(FileRead.dataStart_toNat file).1, fun count round here => ⟨FileRead.HasCluster.readsDataArea, ?_⟩⟩
  intro some bounded inside
  have small : round.currentCluster.toNat < 2 ^ 24 := by
    rcases bounded with later | small
    · obtain ⟨before, rfl⟩ := Nat.exists_eq_succ_of_ne_zero (Nat.ne_of_gt later)
      have link := FileRead.link_lt here
      omega
    · exact small
  exact (FileRead.readsDataArea_iff some small).mp inside

theorem readFile_reads_clusters_firstCluster : blank.ReadsDataArea 2880 oneCluster.currentCluster :=
  ((readFile_reads_clusters blank 2880 ⟨0, 2⟩ kernelBuffer ⟨fun _ => 0xFF, []⟩).2 0 oneCluster rfl).1 (by decide)

/-- The entry of an empty file has cluster 0: a sector of the root directory is read. -/
theorem emptyFile_reads_directory : ¬ ∀ (file : FileRead) (totalSectors : BitVec 16) (entry : DirectoryEntry)
    (outputBuffer : Word) (loader : Loader) (count : Nat) (round : ReadRound),
    file.roundAt (FileRead.firstRound entry outputBuffer loader) count = some round →
      file.ReadsDataArea totalSectors round.currentCluster := by
  intro all
  exact absurd (all blank 2880 ⟨0, 0⟩ kernelBuffer ⟨fun _ => 0, []⟩ 0 _ rfl) (by decide)

end ScratchOs.Boot
