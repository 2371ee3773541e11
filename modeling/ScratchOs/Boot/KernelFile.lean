import ScratchOs.Boot.ReadFile

namespace ScratchOs.Boot

open Data

/-! Where `start` puts the kernel: one cluster of 512 bytes behind the other from
`KERNEL_BUFFER` on. A segment reaches the end of the first megabyte, but the stack
of the loader is in front of that. -/

/-- Clusters from `KERNEL_BUFFER` to the end of the first megabyte. -/
def reachableClusters : Nat := 1664

/-- The `disk_read` of this round is told to store at this address. -/
def ReadRound.StoresAt (round : ReadRound) (address : Nat) : Prop :=
  (linearToSegmentOffset round.outputBuffer).1.toNat * 16 + (linearToSegmentOffset round.outputBuffer).2.toNat =
    address

/-- The cluster at this position of a chain cannot be read, whichever requests the ones before took. -/
def FailsAt (drive : Drive) (loader : Loader) (position : Nat) : Prop :=
  AllTriesFail drive.fails (firstTry drive.fails loader.issued.length position)

instance (drive : Drive) (loader : Loader) (position : Nat) : Decidable (FailsAt drive loader position) :=
  inferInstanceAs (Decidable (AllTriesFail _ _))

/-- The head or the sector count the loader divides by is 0. -/
def Faults (disk : Disk) : Prop :=
  (disk.headsPerCylinder.setWidth 8 : Byte).toNat * (disk.sectorsPerTrack.setWidth 8 : Byte).toNat = 0

/-- `switch_to_pm.asm` starts the stack here. -/
def stackTop : Nat := 0x90000

/-- The frames on the stack while `read_file` runs: those of `start`, `read_file`
and what it has called, with `output_buffer` and the return addresses in them. How
far down they reach is up to the compiler. -/
structure StackFrames where
  low : Nat
  aboveBuffer : kernelBuffer.toNat ≤ low
  occupied : low < stackTop

/-- Clusters from `KERNEL_BUFFER` to the frames. -/
def StackFrames.room (frames : StackFrames) : Nat := (frames.low - kernelBuffer.toNat) / 512

variable {drive : Drive} {disk : Disk} {loader after : Loader} {chain : List Nat} {first round next : ReadRound}
variable {links : Nat → Nat} {cluster follower position count : Nat} {frames : StackFrames}

theorem kernelBuffer_toNat : kernelBuffer.toNat = 0x30000 := rfl

theorem firstTry_succ (fails : Nat → Bool) (start count : Nat) :
    firstTry fails start (count + 1) = afterTries fails (firstTry fails start count) := by
  induction count generalizing start with
  | zero => rfl
  | succ count ih => exact ih (afterTries fails start)

theorem FatChain.link (linked : FatChain links chain) (here : chain[position]? = some cluster)
    (behind : chain[position + 1]? = some follower) : links cluster = follower := by
  induction chain generalizing position with
  | nil => cases here
  | cons head rest ih =>
      cases rest with
      | nil => cases behind
      | cons second rest =>
          cases position with
          | zero =>
              cases here
              cases behind
              exact linked.2.2.1
          | succ position => exact ih linked.2.2.2 here behind

theorem FatChain.ends (linked : FatChain links chain) (here : chain[position]? = some cluster)
    (last : chain[position + 1]? = none) : 0xFF8 ≤ links cluster := by
  induction chain generalizing position with
  | nil => cases here
  | cons head rest ih =>
      cases rest with
      | nil =>
          cases position with
          | zero =>
              cases here
              exact linked.2.2
          | succ position => cases here
      | cons second rest =>
          cases position with
          | zero => cases last
          | succ position => exact ih linked.2.2.2 here last

/-- The loop has read the clusters before this position of the chain. -/
structure AtPosition (drive : Drive) (loader : Loader) (chain : List Nat) (position : Nat) (round : ReadRound) :
    Prop where
  cluster : chain[position]? = some round.currentCluster.toNat
  buffer : round.outputBuffer.toNat = kernelBuffer.toNat + 512 * position
  tries : round.loader.issued.length = firstTry drive.fails loader.issued.length position
  earlier : ∀ before < position, ¬ FailsAt drive loader before
  outside : ∀ place : Word, place.toNat < kernelBuffer.toNat ∨ kernelBuffer.toNat + 512 * position ≤ place.toNat →
    round.loader.memory place = loader.memory place

theorem AtPosition.storesAt (here : AtPosition drive loader chain position round)
    (reachable : position < reachableClusters) :
    round.StoresAt (kernelBuffer.toNat + 512 * position) := by
  have buffer := here.buffer
  have low : round.outputBuffer.toNat < 0x100000 := by
    unfold reachableClusters at reachable
    rw [buffer, kernelBuffer_toNat]
    omega
  exact (linearToSegmentOffset_linear low).trans buffer

/-- Nothing is stored below the buffer, so the table stays where it is. -/
theorem AtPosition.link (here : AtPosition drive loader chain position round)
    (linked : FatChain (fatEntry loader.memory fatBuffer) chain) {memory : ByteMemory}
    (same : ∀ place : Word, place.toNat < kernelBuffer.toNat → memory place = loader.memory place) :
    (getNextCluster memory fatBuffer round.currentCluster).toNat =
      fatEntry loader.memory fatBuffer round.currentCluster.toNat := by
  have bound := (linked.cluster_bounds _ (List.mem_of_getElem? here.cluster)).2
  have entries : ∀ place ∈ entryBytes fatBuffer round.currentCluster.toNat, memory place = loader.memory place := by
    have low : ∀ offset ≤ 0x2000, (fatBuffer + BitVec.ofNat 32 offset).toNat < kernelBuffer.toNat := by
      intro offset small
      rw [BitVec.toNat_add, BitVec.toNat_ofNat, show fatBuffer.toNat = 0x9b4c from rfl,
        kernelBuffer_toNat]
      omega
    rintro place (rfl | rfl)
    · exact same _ (low _ (by omega))
    · exact same _ (low _ (by omega))
  have decoded := @getNextCluster_congr loader.memory memory fatBuffer round.currentCluster.toNat (by omega) entries
  rw [BitVec.ofNat_toNat, BitVec.setWidth_eq] at decoded
  rw [decoded, ← getNextCluster_eq _ _ (show round.currentCluster.toNat < 2 ^ 30 by omega), BitVec.ofNat_toNat,
    BitVec.setWidth_eq]

/-- The `disk_read` of a round whose address a segment reaches. -/
theorem AtPosition.read (here : AtPosition drive loader chain position round) (faultless : ¬ Faults disk)
    (reachable : position < reachableClusters) :
    ∃ source after, (kernelRead drive disk).readCluster round = some (decide (FailsAt drive loader position), after) ∧
      after.issued.length = firstTry drive.fails loader.issued.length (position + 1) ∧
      after.memory = if FailsAt drive loader position then round.loader.memory
        else copyIn drive source (kernelBuffer.toNat + 512 * position) 512 round.loader.memory := by
  obtain ⟨source, after, run, issued, memory⟩ := @diskRead_copies drive round.loader
    ((kernelRead drive disk).lba round.currentCluster) (floppyBpb.sectorsPerCluster.setWidth 16) round.outputBuffer
    (disk.headsPerCylinder.setWidth 8) (disk.sectorsPerTrack.setWidth 8) faultless
  rw [here.tries] at run issued memory
  rw [show _ = kernelBuffer.toNat + 512 * position from here.storesAt reachable] at memory
  exact ⟨source, after, run, by rw [issued, firstTry_succ], memory⟩

theorem readCluster_fault (faults : Faults disk) : (kernelRead drive disk).readCluster round = none :=
  diskRead_fault faults

theorem AtPosition.read_outside (here : AtPosition drive loader chain position round)
    (reachable : position < reachableClusters) {error : Bool}
    (read : (kernelRead drive disk).readCluster round = some (error, after)) :
    error = decide (FailsAt drive loader position) ∧
    after.issued.length = firstTry drive.fails loader.issued.length (position + 1) ∧
    ∀ place : Word, place.toNat < kernelBuffer.toNat ∨ kernelBuffer.toNat + 512 * (position + 1) ≤ place.toNat →
      after.memory place = loader.memory place := by
  have faultless : ¬ Faults disk := by
    intro faults
    rw [readCluster_fault faults] at read
    cases read
  obtain ⟨source, other, run, issued, memory⟩ := here.read faultless reachable
  cases read.symm.trans run
  refine ⟨rfl, issued, fun place away => ?_⟩
  rw [kernelBuffer_toNat] at away
  rw [← here.outside place (by rw [kernelBuffer_toNat]; omega), memory]
  split
  · rfl
  · exact copyIn_outside (by rw [kernelBuffer_toNat]; omega)

theorem AtPosition.step (here : AtPosition drive loader chain position round)
    (linked : FatChain (fatEntry loader.memory fatBuffer) chain) (reachable : position < reachableClusters)
    (follows : (kernelRead drive disk).nextRound round = some next) :
    AtPosition drive loader chain (position + 1) next := by
  have follows' := follows
  rw [FileRead.nextRound, Option.bind_eq_bind, Option.bind_eq_some_iff] at follows'
  obtain ⟨⟨error, after⟩, read, goesOn⟩ := follows'
  obtain ⟨failed, issued, outside⟩ := here.read_outside reachable read
  simp only at goesOn
  split at goesOn
  · rename_i continues
    cases goesOn
    have link := here.link linked fun place low => outside place (.inl low)
    constructor
    · cases behind : chain[position + 1]? with
      | none =>
          have ends := linked.ends here.cluster behind
          have small : (getNextCluster after.memory fatBuffer round.currentCluster).toNat < 0xFF8 := continues.2
          omega
      | some follower => rw [← linked.link here.cluster behind, ← link]; rfl
    · have buffer := here.buffer
      unfold reachableClusters at reachable
      have cluster : (BitVec.ofNat 32 (floppyBpb.sectorsPerCluster.toNat * floppyBpb.bytesPerSector.toNat)).toNat =
          512 := by decide
      simp only [kernelRead]
      rw [BitVec.toNat_add, buffer, kernelBuffer_toNat, cluster]
      omega
    · exact issued
    · intro before inside
      rcases Nat.lt_succ_iff_lt_or_eq.mp inside with earlier | rfl
      · exact here.earlier before earlier
      · exact of_decide_eq_false (failed.symm.trans continues.1)
    · exact outside
  · cases goesOn

theorem AtPosition.proceeds (here : AtPosition drive loader chain position round)
    (linked : FatChain (fatEntry loader.memory fatBuffer) chain) (faultless : ¬ Faults disk)
    (reachable : position < reachableClusters) (works : ¬ FailsAt drive loader position)
    (more : position + 1 < chain.length) : ∃ next, (kernelRead drive disk).nextRound round = some next := by
  obtain ⟨source, after, read, _⟩ := here.read faultless reachable
  rw [decide_eq_false works] at read
  have outside := (here.read_outside reachable read).2.2
  have link := here.link linked fun place low => outside place (.inl low)
  rw [linked.link here.cluster (List.getElem?_eq_getElem more)] at link
  have bound := (linked.cluster_bounds _ (List.getElem_mem more)).2
  have continues : getNextCluster after.memory fatBuffer round.currentCluster < 0xFF8 := by
    rw [BitVec.lt_def, link]
    exact Nat.lt_of_le_of_lt bound (by decide)
  exact ⟨_, (FileRead.nextRound_of_read read).trans (if_pos continues)⟩

variable {entry : DirectoryEntry}

/-- The rounds up to the end of the first megabyte are those of the chain. -/
theorem atPosition (linked : FatChain (fatEntry loader.memory fatBuffer) chain)
    (start : chain.head? = some (getStartingCluster entry).toNat) (reachable : count ≤ reachableClusters)
    (here : (kernelRead drive disk).roundAt (FileRead.firstRound entry kernelBuffer loader) count = some round) :
    AtPosition drive loader chain count round := by
  induction count generalizing round with
  | zero =>
      cases here
      exact ⟨by rw [← List.head?_eq_getElem?]; exact start, rfl, rfl,
        fun before inside => absurd inside (Nat.not_lt_zero before), fun _ _ => rfl⟩
  | succ count ih =>
      rw [FileRead.roundAt, Data.roundAt, Option.bind_eq_some_iff] at here
      obtain ⟨before, beforeAt, follows⟩ := here
      exact (ih (Nat.le_of_succ_le reachable) beforeAt).step linked reachable follows

/-- A longer file goes that far, unless a read before fails. -/
theorem reaches (linked : FatChain (fatEntry loader.memory fatBuffer) chain)
    (start : chain.head? = some (getStartingCluster entry).toNat) (faultless : ¬ Faults disk)
    (reachable : count ≤ reachableClusters) (long : count < chain.length)
    (works : ∀ position < count, ¬ FailsAt drive loader position) :
    ∃ round, (kernelRead drive disk).roundAt (FileRead.firstRound entry kernelBuffer loader) count = some round := by
  induction count with
  | zero => exact ⟨_, rfl⟩
  | succ count ih =>
      obtain ⟨round, here⟩ := ih (Nat.le_of_succ_le reachable) (Nat.lt_of_succ_lt long)
        fun position inside => works position (Nat.lt_succ_of_lt inside)
      obtain ⟨next, follows⟩ := (atPosition linked start (Nat.le_of_succ_le reachable) here).proceeds linked faultless
        reachable (works count (Nat.lt_succ_self count)) long
      exact ⟨next, (roundAt_succ here).trans follows⟩

theorem StackFrames.room_bounds (frames : StackFrames) : kernelBuffer.toNat + 512 * frames.room ≤ frames.low ∧
    frames.low < kernelBuffer.toNat + 512 * (frames.room + 1) ∧ frames.room < 768 := by
  have above := frames.aboveBuffer
  have below := frames.occupied
  unfold room
  unfold stackTop at below
  rw [kernelBuffer_toNat] at *
  omega

/-- A read that succeeds stores nothing over the frames. -/
def ReadRound.SparesFrames (file : FileRead) (frames : StackFrames) (round : ReadRound) : Prop :=
  ∀ after, file.readCluster round = some (false, after) →
    ∀ address, round.StoresAt address → address + 512 ≤ frames.low ∨ stackTop ≤ address

/-- What the loader takes for granted: every read is told to store behind the one
before, the loop's own variables and its return addresses stay, and nothing but the
file's place in the buffer changes. -/
structure StoredInPlace (drive : Drive) (disk : Disk) (entry : DirectoryEntry) (loader : Loader) (frames : StackFrames)
    (clusters : Nat) : Prop where
  behind : ∀ count round, (kernelRead drive disk).roundAt (FileRead.firstRound entry kernelBuffer loader) count = some round →
    round.StoresAt (kernelBuffer.toNat + 512 * count)
  spared : ∀ count round, (kernelRead drive disk).roundAt (FileRead.firstRound entry kernelBuffer loader) count = some round →
    round.SparesFrames (kernelRead drive disk) frames
  outside : ∀ fuel error after,
    readFile fuel drive entry disk floppyBpb kernelBuffer fatBuffer loader = some (error, after) →
      ∀ place : Word, place.toNat < kernelBuffer.toNat ∨ kernelBuffer.toNat + 512 * clusters ≤ place.toNat →
        after.memory place = loader.memory place

/-- When the loop stays below the frames. -/
def StaysClear (drive : Drive) (disk : Disk) (loader : Loader) (frames : StackFrames) (clusters : Nat) : Prop :=
  clusters ≤ frames.room ∨ (∃ position ≤ frames.room, FailsAt drive loader position) ∨ Faults disk

/-- The first cluster that reaches the frames is stored over them. -/
theorem not_storedInPlace (linked : FatChain (fatEntry loader.memory fatBuffer) chain)
    (start : chain.head? = some (getStartingCluster entry).toNat)
    (far : ¬ StaysClear drive disk loader frames chain.length) :
    ¬ StoredInPlace drive disk entry loader frames chain.length := by
  intro stored
  obtain ⟨long, works, faultless⟩ : ¬ chain.length ≤ frames.room ∧
      (¬ ∃ position ≤ frames.room, FailsAt drive loader position) ∧ ¬ Faults disk := by
    simpa only [StaysClear, not_or] using far
  obtain ⟨_, upper, few⟩ := frames.room_bounds
  have reachable : frames.room < reachableClusters := Nat.lt_trans few (by decide)
  obtain ⟨round, here⟩ := reaches linked start faultless (Nat.le_of_lt reachable) (Nat.not_le.mp long)
    fun position inside failed => works ⟨position, Nat.le_of_lt inside, failed⟩
  have position := atPosition linked start (Nat.le_of_lt reachable) here
  obtain ⟨_, after, read, _⟩ := position.read faultless reachable
  rw [decide_eq_false fun failed => works ⟨frames.room, Nat.le_refl _, failed⟩] at read
  have spared := stored.spared _ round here after read _ (position.storesAt reachable)
  unfold stackTop at spared
  rw [kernelBuffer_toNat] at *
  omega

/-- A round that is reached begins below the frames, and one whose read succeeds ends there. -/
theorem round_clear (linked : FatChain (fatEntry loader.memory fatBuffer) chain)
    (start : chain.head? = some (getStartingCluster entry).toNat)
    (near : StaysClear drive disk loader frames chain.length)
    (here : (kernelRead drive disk).roundAt (FileRead.firstRound entry kernelBuffer loader) count = some round) :
    count ≤ frames.room ∧
      ∀ after, (kernelRead drive disk).readCluster round = some (false, after) → count < frames.room := by
  have few := frames.room_bounds.2.2
  have reached : count ≤ frames.room := by
    by_contra beyond
    obtain ⟨overrun, overrunAt⟩ := Option.isSome_iff_exists.mp
      (roundAt_isSome_of_le (Nat.not_le.mp beyond) (Option.isSome_iff_exists.mpr ⟨round, here⟩))
    have position := atPosition linked start (Nat.le_trans few (by decide)) overrunAt
    rcases near with short | ⟨failing, inside, failed⟩ | faults
    · have present := (List.getElem?_eq_some_iff.mp position.cluster).1
      omega
    · exact position.earlier failing (Nat.lt_succ_of_le inside) failed
    · -- The first read does not even begin.
      obtain ⟨second, secondAt⟩ := Option.isSome_iff_exists.mp
        (roundAt_isSome_of_le (Nat.succ_pos frames.room) (Option.isSome_iff_exists.mpr ⟨overrun, overrunAt⟩))
      have follows : (kernelRead drive disk).nextRound (FileRead.firstRound entry kernelBuffer loader) = some second :=
        secondAt
      rw [FileRead.nextRound, readCluster_fault faults] at follows
      cases follows
  refine ⟨reached, fun after read => ?_⟩
  have reachable : count < reachableClusters := Nat.lt_of_le_of_lt reached (Nat.lt_trans few (by decide))
  have position := atPosition linked start (Nat.le_of_lt reachable) here
  rcases near with short | ⟨failing, inside, failed⟩ | faults
  · have present := (List.getElem?_eq_some_iff.mp position.cluster).1
    omega
  · have works : ¬ FailsAt drive loader count := of_decide_eq_false (position.read_outside reachable read).1.symm
    have later : count < failing := by
      rcases Nat.lt_trichotomy count failing with before | rfl | behind
      · exact before
      · exact absurd failed works
      · exact absurd failed (position.earlier failing behind)
    omega
  · rw [readCluster_fault faults] at read
    cases read

theorem storedInPlace (linked : FatChain (fatEntry loader.memory fatBuffer) chain)
    (start : chain.head? = some (getStartingCluster entry).toNat)
    (near : StaysClear drive disk loader frames chain.length) :
    StoredInPlace drive disk entry loader frames chain.length := by
  obtain ⟨lower, _, few⟩ := frames.room_bounds
  have reachable : ∀ {count round}, (kernelRead drive disk).roundAt (FileRead.firstRound entry kernelBuffer loader) count =
      some round → count < reachableClusters :=
    fun here => Nat.lt_of_le_of_lt (round_clear linked start near here).1 (Nat.lt_trans few (by decide))
  constructor
  · intro count round here
    exact (atPosition linked start (Nat.le_of_lt (reachable here)) here).storesAt (reachable here)
  · intro count round here after read address stores
    have clear := (round_clear linked start near here).2 after read
    have place := (atPosition linked start (Nat.le_of_lt (reachable here)) here).storesAt (reachable here)
    cases stores.symm.trans place
    left
    omega
  · intro fuel error after run place away
    rw [show readFile fuel drive entry disk floppyBpb kernelBuffer fatBuffer loader = _ from
      (kernelRead drive disk).readFile_eq fuel entry kernelBuffer loader] at run
    obtain ⟨count, _, last, lastAt, _, read⟩ := FileRead.run_eq_some_iff.mp run
    have position := atPosition linked start (Nat.le_of_lt (reachable lastAt)) lastAt
    have present := (List.getElem?_eq_some_iff.mp position.cluster).1
    have outside := (position.read_outside (reachable lastAt) read).2.2
    exact outside place (by omega)

/-- Every cluster of the kernel file is stored behind the one before, and the loop
keeps its variables, exactly when the file ends below the frames of the loop or the
reading ends early. That is at most 767 clusters; the volume has room for 2798. -/
theorem kernelFile_storedInPlace_iff (drive : Drive) (disk : Disk) (entry : DirectoryEntry) (loader : Loader)
    (frames : StackFrames) (chain : List Nat) (linked : FatChain (fatEntry loader.memory fatBuffer) chain)
    (start : chain.head? = some (getStartingCluster entry).toNat) :
    StoredInPlace drive disk entry loader frames chain.length ↔ StaysClear drive disk loader frames chain.length := by
  constructor
  · intro stored
    by_contra far
    exact not_storedInPlace linked start far stored
  · exact storedInPlace linked start

/-- Frames that fill a page. -/
def pageOfFrames : StackFrames := ⟨0x8F000, by decide, by decide⟩

theorem kernelFile_storedInPlace_iff_oneCluster :
    StoredInPlace blank.drive floppyDisk ⟨0, 2⟩ ⟨fun _ => 0xFF, []⟩ pageOfFrames 1 :=
  (kernelFile_storedInPlace_iff blank.drive floppyDisk ⟨0, 2⟩ ⟨fun _ => 0xFF, []⟩ pageOfFrames [2]
    ⟨by decide, by decide, by decide⟩ rfl).mpr (.inl (by decide))

/-! A file that does not fit. -/

theorem fatChain_range' {front : Nat} (lower : 2 ≤ front) (upper : front + count ≤ 0xFF6)
    (successors : ∀ cluster, front ≤ cluster → cluster < front + count → links cluster = cluster + 1)
    (ends : 0xFF8 ≤ links (front + count)) : FatChain links (List.range' front (count + 1)) := by
  induction count generalizing front with
  | zero => exact ⟨lower, upper, ends⟩
  | succ count ih =>
      have tail := @ih (front + 1) (by omega) (by omega)
        (fun cluster above below => successors cluster (by omega) (by omega)) (by rwa [Nat.add_assoc, Nat.add_comm 1])
      exact ⟨lower, by omega, successors front (Nat.le_refl _) (by omega), tail⟩

/-- The table of a file in the clusters 2 to 770. -/
def longFileTable : List (BitVec 12) :=
  (List.range 770).map (fun cluster => BitVec.ofNat 12 (cluster + 1)) ++ [0xFFF]

def longFile : List Nat := List.range' 2 769

def longFileLoader : Loader := ⟨memoryWith fatBuffer (packEntries longFileTable), []⟩

theorem longFile_chain : FatChain (fatEntry longFileLoader.memory fatBuffer) longFile := by
  have size : longFileTable.length = 771 := by
    rw [longFileTable, List.length_append, List.length_map, List.length_range]
    rfl
  have packed := @holds_memoryWith fatBuffer (packEntries longFileTable) (by
    rw [length_packEntries, size]
    decide)
  refine fatChain_range' (by decide) (by decide) (fun cluster _ below => ?_) ?_
  · rw [longFileLoader, fatEntry_packed packed (show cluster < longFileTable.length by omega)]
    simp only [longFileTable]
    rw [List.getElem_append_left (by rw [List.length_map, List.length_range]; omega), List.getElem_map,
      List.getElem_range, BitVec.toNat_ofNat, Nat.mod_eq_of_lt (by omega)]
  · rw [longFileLoader, fatEntry_packed packed (show 2 + 768 < longFileTable.length by omega)]
    simp only [longFileTable]
    rw [List.getElem_append_right (by rw [List.length_map, List.length_range])]
    simp

theorem longFile_start : longFile.head? = some (getStartingCluster ⟨0, 2⟩).toNat := by
  rw [longFile, List.range'_succ]
  rfl

theorem length_longFile : longFile.length = 769 := List.length_range'

theorem longFile_fits : ∀ cluster ∈ longFile,
    clusterSector floppyBpb cluster + floppyBpb.sectorsPerCluster.toNat ≤ 2880 := by
  intro cluster member
  have bound := (List.mem_range'_1.mp member).2
  have start : dataSector floppyBpb = 82 := by decide
  rw [clusterSector, start, show floppyBpb.sectorsPerCluster.toNat = 1 from rfl]
  omega

/-- Its last cluster but one is stored over the first bytes of the stack. They are in use if any are. -/
theorem longFile_overruns : ¬ ∀ (drive : Drive) (disk : Disk) (entry : DirectoryEntry) (loader : Loader)
    (frames : StackFrames) (chain : List Nat), FatChain (fatEntry loader.memory fatBuffer) chain →
    chain.head? = some (getStartingCluster entry).toNat →
    (∀ cluster ∈ chain, clusterSector floppyBpb cluster + floppyBpb.sectorsPerCluster.toNat ≤ 2880) →
      StoredInPlace drive disk entry loader frames chain.length := by
  intro all
  let frames : StackFrames := ⟨0x8FFFF, by decide, by decide⟩
  have stored := all blank.drive floppyDisk ⟨0, 2⟩ longFileLoader frames longFile longFile_chain longFile_start longFile_fits
  refine not_storedInPlace longFile_chain longFile_start ?_ stored
  rw [length_longFile]
  rintro (short | ⟨position, _, failed⟩ | faults)
  · exact absurd short (by decide)
  · cases failed 0 (by decide)
  · exact absurd faults (by unfold Faults; decide)

end ScratchOs.Boot
