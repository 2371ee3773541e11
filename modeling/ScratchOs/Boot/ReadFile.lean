import ScratchOs.Data.Rounds
import ScratchOs.Boot.Packing

namespace ScratchOs.Boot

open Data

/-! The loop of `read_file` round by round: which clusters it visits, which
sectors it asks for, and when it stops. -/

/-- What the loop never changes. Sectors of some bytes give the directory an end. -/
structure FileRead where
  drive : Drive
  disk : Disk
  bpb : Fat12Bpb
  fat : Word
  dataStart : Word
  located : directoryEnd bpb = some dataStart

/-- The variables of the loop when a round begins. -/
structure ReadRound where
  currentCluster : Word
  outputBuffer : Word
  loader : Loader

namespace FileRead

def lba (file : FileRead) (cluster : Word) : Word :=
  file.dataStart + (cluster - 2) * file.bpb.sectorsPerCluster.setWidth 32

def readCluster (file : FileRead) (round : ReadRound) : Option (Bool × Loader) :=
  diskRead file.drive (file.lba round.currentCluster) (file.bpb.sectorsPerCluster.setWidth 16) round.outputBuffer
    (file.disk.headsPerCylinder.setWidth 8) (file.disk.sectorsPerTrack.setWidth 8) round.loader

def nextRound (file : FileRead) (round : ReadRound) : Option ReadRound := do
  let (error, loader) ← file.readCluster round
  let currentCluster := getNextCluster loader.memory file.fat round.currentCluster
  if error = false ∧ currentCluster < 0xFF8 then
    some ⟨currentCluster,
      round.outputBuffer + BitVec.ofNat 32 (file.bpb.sectorsPerCluster.toNat * file.bpb.bytesPerSector.toNat), loader⟩
  else none

def roundAt (file : FileRead) (first : ReadRound) : Nat → Option ReadRound := Data.roundAt file.nextRound first

/-- The loop of the source, from this round on. -/
def run (file : FileRead) (fuel : Nat) (round : ReadRound) : Option (Bool × Loader) :=
  readClusters file.drive file.disk file.bpb file.fat file.dataStart fuel round.currentCluster round.outputBuffer
    round.loader

variable {file : FileRead} {first round next : ReadRound} {count fuel : Nat} {result : Bool × Loader}

theorem run_of_next (follows : file.nextRound round = some next) : file.run (fuel + 1) round = file.run fuel next := by
  rw [run, readClusters]
  rw [nextRound, readCluster, lba] at follows
  revert follows
  cases diskRead file.drive _ _ _ _ _ round.loader with
  | none => intro follows; cases follows
  | some result =>
      intro follows
      simp only [Option.bind_eq_bind, Option.bind_some] at follows ⊢
      split at follows
      · rename_i goesOn
        cases follows
        rw [if_pos goesOn]
        rfl
      · cases follows

theorem run_of_last (last : file.nextRound round = none) : file.run (fuel + 1) round = file.readCluster round := by
  rw [run, readClusters]
  rw [nextRound, readCluster, lba] at last
  rw [readCluster, lba]
  revert last
  cases diskRead file.drive _ _ _ _ _ round.loader with
  | none => intro _; rfl
  | some result =>
      intro last
      simp only [Option.bind_eq_bind, Option.bind_some] at last ⊢
      split at last
      · cases last
      · rename_i stops
        rw [if_neg stops]

theorem run_add (here : file.roundAt first count = some round) (fuel : Nat) :
    file.run (fuel + count) first = file.run fuel round := by
  induction count generalizing round fuel with
  | zero => cases here; rfl
  | succ count ih =>
      rw [roundAt, Data.roundAt, Option.bind_eq_some_iff] at here
      obtain ⟨before, beforeAt, follows⟩ := here
      rw [← Nat.add_assoc, Nat.add_right_comm, ih beforeAt, run_of_next follows]

/-- The loop returns what the `disk_read` of its last round does. -/
theorem run_eq_some_iff : file.run fuel first = some result ↔
    ∃ count < fuel, ∃ last, file.roundAt first count = some last ∧ file.nextRound last = none ∧
      file.readCluster last = some result := by
  constructor
  · intro returns
    induction fuel generalizing first with
    | zero => cases returns
    | succ fuel ih =>
        cases follows : file.nextRound first with
        | none => exact ⟨0, Nat.succ_pos _, first, rfl, follows, by rwa [run_of_last follows] at returns⟩
        | some next =>
            rw [run_of_next follows] at returns
            obtain ⟨count, below, last, lastAt, ends, read⟩ := ih returns
            refine ⟨count + 1, Nat.succ_lt_succ below, last, ?_, ends, read⟩
            rw [Nat.add_comm]
            exact (roundAt_add (show Data.roundAt file.nextRound first 1 = some next from follows) count).trans lastAt
  · rintro ⟨count, below, last, lastAt, ends, read⟩
    obtain ⟨spare, rfl⟩ := Nat.exists_eq_add_of_lt below
    rw [show count + spare + 1 = spare + 1 + count by omega, run_add lastAt, run_of_last ends, read]

/-- What `read_file` does before the loop. -/
def firstRound (entry : DirectoryEntry) (outputBuffer : Word) (loader : Loader) : ReadRound :=
  ⟨getStartingCluster entry, outputBuffer, loader⟩

variable {entry : DirectoryEntry} {outputBuffer : Word} {loader : Loader}

theorem readFile_eq (file : FileRead) (fuel : Nat) (entry : DirectoryEntry) (outputBuffer : Word) (loader : Loader) :
    readFile fuel file.drive entry file.disk file.bpb outputBuffer file.fat loader =
      file.run fuel (firstRound entry outputBuffer loader) := by
  rw [readFile, file.located]
  rfl

/-! When the loop stops. -/

def ReadsSucceed (file : FileRead) (first : ReadRound) : Prop :=
  ∀ count round, file.roundAt first count = some round → ∃ after, file.readCluster round = some (false, after)

/-- The links the loop follows are those the table had when it began: no
`disk_read` before has changed them. -/
def KeepsLinks (file : FileRead) (first : ReadRound) : Prop :=
  ∀ count round after, file.roundAt first count = some round → file.readCluster round = some (false, after) →
    getNextCluster after.memory file.fat round.currentCluster =
      getNextCluster first.loader.memory file.fat round.currentCluster

def VisitsOnce (file : FileRead) (first : ReadRound) : Prop :=
  Data.VisitsOnce file.nextRound first ReadRound.currentCluster

/-- The link of a cluster, unless it is an end mark. -/
def linkAfter (memory : ByteMemory) (fat cluster : Word) : Option Word :=
  if getNextCluster memory fat cluster < 0xFF8 then some (getNextCluster memory fat cluster) else none

theorem nextRound_of_read {after : Loader} (read : file.readCluster round = some (false, after)) :
    file.nextRound round =
      if getNextCluster after.memory file.fat round.currentCluster < 0xFF8 then
        some ⟨getNextCluster after.memory file.fat round.currentCluster,
          round.outputBuffer + BitVec.ofNat 32 (file.bpb.sectorsPerCluster.toNat * file.bpb.bytesPerSector.toNat),
          after⟩
      else none := by
  rw [nextRound, read]
  simp only [Option.bind_eq_bind, Option.bind_some, true_and]

theorem nextRound_cluster (follows : file.nextRound round = some next) : next.currentCluster.toNat < 0xFF8 := by
  rw [nextRound, Option.bind_eq_bind, Option.bind_eq_some_iff] at follows
  obtain ⟨⟨error, after⟩, _, follows⟩ := follows
  simp only at follows
  split at follows
  · rename_i goesOn
    cases follows
    exact goesOn.2
  · cases follows

theorem link_lt (here : file.roundAt first (count + 1) = some round) : round.currentCluster.toNat < 0xFF8 := by
  rw [roundAt, Data.roundAt, Option.bind_eq_some_iff] at here
  obtain ⟨before, _, follows⟩ := here
  exact nextRound_cluster follows

/-- As long as the table stays, the loop follows it. -/
theorem tracks (succeeds : file.ReadsSucceed first) (kept : file.KeepsLinks first) :
    Tracks file.nextRound first ReadRound.currentCluster (linkAfter first.loader.memory file.fat) := by
  intro count round here
  obtain ⟨after, read⟩ := succeeds count round here
  rw [nextRound_of_read read, linkAfter, kept count round after here read]
  split <;> rfl

theorem returns_of_stops (succeeds : file.ReadsSucceed first) {bound : Nat} (stops : file.roundAt first bound = none) :
    ∃ after, file.run bound first = some (false, after) := by
  obtain ⟨count, below, last, lastAt, ends⟩ := exists_last stops
  obtain ⟨after, read⟩ := succeeds count last lastAt
  exact ⟨after, run_eq_some_iff.mpr ⟨count, below, last, lastAt, ends, read⟩⟩

theorem stops_of_returns (returns : file.run fuel first = some result) : file.roundAt first fuel = none := by
  obtain ⟨count, below, last, lastAt, ends, _⟩ := run_eq_some_iff.mp returns
  exact roundAt_eq_none_of_le (Nat.succ_le_of_lt below) ((roundAt_succ lastAt).trans ends)

/-- The 4088 values below the end marks, behind the first cluster. -/
theorem stops_of_visitsOnce (once : file.VisitsOnce first) : file.roundAt first 4089 = none := by
  have onceByNumber : Data.VisitsOnce file.nextRound first fun round => round.currentCluster.toNat :=
    fun left right leftRound rightRound leftAt rightAt same =>
      once left right leftRound rightRound leftAt rightAt (BitVec.eq_of_toNat_eq same)
  have stops := @onceByNumber.stops _ _ _ _ _ (Finset.range 0xFF8) fun count round here =>
    Finset.mem_range.mpr (link_lt here)
  rwa [Finset.card_range] at stops

end FileRead

/-! The volume of `floppyBpb`. -/

def fatBuffer : Word := 0x9b4c

def kernelBuffer : Word := 0x30000

/-- `read_file` as `start` calls it. -/
def kernelRead (drive : Drive) (disk : Disk) : FileRead where
  drive := drive
  disk := disk
  bpb := floppyBpb
  fat := fatBuffer
  dataStart := 82
  located := rfl

def blank : FileRead := kernelRead ⟨2, 18, fun _ => 0, fun _ => false⟩ floppyDisk

theorem blank_read (round : ReadRound) :
    ∃ source after, blank.readCluster round = some (false, after) ∧
      after.memory = copyIn blank.drive source ((linearToSegmentOffset round.outputBuffer).1.toNat * 16 +
        (linearToSegmentOffset round.outputBuffer).2.toNat) 512 round.loader.memory := by
  obtain ⟨source, after, run, _, memory⟩ := @diskRead_copies blank.drive round.loader
    (blank.lba round.currentCluster) (blank.bpb.sectorsPerCluster.setWidth 16) round.outputBuffer
    (blank.disk.headsPerCylinder.setWidth 8) (blank.disk.sectorsPerTrack.setWidth 8) (by decide)
  have works : ¬ AllTriesFail blank.drive.fails round.loader.issued.length := by
    intro failed
    cases failed 0 (by decide)
  rw [decide_eq_false works] at run
  rw [if_neg works] at memory
  exact ⟨source, after, run, memory⟩

theorem blank_readsSucceed (first : ReadRound) : blank.ReadsSucceed first := fun _ round _ => by
  obtain ⟨_, after, run, _⟩ := blank_read round
  exact ⟨after, run⟩

theorem getNextCluster_zeros {memory : ByteMemory} (zeros : ∀ place, memory place = 0) (fat cluster : Word) :
    getNextCluster memory fat cluster = 0 := by
  simp only [getNextCluster, zeros]
  split <;> rfl

/-- Zeros are read over zeros, and every entry of a table of zeros leads to cluster 0. -/
theorem blank_round {first : ReadRound} (zeros : ∀ place, first.loader.memory place = 0) (count : Nat) :
    ∃ round, blank.roundAt first count = some round ∧ (∀ place, round.loader.memory place = 0) ∧
      (0 < count → round.currentCluster = 0) := by
  induction count with
  | zero => exact ⟨first, rfl, zeros, fun impossible => absurd impossible (Nat.lt_irrefl 0)⟩
  | succ count ih =>
      obtain ⟨round, here, clear, _⟩ := ih
      obtain ⟨source, after, read, memory⟩ := blank_read round
      have still : ∀ place, after.memory place = 0 := by
        intro place
        rw [memory, copyIn]
        split
        · rfl
        · exact clear place
      have follows := FileRead.nextRound_of_read read
      rw [getNextCluster_zeros still, if_pos (by decide)] at follows
      exact ⟨_, (roundAt_succ here).trans follows, still, fun _ => rfl⟩

/-- A file whose first cluster is its last one: its entry stands below the buffer. -/
def oneCluster : ReadRound := FileRead.firstRound ⟨0, 2⟩ kernelBuffer ⟨fun _ => 0xFF, []⟩

theorem blank_oneCluster : ∃ after, blank.readCluster oneCluster = some (false, after) ∧
    getNextCluster after.memory blank.fat oneCluster.currentCluster = 0xFFF := by
  obtain ⟨source, after, read, memory⟩ := blank_read oneCluster
  have link := @getNextCluster_congr (fun _ => 0xFF) after.memory fatBuffer 2 (by decide) (by
    rintro place (rfl | rfl)
    · rw [memory]
      exact copyIn_outside (.inl (by decide))
    · rw [memory]
      exact copyIn_outside (.inl (by decide)))
  exact ⟨after, read, link⟩

theorem blank_oneCluster_keepsLinks : blank.KeepsLinks oneCluster := by
  obtain ⟨last, read, link⟩ := blank_oneCluster
  intro count round after here again
  cases count with
  | zero =>
      cases here
      cases read.symm.trans again
      exact link
  | succ count =>
      have ends := FileRead.nextRound_of_read read
      rw [link, if_neg (by decide)] at ends
      have stopped := roundAt_eq_none_of_le (Nat.succ_le_succ (Nat.zero_le count))
        (show Data.roundAt blank.nextRound oneCluster 1 = none from ends)
      cases stopped.symm.trans here

/-- `read_file` comes to its end, however long that takes. -/
def Returns (file : FileRead) (entry : DirectoryEntry) (outputBuffer : Word) (loader : Loader) : Prop :=
  ∃ fuel result, readFile fuel file.drive entry file.disk file.bpb outputBuffer file.fat loader = some result

/-- With every read succeeding `read_file` stops after at most 4089 clusters if
it visits none twice. As long as its reads leave the table alone that is the
only way to stop: the links lead to an end mark and not into a cycle. -/
theorem readFile_stops_iff (file : FileRead) (entry : DirectoryEntry) (outputBuffer : Word) (loader : Loader)
    (succeeds : file.ReadsSucceed (FileRead.firstRound entry outputBuffer loader)) :
    (file.VisitsOnce (FileRead.firstRound entry outputBuffer loader) →
      ∃ after, readFile 4089 file.drive entry file.disk file.bpb outputBuffer file.fat loader = some (false, after)) ∧
    (file.KeepsLinks (FileRead.firstRound entry outputBuffer loader) →
      (Returns file entry outputBuffer loader ↔ file.VisitsOnce (FileRead.firstRound entry outputBuffer loader)) ∧
      (Returns file entry outputBuffer loader ↔
        ∃ count, Data.roundAt (FileRead.linkAfter loader.memory file.fat) (getStartingCluster entry) count = none)) := by
  simp only [Returns, file.readFile_eq]
  have bounded : file.VisitsOnce (FileRead.firstRound entry outputBuffer loader) →
      ∃ after, file.run 4089 (FileRead.firstRound entry outputBuffer loader) = some (false, after) :=
    fun once => FileRead.returns_of_stops succeeds (FileRead.stops_of_visitsOnce once)
  refine ⟨bounded, fun kept => ?_⟩
  have tracks := FileRead.tracks succeeds kept
  refine ⟨⟨?_, ?_⟩, ⟨?_, ?_⟩⟩
  · rintro ⟨fuel, result, returns⟩
    exact tracks.visitsOnce_of_stops (FileRead.stops_of_returns returns)
  · intro once
    obtain ⟨after, returns⟩ := bounded once
    exact ⟨4089, _, returns⟩
  · rintro ⟨fuel, result, returns⟩
    have stops := tracks.label_roundAt fuel
    rw [show Data.roundAt file.nextRound _ fuel = none from FileRead.stops_of_returns returns] at stops
    exact ⟨fuel, stops.symm⟩
  · rintro ⟨count, ends⟩
    have stops := (tracks.label_roundAt count).trans ends
    rw [Option.map_eq_none_iff] at stops
    obtain ⟨after, returns⟩ := FileRead.returns_of_stops succeeds stops
    exact ⟨count, _, returns⟩

/-- A file of one cluster: the table says so, and is still there behind the read. -/
theorem readFile_stops_iff_oneCluster :
    Returns blank ⟨0, 2⟩ kernelBuffer ⟨fun _ => 0xFF, []⟩ ∧ blank.VisitsOnce oneCluster := by
  have both := (readFile_stops_iff blank ⟨0, 2⟩ kernelBuffer ⟨fun _ => 0xFF, []⟩ (blank_readsSucceed _)).2
    blank_oneCluster_keepsLinks
  have returns := both.2.mpr ⟨1, by decide⟩
  exact ⟨returns, both.1.mp returns⟩

/-- An erased table: `read_file` reads cluster 0 for ever. -/
theorem erasedTable_endless :
    ¬ ∀ (file : FileRead) (entry : DirectoryEntry) (outputBuffer : Word) (loader : Loader),
      file.ReadsSucceed (FileRead.firstRound entry outputBuffer loader) →
        Returns file entry outputBuffer loader ∧
          file.VisitsOnce (FileRead.firstRound entry outputBuffer loader) := by
  intro all
  obtain ⟨returns, _⟩ := all blank ⟨0, 2⟩ kernelBuffer ⟨fun _ => 0, []⟩ (blank_readsSucceed _)
  obtain ⟨fuel, result, run⟩ := returns
  rw [blank.readFile_eq] at run
  have stops := FileRead.stops_of_returns run
  obtain ⟨round, here, _⟩ := @blank_round (FileRead.firstRound ⟨0, 2⟩ kernelBuffer ⟨fun _ => 0, []⟩) (fun _ => rfl) fuel
  rw [here] at stops
  cases stops

end ScratchOs.Boot
