import ScratchOs.Data.ByteMemory

namespace ScratchOs

open Data

/-! Sector reads of the boot loader, `boot/stage2/disk.c` over `int 13h`. -/

namespace Boot

/-- The drive behind the firmware: its geometry, its bytes in the order of the
sectors, and which of the successive read requests fail. -/
structure Drive where
  heads : Nat
  sectors : Nat
  bytes : Nat → Byte
  fails : Nat → Bool

/-- The registers of one read request: `CH`, `DH`, `CL`, `AL` and `ES:BX`. -/
structure Request where
  cylinder : Byte
  head : Byte
  sector : Byte
  count : Byte
  segment : BitVec 16
  offset : BitVec 16

/-- Memory and the read requests made so far, latest first. The loader's own
variables are arguments of its functions; where they lie on the stack is said by
`StackFrames`. -/
structure Loader where
  memory : ByteMemory
  issued : List Request

def bytesPerDiskSector : Nat := 512

namespace Request

def firstSector (request : Request) (drive : Drive) : Nat :=
  (request.cylinder.toNat * drive.heads + request.head.toNat) * drive.sectors + request.sector.toNat - 1

def linearAddress (request : Request) : Nat := request.segment.toNat * 16 + request.offset.toNat

end Request

/-- Consecutive bytes of the drive from `source` on, put at `target`. -/
def copyIn (drive : Drive) (source target count : Nat) (memory : ByteMemory) : ByteMemory := fun address =>
  if target ≤ address.toNat ∧ address.toNat < target + count then drive.bytes (source + (address.toNat - target))
  else memory address

/-- `int 13h, AH=02h`: the request either fails or copies its sectors. -/
def int13 (drive : Drive) (request : Request) (loader : Loader) : Bool × Loader :=
  let issued := request :: loader.issued
  if drive.fails loader.issued.length then (true, ⟨loader.memory, issued⟩)
  else
    (false, ⟨copyIn drive (request.firstSector drive * bytesPerDiskSector) request.linearAddress
      (request.count.toNat * bytesPerDiskSector) loader.memory, issued⟩)

def x86DiskRead (drive : Drive) (sector sectorCount cylinder head : Byte) (segment offset : BitVec 16)
    (loader : Loader) : Bool × Loader :=
  int13 drive ⟨cylinder, head, sector, sectorCount, segment, offset⟩ loader

/-- `int 13h, AH=00h`. Nobody looks at its result. -/
def x86DiskReset (loader : Loader) : Loader := loader

def linearToSegmentOffset (linearAddress : Word) : BitVec 16 × BitVec 16 :=
  ((linearAddress >>> 4).setWidth 16, (linearAddress &&& 0x0F).setWidth 16)

/-- `none` for the division fault when there are no heads or no sectors. -/
def lbaToChs (lba : Word) (headsPerCylinder sectorsPerTrack : Byte) : Option (Byte × Byte × Byte) :=
  if headsPerCylinder.toNat * sectorsPerTrack.toNat = 0 then none
  else
    some (BitVec.ofNat 8 (lba.toNat / (headsPerCylinder.toNat * sectorsPerTrack.toNat)),
      BitVec.ofNat 8 (lba.toNat / sectorsPerTrack.toNat % headsPerCylinder.toNat),
      BitVec.ofNat 8 (lba.toNat % sectorsPerTrack.toNat + 1))

def numTries : Nat := 3

/-- The loop of `disk_read`; its result says whether an error is reported. -/
def readTries (read : Loader → Bool × Loader) : Nat → Loader → Bool × Loader
  | 0, loader => (true, loader)
  | left + 1, loader =>
      let (error, loader) := read loader
      if error = false then (false, loader) else readTries read left (x86DiskReset loader)

/-- `num_sectors` is cut to eight bits by the call of `x86_disk_read`. -/
def diskRead (drive : Drive) (lba : Word) (numSectors : BitVec 16) (storageAddress : Word)
    (headsPerCylinder sectorsPerTrack : Byte) (loader : Loader) : Option (Bool × Loader) := do
  let (segment, offset) := linearToSegmentOffset storageAddress
  let (cylinder, head, sector) ← lbaToChs lba headsPerCylinder sectorsPerTrack
  some (readTries (x86DiskRead drive sector (numSectors.setWidth 8) cylinder head segment offset) numTries loader)

/-! Addresses. -/

theorem linearToSegmentOffset_linear {address : Word} (low : address.toNat < 0x100000) :
    (linearToSegmentOffset address).1.toNat * 16 + (linearToSegmentOffset address).2.toNat = address.toNat := by
  have mask : (address &&& 0x0F).toNat = address.toNat % 16 := by
    rw [BitVec.toNat_and]
    exact Nat.and_two_pow_sub_one_eq_mod _ 4
  simp only [linearToSegmentOffset, BitVec.toNat_setWidth, BitVec.toNat_ushiftRight, mask, Nat.shiftRight_eq_div_pow]
  omega

/-- The three coordinates lead back to the sector, as long as they fit their bytes. -/
theorem lbaToChs_sector {lba : Word} {heads sectors : Byte} (someHead : 0 < heads.toNat)
    (someSector : 0 < sectors.toNat) (track : sectors.toNat ≤ 63)
    (below : lba.toNat < 256 * (heads.toNat * sectors.toNat)) :
    ∃ cylinder head sector, lbaToChs lba heads sectors = some (cylinder, head, sector) ∧
      head.toNat < heads.toNat ∧ 1 ≤ sector.toNat ∧ sector.toNat ≤ sectors.toNat ∧
      (cylinder.toNat * heads.toNat + head.toNat) * sectors.toNat + (sector.toNat - 1) = lba.toNat := by
  have product : 0 < heads.toNat * sectors.toNat := Nat.mul_pos someHead someSector
  have headLt := heads.isLt
  have headMod := Nat.mod_lt (lba.toNat / sectors.toNat) someHead
  have sectorMod := Nat.mod_lt lba.toNat someSector
  have cylinderLt : lba.toNat / (heads.toNat * sectors.toNat) < 256 :=
    Nat.div_lt_of_lt_mul (by rwa [Nat.mul_comm])
  have headLt' : lba.toNat / sectors.toNat % heads.toNat < 256 := Nat.lt_trans headMod headLt
  have sectorLt : lba.toNat % sectors.toNat + 1 < 256 := by omega
  refine ⟨_, _, _, if_neg (Nat.ne_of_gt product), ?_⟩
  rw [BitVec.toNat_ofNat, BitVec.toNat_ofNat, BitVec.toNat_ofNat, Nat.mod_eq_of_lt cylinderLt,
    Nat.mod_eq_of_lt headLt', Nat.mod_eq_of_lt sectorLt]
  refine ⟨headMod, Nat.succ_pos _, sectorMod, ?_⟩
  have cylinder : lba.toNat / (heads.toNat * sectors.toNat) * heads.toNat +
      lba.toNat / sectors.toNat % heads.toNat = lba.toNat / sectors.toNat := by
    rw [Nat.mul_comm heads.toNat, ← Nat.div_div_eq_div_mul, Nat.mul_comm]
    exact Nat.div_add_mod _ _
  rw [cylinder, Nat.mul_comm, Nat.add_sub_cancel]
  exact Nat.div_add_mod _ _

/-! Retrying. -/

def AllTriesFail (fails : Nat → Bool) (first : Nat) : Prop := ∀ attempt < numTries, fails (first + attempt) = true

instance (fails : Nat → Bool) (first : Nat) : Decidable (AllTriesFail fails first) :=
  inferInstanceAs (Decidable (∀ attempt < numTries, _))

/-- The number of the request that follows the tries begun with `first`. -/
def afterTries (fails : Nat → Bool) (first : Nat) : Nat :=
  if fails first = false then first + 1 else if fails (first + 1) = false then first + 2 else first + 3

theorem allTriesFail_iff {fails : Nat → Bool} {first : Nat} :
    AllTriesFail fails first ↔ fails first = true ∧ fails (first + 1) = true ∧ fails (first + 2) = true := by
  constructor
  · intro failed
    exact ⟨failed 0 (by decide), failed 1 (by decide), failed 2 (by decide)⟩
  · intro ⟨one, two, three⟩ attempt inside
    rw [numTries] at inside
    match attempt, inside with
    | 0, _ => exact one
    | 1, _ => exact two
    | 2, _ => exact three

variable {drive : Drive} {request : Request} {loader : Loader}

theorem int13_failed (failed : drive.fails loader.issued.length = true) :
    int13 drive request loader = (true, ⟨loader.memory, request :: loader.issued⟩) := by
  simp only [int13, failed, if_true]

theorem int13_done (done : drive.fails loader.issued.length = false) :
    int13 drive request loader =
      (false, ⟨copyIn drive (request.firstSector drive * bytesPerDiskSector) request.linearAddress
        (request.count.toNat * bytesPerDiskSector) loader.memory, request :: loader.issued⟩) := by
  simp only [int13, done, Bool.false_eq_true, if_false]

theorem readTries_failed {read : Loader → Bool × Loader} {left : Nat} {next : Loader}
    (failed : read loader = (true, next)) : readTries read (left + 1) loader = readTries read left next := by
  rw [readTries, failed]
  rfl

theorem readTries_done {read : Loader → Bool × Loader} {left : Nat} {next : Loader}
    (done : read loader = (false, next)) : readTries read (left + 1) loader = (false, next) := by
  rw [readTries, done]
  rfl

/-- The loop reports an error exactly when all its tries failed; the first try
that succeeds has copied the sectors. -/
theorem readTries_spec (drive : Drive) (request : Request) (loader : Loader) :
    ∃ after, readTries (int13 drive request) numTries loader =
        (decide (AllTriesFail drive.fails loader.issued.length), after) ∧
      after.issued.length = afterTries drive.fails loader.issued.length ∧
      after.memory = if AllTriesFail drive.fails loader.issued.length then loader.memory
        else copyIn drive (request.firstSector drive * bytesPerDiskSector) request.linearAddress
          (request.count.toNat * bytesPerDiskSector) loader.memory := by
  simp only [allTriesFail_iff, afterTries, numTries]
  cases first : drive.fails loader.issued.length with
  | false =>
      rw [readTries_done (int13_done first)]
      exact ⟨_, rfl, rfl, rfl⟩
  | true =>
      rw [readTries_failed (int13_failed first)]
      cases second : drive.fails (loader.issued.length + 1) with
      | false =>
          rw [readTries_done (int13_done second)]
          exact ⟨_, rfl, rfl, rfl⟩
      | true =>
          rw [readTries_failed (int13_failed second)]
          cases third : drive.fails (loader.issued.length + 2) with
          | false =>
              rw [readTries_done (int13_done third)]
              exact ⟨_, rfl, rfl, rfl⟩
          | true =>
              rw [readTries_failed (int13_failed third)]
              exact ⟨_, rfl, rfl, rfl⟩

theorem copyIn_none (drive : Drive) (source target : Nat) (memory : ByteMemory) :
    copyIn drive source target 0 memory = memory := by
  funext address
  rw [copyIn, if_neg (by omega)]

theorem diskRead_fault {lba : Word} {numSectors : BitVec 16} {storageAddress : Word} {heads sectors : Byte}
    (fault : heads.toNat * sectors.toNat = 0) :
    diskRead drive lba numSectors storageAddress heads sectors loader = none := by
  simp only [diskRead, lbaToChs, if_pos fault]
  rfl

/-- `disk_read` of any sector: where it copies to is what is left of the address. -/
theorem diskRead_copies {lba : Word} {numSectors : BitVec 16} {storageAddress : Word} {heads sectors : Byte}
    (faultless : heads.toNat * sectors.toNat ≠ 0) :
    ∃ source after, diskRead drive lba numSectors storageAddress heads sectors loader =
        some (decide (AllTriesFail drive.fails loader.issued.length), after) ∧
      after.issued.length = afterTries drive.fails loader.issued.length ∧
      after.memory = if AllTriesFail drive.fails loader.issued.length then loader.memory
        else copyIn drive source
          ((linearToSegmentOffset storageAddress).1.toNat * 16 + (linearToSegmentOffset storageAddress).2.toNat)
          ((numSectors.setWidth 8).toNat * bytesPerDiskSector) loader.memory := by
  obtain ⟨after, run, issued, memory⟩ := readTries_spec drive ⟨_, _, _, numSectors.setWidth 8, _, _⟩ loader
  refine ⟨_, after, ?_, issued, memory⟩
  rw [diskRead, lbaToChs, if_neg faultless]
  exact congrArg some run

/-- `disk_read` for sectors the coordinates can name and an address the segment
can reach. -/
theorem diskRead_spec {lba : Word} {numSectors : BitVec 16} {storageAddress : Word} {heads sectors : Byte}
    (headsEq : heads.toNat = drive.heads) (sectorsEq : sectors.toNat = drive.sectors) (someHead : 0 < drive.heads)
    (someSector : 0 < drive.sectors) (track : drive.sectors ≤ 63) (fewSectors : numSectors.toNat < 256)
    (below : ∀ sector < numSectors.toNat, lba.toNat + sector < 256 * (drive.heads * drive.sectors))
    (low : storageAddress.toNat + numSectors.toNat * bytesPerDiskSector ≤ 0x100000) :
    ∃ after, diskRead drive lba numSectors storageAddress heads sectors loader =
        some (decide (AllTriesFail drive.fails loader.issued.length), after) ∧
      after.issued.length = afterTries drive.fails loader.issued.length ∧
      after.memory = if AllTriesFail drive.fails loader.issued.length then loader.memory
        else copyIn drive (lba.toNat * bytesPerDiskSector) storageAddress.toNat
          (numSectors.toNat * bytesPerDiskSector) loader.memory := by
  have count : (numSectors.setWidth 8).toNat = numSectors.toNat := by
    rw [BitVec.toNat_setWidth]
    omega
  have faultless : ¬ heads.toNat * sectors.toNat = 0 := by
    rw [headsEq, sectorsEq]
    exact Nat.ne_of_gt (Nat.mul_pos someHead someSector)
  by_cases none : numSectors.toNat = 0
  · -- Nothing is copied, wherever the coordinates point.
    obtain ⟨source, after, run, issued, memory⟩ := @diskRead_copies drive loader lba numSectors storageAddress _ _
      faultless
    refine ⟨after, run, issued, ?_⟩
    rw [memory, count, none, Nat.zero_mul, copyIn_none, copyIn_none]
  · have inside := below 0 (by omega)
    rw [← headsEq, ← sectorsEq, Nat.add_zero] at inside
    obtain ⟨cylinder, head, sector, chs, _, first, _, place⟩ :=
      lbaToChs_sector (by omega) (by omega) (by omega) inside
    have linear := @linearToSegmentOffset_linear storageAddress (by unfold bytesPerDiskSector at low; omega)
    obtain ⟨after, run, issued, memory⟩ := readTries_spec drive ⟨cylinder, head, sector, numSectors.setWidth 8,
      (linearToSegmentOffset storageAddress).1, (linearToSegmentOffset storageAddress).2⟩ loader
    refine ⟨after, ?_, issued, ?_⟩
    · rw [diskRead, chs]
      exact congrArg some run
    · rw [headsEq, sectorsEq, ← Nat.add_sub_assoc first] at place
      rw [memory, Request.firstSector, Request.linearAddress, linear, count]
      simp only [place]

end Boot

end ScratchOs
