import Mathlib.Tactic.Ring
import ScratchOs.Boot.Disk

namespace ScratchOs.Boot

open Data

/-! The geometry `int 13h, AH=08h` reports, and what is left of a sector number
once its coordinates are bytes. -/

/-- The registers the firmware returns its answer in. -/
structure ParamRegisters where
  bl : Byte
  ch : Byte
  cl : Byte
  dh : Byte

/-- The part of `DISK` that `x86_get_disk_params` fills in. -/
structure DiskParams where
  driveType : Byte
  cylinders : BitVec 16
  sectorsPerTrack : BitVec 16
  headsPerCylinder : BitVec 16

/-- Bits 6 and 7 of `CL` are the high bits of the last cylinder. -/
def x86GetDiskParams (registers : ParamRegisters) : DiskParams where
  driveType := registers.bl
  cylinders := (((registers.cl >>> 6).setWidth 16 <<< 8) ||| registers.ch.setWidth 16) + 1
  sectorsPerTrack := (registers.cl &&& 0x3f).setWidth 16
  headsPerCylinder := registers.dh.setWidth 16 + 1

namespace DiskParams

def numSectors (params : DiskParams) : Nat :=
  params.cylinders.toNat * (params.headsPerCylinder.toNat * params.sectorsPerTrack.toNat)

/-- The call in `disk_read`, whose parameters cut heads and sectors to bytes. -/
def chs (params : DiskParams) (lba : Word) : Option (Byte × Byte × Byte) :=
  lbaToChs lba (params.headsPerCylinder.setWidth 8) (params.sectorsPerTrack.setWidth 8)

/-- The conversion does not fault, and its result names the sector. -/
def Names (params : DiskParams) (lba : Word) : Prop :=
  ∃ cylinder head sector, params.chs lba = some (cylinder, head, sector) ∧
    head.toNat < params.headsPerCylinder.toNat ∧ 1 ≤ sector.toNat ∧ sector.toNat ≤ params.sectorsPerTrack.toNat ∧
    (cylinder.toNat * params.headsPerCylinder.toNat + head.toNat) * params.sectorsPerTrack.toNat +
      (sector.toNat - 1) = lba.toNat

end DiskParams

variable {registers : ParamRegisters} {params : DiskParams} {lba left right : Word}

/-- The range of what is reported: 1 to 1024 cylinders, 1 to 256 heads and at
most 63 sectors. -/
theorem x86GetDiskParams_bounds (registers : ParamRegisters) :
    1 ≤ (x86GetDiskParams registers).cylinders.toNat ∧ (x86GetDiskParams registers).cylinders.toNat ≤ 1024 ∧
    1 ≤ (x86GetDiskParams registers).headsPerCylinder.toNat ∧
    (x86GetDiskParams registers).headsPerCylinder.toNat ≤ 256 ∧
    (x86GetDiskParams registers).sectorsPerTrack.toNat ≤ 63 := by
  have chLt := registers.ch.isLt
  have clLt := registers.cl.isLt
  have dhLt := registers.dh.isLt
  have high : (registers.cl >>> 6).toNat = registers.cl.toNat / 64 := by
    rw [BitVec.toNat_ushiftRight, Nat.shiftRight_eq_div_pow]
  have shifted : (((registers.cl >>> 6).setWidth 16 : BitVec 16) <<< 8).toNat = (registers.cl.toNat / 64) <<< 8 := by
    rw [BitVec.toNat_shiftLeft, BitVec.toNat_setWidth, high, Nat.shiftLeft_eq, Nat.shiftLeft_eq]
    omega
  have low : (registers.ch.setWidth 16 : BitVec 16).toNat = registers.ch.toNat := by
    rw [BitVec.toNat_setWidth]
    omega
  have cylinders : (x86GetDiskParams registers).cylinders.toNat =
      registers.cl.toNat / 64 * 256 + registers.ch.toNat + 1 := by
    rw [x86GetDiskParams, BitVec.toNat_add, BitVec.toNat_or, shifted, low, ← Nat.shiftLeft_add_eq_or_of_lt chLt,
      Nat.shiftLeft_eq]
    refine Nat.mod_eq_of_lt ?_
    change registers.cl.toNat / 64 * 2 ^ 8 + registers.ch.toNat + 1 < 2 ^ 16
    omega
  have heads : (x86GetDiskParams registers).headsPerCylinder.toNat = registers.dh.toNat + 1 := by
    rw [x86GetDiskParams, BitVec.toNat_add, BitVec.toNat_setWidth,
      Nat.mod_eq_of_lt (show registers.dh.toNat < 2 ^ 16 by omega)]
    refine Nat.mod_eq_of_lt ?_
    change registers.dh.toNat + 1 < 2 ^ 16
    omega
  have sectors : (x86GetDiskParams registers).sectorsPerTrack.toNat = registers.cl.toNat % 64 := by
    have mask : (registers.cl &&& 0x3f).toNat = registers.cl.toNat % 64 := by
      rw [BitVec.toNat_and]
      exact Nat.and_two_pow_sub_one_eq_mod _ 6
    rw [x86GetDiskParams, BitVec.toNat_setWidth, mask]
    omega
  omega

theorem DiskParams.Names.eq (first : params.Names left) (second : params.Names right)
    (same : params.chs left = params.chs right) : left = right := by
  obtain ⟨cylinder, head, sector, run, _, _, _, place⟩ := first
  obtain ⟨_, _, _, again, _, _, _, otherPlace⟩ := second
  cases run.symm.trans (same.trans again)
  exact BitVec.eq_of_toNat_eq (place.symm.trans otherPlace)

/-- Coordinates of bytes reach 256 cylinders, however many there are. -/
theorem DiskParams.Names.below (names : params.Names lba) :
    lba.toNat < 256 * (params.headsPerCylinder.toNat * params.sectorsPerTrack.toNat) := by
  obtain ⟨cylinder, head, sector, _, headLt, first, last, place⟩ := names
  rw [← place]
  calc (cylinder.toNat * params.headsPerCylinder.toNat + head.toNat) * params.sectorsPerTrack.toNat +
        (sector.toNat - 1)
      < (cylinder.toNat * params.headsPerCylinder.toNat + head.toNat) * params.sectorsPerTrack.toNat +
        params.sectorsPerTrack.toNat := by omega
    _ = (cylinder.toNat * params.headsPerCylinder.toNat + (head.toNat + 1)) * params.sectorsPerTrack.toNat := by ring
    _ ≤ (cylinder.toNat * params.headsPerCylinder.toNat + params.headsPerCylinder.toNat) *
        params.sectorsPerTrack.toNat := Nat.mul_le_mul_right _ (Nat.add_le_add_left headLt _)
    _ = (cylinder.toNat + 1) * (params.headsPerCylinder.toNat * params.sectorsPerTrack.toNat) := by ring
    _ ≤ 256 * (params.headsPerCylinder.toNat * params.sectorsPerTrack.toNat) :=
        Nat.mul_le_mul_right _ cylinder.isLt

/-- 256 heads are 0 in a byte, and the conversion divides by them. -/
theorem DiskParams.Names.fewHeads (names : params.Names lba) (bound : params.headsPerCylinder.toNat ≤ 256) :
    params.headsPerCylinder.toNat ≤ 255 := by
  obtain ⟨cylinder, head, sector, run, _⟩ := names
  by_contra many
  have all : params.headsPerCylinder.toNat = 256 := by omega
  have zero : (params.headsPerCylinder.setWidth 8).toNat = 0 := by
    rw [BitVec.toNat_setWidth, all]
  rw [chs, lbaToChs, zero, Nat.zero_mul, if_pos rfl] at run
  cases run

theorem DiskParams.names_of_fits (someHead : 1 ≤ params.headsPerCylinder.toNat)
    (fewHeads : params.headsPerCylinder.toNat ≤ 255) (someSector : 1 ≤ params.sectorsPerTrack.toNat)
    (track : params.sectorsPerTrack.toNat ≤ 63)
    (below : lba.toNat < 256 * (params.headsPerCylinder.toNat * params.sectorsPerTrack.toNat)) :
    params.Names lba := by
  have heads : (params.headsPerCylinder.setWidth 8).toNat = params.headsPerCylinder.toNat := by
    rw [BitVec.toNat_setWidth]
    omega
  have sectors : (params.sectorsPerTrack.setWidth 8).toNat = params.sectorsPerTrack.toNat := by
    rw [BitVec.toNat_setWidth]
    omega
  have found := @lbaToChs_sector lba (params.headsPerCylinder.setWidth 8) (params.sectorsPerTrack.setWidth 8)
    (by omega) (by omega) (by omega) (by rwa [heads, sectors])
  rw [heads, sectors] at found
  exact found

/-- Geometry with up to 1024 cylinders and 256 heads is reported in 16 bits and
used in 8: the conversion is right for a sector exactly when the heads fit a
byte and its cylinder does. -/
theorem lbaToChs_names_iff (registers : ParamRegisters) (someSector : registers.cl &&& 0x3f ≠ 0) :
    let params := x86GetDiskParams registers
    (∀ lba : Word, lba.toNat < params.numSectors →
      (params.Names lba ↔ params.headsPerCylinder.toNat ≤ 255 ∧
        lba.toNat < 256 * (params.headsPerCylinder.toNat * params.sectorsPerTrack.toNat))) ∧
    ((∀ lba : Word, lba.toNat < params.numSectors → params.Names lba) ↔
      params.headsPerCylinder.toNat ≤ 255 ∧ params.cylinders.toNat ≤ 256) ∧
    (params.headsPerCylinder.toNat ≤ 255 ∧ params.cylinders.toNat ≤ 256 →
      ∀ left right : Word, left.toNat < params.numSectors → right.toNat < params.numSectors →
        params.chs left = params.chs right → left = right) := by
  intro params
  obtain ⟨someCylinder, fewCylinders, someHead, fewHeads, track⟩ := x86GetDiskParams_bounds registers
  change 1 ≤ params.cylinders.toNat at someCylinder
  change params.cylinders.toNat ≤ 1024 at fewCylinders
  change 1 ≤ params.headsPerCylinder.toNat at someHead
  change params.headsPerCylinder.toNat ≤ 256 at fewHeads
  change params.sectorsPerTrack.toNat ≤ 63 at track
  have sector : 1 ≤ params.sectorsPerTrack.toNat := by
    refine Nat.pos_of_ne_zero fun zero => someSector (BitVec.eq_of_toNat_eq ?_)
    change ((registers.cl &&& 0x3f).setWidth 16 : BitVec 16).toNat = 0 at zero
    have small := (registers.cl &&& 0x3f).isLt
    rw [BitVec.toNat_setWidth, Nat.mod_eq_of_lt (by omega)] at zero
    exact zero
  have pointwise : ∀ lba : Word, params.Names lba ↔ params.headsPerCylinder.toNat ≤ 255 ∧
      lba.toNat < 256 * (params.headsPerCylinder.toNat * params.sectorsPerTrack.toNat) := fun lba =>
    ⟨fun names => ⟨names.fewHeads fewHeads, names.below⟩, fun ⟨few, below⟩ =>
      DiskParams.names_of_fits someHead few sector track below⟩
  have whole : (∀ lba : Word, lba.toNat < params.numSectors → params.Names lba) ↔
      params.headsPerCylinder.toNat ≤ 255 ∧ params.cylinders.toNat ≤ 256 := by
    have track : 0 < params.headsPerCylinder.toNat * params.sectorsPerTrack.toNat := Nat.mul_pos someHead sector
    constructor
    · intro all
      refine ⟨?_, ?_⟩
      · exact ((pointwise 0).mp (all 0 (Nat.mul_pos someCylinder track))).1
      · by_contra many
        -- The first sector of cylinder 256.
        have bound : params.headsPerCylinder.toNat * params.sectorsPerTrack.toNat ≤ 256 * 63 :=
          Nat.mul_le_mul fewHeads (by omega)
        have value : (BitVec.ofNat 32 (256 * (params.headsPerCylinder.toNat * params.sectorsPerTrack.toNat))).toNat =
            256 * (params.headsPerCylinder.toNat * params.sectorsPerTrack.toNat) := by
          rw [BitVec.toNat_ofNat, Nat.mod_eq_of_lt (by omega)]
        have names := all (BitVec.ofNat 32 (256 * (params.headsPerCylinder.toNat * params.sectorsPerTrack.toNat)))
          (by rw [value]; exact Nat.mul_lt_mul_of_pos_right (Nat.not_le.mp many) track)
        have below := names.below
        rw [value] at below
        exact Nat.lt_irrefl _ below
    · rintro ⟨few, narrow⟩ lba inside
      exact (pointwise lba).mpr ⟨few, Nat.lt_of_lt_of_le inside (Nat.mul_le_mul_right _ narrow)⟩
  refine ⟨fun lba _ => pointwise lba, whole, fun fits left right leftInside rightInside same => ?_⟩
  exact (whole.mpr fits left leftInside).eq (whole.mpr fits right rightInside) same

/-- A drive with 256 heads: the head count the loader divides by is 0. -/
theorem manyHeads_fault : ¬ ∀ lba : Word, lba.toNat < (x86GetDiskParams ⟨0, 79, 18, 255⟩).numSectors →
    (x86GetDiskParams ⟨0, 79, 18, 255⟩).Names lba := by
  intro all
  obtain ⟨_, _, _, run, _⟩ := all 0 (by decide)
  have fault : (x86GetDiskParams ⟨0, 79, 18, 255⟩).chs 0 = none := by decide
  cases fault.symm.trans run

theorem lbaToChs_names_iff_floppy : (x86GetDiskParams ⟨4, 79, 18, 1⟩).Names 2879 :=
  ((lbaToChs_names_iff ⟨4, 79, 18, 1⟩ (by decide)).1 2879 (by decide)).mpr ⟨by decide, by decide⟩

end ScratchOs.Boot
