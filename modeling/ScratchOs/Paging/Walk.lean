import ScratchOs.Pmm.Bitmap

namespace ScratchOs

open Data

/-! Page tables and the hardware walk.

Entries, indices and flags are those of `kernel/paging.h`. The processor walks
two levels from `cr3`; the kernel runs as supervisor with write protection and
large pages off, so only the present bits decide. Stale translations are left to
`Paging.Cached`.
-/

def ptePresent : Word := 0x01
def pdePresent : Word := 0x01
def pdeReadWrite : Word := 0x02

def setAddr (entry addr : Word) : Word := (entry &&& ~~~ 0xFFFFF000) ||| (addr &&& 0xFFFFF000)
def getAddr (entry : Word) : Word := entry &&& 0xFFFFF000
def setFlag (entry flag : Word) : Word := entry ||| flag
def testFlag (entry flag : Word) : Bool := entry &&& flag != 0

def getPageDirIndex (virtualAddr : Word) : Word := (virtualAddr >>> 22) &&& 0x3FF
def getPageTableIndex (virtualAddr : Word) : Word := (virtualAddr >>> 12) &&& 0x3FF

def entryAddress (table index : Word) : Word := table + index * 4

theorem and_mask_toNat (word : Word) {bits : Nat} (fits : bits ≤ 32) :
    (word &&& BitVec.ofNat 32 (2 ^ bits - 1)).toNat = word.toNat % 2 ^ bits := by
  have room : 2 ^ bits ≤ 2 ^ 32 := Nat.pow_le_pow_right (by decide) fits
  have positive := Nat.two_pow_pos bits
  rw [BitVec.toNat_and, BitVec.toNat_ofNat, Nat.mod_eq_of_lt (by omega), Nat.and_two_pow_sub_one_eq_mod]

theorem frameMask_getLsbD : ∀ bit < 32, (0xFFFFF000 : Word).getLsbD bit = decide (12 ≤ bit) := by decide

theorem getAddr_toNat (entry : Word) : (getAddr entry).toNat = entry.toNat / 4096 * 4096 := by
  have shifts : getAddr entry = (entry >>> 12) <<< 12 := by
    apply BitVec.eq_of_getLsbD_eq
    intro bit inside
    rw [getAddr, BitVec.getLsbD_and, frameMask_getLsbD bit inside, BitVec.getLsbD_shiftLeft,
      BitVec.getLsbD_ushiftRight]
    by_cases high : 12 ≤ bit
    · simp [high, inside, Nat.not_lt.mpr high, Nat.add_sub_cancel' high]
    · simp [high, inside, Nat.lt_of_not_le high]
  rw [shifts, BitVec.toNat_shiftLeft, BitVec.toNat_ushiftRight, Nat.shiftLeft_eq, Nat.shiftRight_eq_div_pow]
  omega

theorem offset_toNat (address : Word) : (address &&& 0xFFF).toNat = address.toNat % 4096 :=
  and_mask_toNat address (show 12 ≤ 32 by decide)

theorem getPageDirIndex_toNat (virtualAddr : Word) :
    (getPageDirIndex virtualAddr).toNat = virtualAddr.toNat / 4194304 := by
  have mask := and_mask_toNat (virtualAddr >>> 22) (show 10 ≤ 32 by decide)
  unfold getPageDirIndex
  rw [show (0x3FF : Word) = BitVec.ofNat 32 (2 ^ 10 - 1) from rfl, mask, BitVec.toNat_ushiftRight,
    Nat.shiftRight_eq_div_pow]
  omega

theorem getPageTableIndex_toNat (virtualAddr : Word) :
    (getPageTableIndex virtualAddr).toNat = virtualAddr.toNat / 4096 % 1024 := by
  have mask := and_mask_toNat (virtualAddr >>> 12) (show 10 ≤ 32 by decide)
  have shift := BitVec.toNat_ushiftRight virtualAddr 12
  rw [Nat.shiftRight_eq_div_pow] at shift
  unfold getPageTableIndex
  rw [show (0x3FF : Word) = BitVec.ofNat 32 (2 ^ 10 - 1) from rfl, mask]
  omega

/-! Entries as the code builds them. -/

theorem getAddr_of_aligned {addr : Word} (aligned : addr.toNat % 4096 = 0) : getAddr addr = addr := by
  apply BitVec.eq_of_toNat_eq
  rw [getAddr_toNat]
  omega

theorem getAddr_mod (entry : Word) : (getAddr entry).toNat % 4096 = 0 := by
  rw [getAddr_toNat]
  omega

theorem setAddr_zero (addr : Word) : setAddr 0 addr = getAddr addr := by
  simp [setAddr, getAddr]

theorem getLsbD_of_lt {flags : Word} (small : flags.toNat < 4096) {bit : Nat} (high : 12 ≤ bit) :
    flags.getLsbD bit = false := by
  rw [← BitVec.testBit_toNat]
  exact Nat.testBit_lt_two_pow (Nat.lt_of_lt_of_le small (Nat.pow_le_pow_right Nat.two_pos high))

/-- Flags below the frame bits do not disturb the address. -/
theorem getAddr_setFlag {addr flags : Word} (small : flags.toNat < 4096) :
    getAddr (setFlag (getAddr addr) flags) = getAddr addr := by
  apply BitVec.eq_of_getLsbD_eq
  intro bit inside
  simp only [getAddr, setFlag, BitVec.getLsbD_and, BitVec.getLsbD_or, frameMask_getLsbD bit inside]
  by_cases high : 12 ≤ bit
  · simp [high, getLsbD_of_lt small high]
  · simp [high]

theorem flagMask_getLsbD : ∀ bit < 32, (0xFFF : Word).getLsbD bit = decide (bit < 12) := by decide

theorem flags_setFlag {addr flags : Word} (small : flags.toNat < 4096) :
    setFlag (getAddr addr) flags &&& 0xFFF = flags := by
  apply BitVec.eq_of_getLsbD_eq
  intro bit inside
  simp only [getAddr, setFlag, BitVec.getLsbD_and, BitVec.getLsbD_or, frameMask_getLsbD bit inside,
    flagMask_getLsbD bit inside]
  by_cases high : 12 ≤ bit
  · simp [getLsbD_of_lt small high, Nat.not_lt.mpr high]
  · simp [high, Nat.lt_of_not_le high]

theorem present_flags_lt {flags : Word} (small : flags.toNat < 4096) : (ptePresent ||| flags).toNat < 4096 := by
  rw [BitVec.toNat_or]
  exact Nat.or_lt_two_pow (n := 12) (by decide) small

/-- The present bit is no address bit. -/
theorem getAddr_setFlag_present (addr flags : Word) :
    getAddr (setFlag addr (ptePresent ||| flags)) = getAddr (setFlag addr flags) := by
  have clear : getAddr ptePresent = 0#32 := by decide
  simp only [getAddr, setFlag, BitVec.and_or_distrib_right] at clear ⊢
  rw [clear, BitVec.zero_or]

theorem testFlag_present_eq (entry : Word) : testFlag entry ptePresent = entry.getLsbD 0 := by
  rw [testFlag, show ptePresent = 1#32 from rfl, BitVec.and_one_eq_setWidth_ofBool_getLsbD]
  cases entry.getLsbD 0 <;> rfl

theorem testFlag_setFlag_present (entry flags : Word) :
    testFlag (setFlag entry (ptePresent ||| flags)) ptePresent = true := by
  rw [testFlag_present_eq, setFlag, BitVec.getLsbD_or, BitVec.getLsbD_or,
    show ptePresent.getLsbD 0 = true from rfl, Bool.true_or, Bool.or_true]

theorem testFlag_zero (flag : Word) : testFlag 0 flag = false := by
  simp [testFlag]

/-! The machine and its address translation. -/

/-- Physical memory, the directory the processor uses and the frame bitmap. -/
structure Machine where
  memory : ByteMemory
  cr3 : Word
  pmm : Pmm

namespace Machine

def directory (machine : Machine) : Word := getAddr machine.cr3

def directoryEntry (machine : Machine) (index : Word) : Word :=
  machine.memory.read32 (entryAddress machine.directory index)

def tableEntry (machine : Machine) (pde index : Word) : Word :=
  machine.memory.read32 (entryAddress (getAddr pde) index)

/-- The directory entry and the table entry a page goes through, if both are present. -/
def walk (machine : Machine) (virtualAddr : Word) : Option (Word × Word) :=
  let pde := machine.directoryEntry (getPageDirIndex virtualAddr)
  if testFlag pde pdePresent then
    let pte := machine.tableEntry pde (getPageTableIndex virtualAddr)
    if testFlag pte ptePresent then some (pde, pte) else none
  else none

def translate (machine : Machine) (virtualAddr : Word) : Option Word :=
  (machine.walk virtualAddr).map fun entries => getAddr entries.2 + (virtualAddr &&& 0xFFF)

def load8 (virtualAddr : Word) (machine : Machine) : Option Byte :=
  (machine.translate virtualAddr).map machine.memory

def store8 (virtualAddr : Word) (value : Byte) (machine : Machine) : Option Machine :=
  (machine.translate virtualAddr).map fun place => { machine with memory := machine.memory.write8 place value }

/-- A word may cross into the next page; each byte has its own translation. -/
def load32 (virtualAddr : Word) (machine : Machine) : Option Word := do
  let byte0 ← load8 virtualAddr machine
  let byte1 ← load8 (virtualAddr + 1) machine
  let byte2 ← load8 (virtualAddr + 2) machine
  let byte3 ← load8 (virtualAddr + 3) machine
  some (joinBytes byte0 byte1 byte2 byte3)

/-- All translations are made before the first byte is written. -/
def store32 (virtualAddr value : Word) (machine : Machine) : Option Machine := do
  let place0 ← machine.translate virtualAddr
  let place1 ← machine.translate (virtualAddr + 1)
  let place2 ← machine.translate (virtualAddr + 2)
  let place3 ← machine.translate (virtualAddr + 3)
  some { machine with
    memory := (((machine.memory.write8 place0 (byteOf value 0)).write8 place1 (byteOf value 1)).write8
      place2 (byteOf value 2)).write8 place3 (byteOf value 3) }

/-- `memset` of `utils/memtools.c`: byte after byte through the translation. -/
def memset (virtualAddr : Word) (value : Byte) : Nat → Machine → Option Machine
  | 0, machine => some machine
  | count + 1, machine => do
      let machine ← store8 virtualAddr value machine
      memset (virtualAddr + 1) value count machine

def allocBlock (machine : Machine) : Word × Machine :=
  (machine.pmm.allocBlock.1, { machine with pmm := machine.pmm.allocBlock.2 })

def freeBlock (address : Word) (machine : Machine) : Machine :=
  { machine with pmm := machine.pmm.freeBlock address }

variable {machine : Machine} {virtualAddr place value : Word}

theorem load32_of_translate (lanes : ∀ lane : Nat, lane < 4 →
    machine.translate (virtualAddr + BitVec.ofNat 32 lane) = some (place + BitVec.ofNat 32 lane)) :
    load32 virtualAddr machine = some (machine.memory.read32 place) := by
  have lane0 := lanes 0 (by decide)
  have lane1 := lanes 1 (by decide)
  have lane2 := lanes 2 (by decide)
  have lane3 := lanes 3 (by decide)
  rw [show BitVec.ofNat 32 0 = 0#32 from rfl, BitVec.add_zero, BitVec.add_zero] at lane0
  simp only [load32, load8, lane0, show machine.translate (virtualAddr + 1) = _ from lane1,
    show machine.translate (virtualAddr + 2) = _ from lane2,
    show machine.translate (virtualAddr + 3) = _ from lane3, Option.map_some, Option.bind_eq_bind,
    Option.bind_some]
  rfl

theorem store32_of_translate (lanes : ∀ lane : Nat, lane < 4 →
    machine.translate (virtualAddr + BitVec.ofNat 32 lane) = some (place + BitVec.ofNat 32 lane)) :
    store32 virtualAddr value machine =
      some { machine with memory := machine.memory.write32 place value } := by
  have lane0 := lanes 0 (by decide)
  have lane1 := lanes 1 (by decide)
  have lane2 := lanes 2 (by decide)
  have lane3 := lanes 3 (by decide)
  rw [show BitVec.ofNat 32 0 = 0#32 from rfl, BitVec.add_zero, BitVec.add_zero] at lane0
  simp only [store32, lane0, show machine.translate (virtualAddr + 1) = _ from lane1,
    show machine.translate (virtualAddr + 2) = _ from lane2,
    show machine.translate (virtualAddr + 3) = _ from lane3, Option.bind_eq_bind, Option.bind_some]
  rfl

end Machine

end ScratchOs
