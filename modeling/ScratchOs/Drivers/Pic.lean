import ScratchOs.Machine.Pic8259

namespace ScratchOs

open Data Pic8259

/-! `drivers/pic.c`. The functions that only write are the writes they make, one
after the other, as other things happen in between. -/

namespace Pic

def pic1Command : BitVec 16 := 0x20
def pic1Data : BitVec 16 := 0x21
def pic2Command : BitVec 16 := 0xA0
def pic2Data : BitVec 16 := 0xA1

def picEoi : Byte := 0x20
def icw1Icw4 : Byte := 0x01
def icw1Init : Byte := 0x10
def icw4On8086 : Byte := 0x01

structure PortWrite where
  port : BitVec 16
  value : Byte
deriving DecidableEq, Repr

/-- The chips behind their four ports. Writes to other ports are not for them. -/
def out (write : PortWrite) (pair : Pair) : Pair :=
  if write.port = pic1Command then { pair with master := pair.master.writeCommand write.value }
  else if write.port = pic1Data then { pair with master := pair.master.writeData write.value }
  else if write.port = pic2Command then { pair with slave := pair.slave.writeCommand write.value }
  else if write.port = pic2Data then { pair with slave := pair.slave.writeData write.value }
  else pair

def outAll (writes : List PortWrite) (pair : Pair) : Pair := writes.foldl (fun pair write => out write pair) pair

def ioWait : PortWrite := ⟨0x80, 0⟩

def picSendEoi (irq : Byte) : List PortWrite :=
  if 8 ≤ irq.toNat then [⟨pic2Command, picEoi⟩, ⟨pic1Command, picEoi⟩] else [⟨pic1Command, picEoi⟩]

/-- The offsets are cut to a byte by the port writes. -/
def picRemap (offset1 offset2 : Word) : List PortWrite :=
  [⟨pic1Command, icw1Init ||| icw1Icw4⟩, ioWait,
    ⟨pic2Command, icw1Init ||| icw1Icw4⟩, ioWait,
    ⟨pic1Data, offset1.setWidth 8⟩, ioWait,
    ⟨pic2Data, offset2.setWidth 8⟩, ioWait,
    ⟨pic1Data, 4⟩, ioWait,
    ⟨pic2Data, 2⟩, ioWait,
    ⟨pic1Data, icw4On8086⟩, ioWait,
    ⟨pic2Data, icw4On8086⟩, ioWait,
    ⟨pic1Data, 0⟩,
    ⟨pic2Data, 0⟩]

/-- A read of a data port gives the mask. -/
def maskAt (port : BitVec 16) (pair : Pair) : Byte := if port = pic1Data then pair.master.mask else pair.slave.mask

/-- The port and the line there. -/
def maskLine (irqLine : Byte) : BitVec 16 × Byte := if irqLine.toNat < 8 then (pic1Data, irqLine) else (pic2Data, irqLine - 8)

/-- `1 << IRQline`, an `int`, cut to a byte. -/
def maskBit (line : Byte) : Byte := (1#32 <<< line.toNat).setWidth 8

def irqSetMask (irqLine : Byte) (pair : Pair) : Pair :=
  let (port, line) := maskLine irqLine
  out ⟨port, maskAt port pair ||| maskBit line⟩ pair

def irqClearMask (irqLine : Byte) (pair : Pair) : Pair :=
  let (port, line) := maskLine irqLine
  out ⟨port, maskAt port pair &&& ~~~maskBit line⟩ pair

variable {pair other : Pair} {write : PortWrite} {writes : List PortWrite}

/-- Both chips but for their requests. -/
def registers (pair : Pair) : Pair := ⟨pair.master.registers, pair.slave.registers⟩

theorem registers_out (write : PortWrite) (pair : Pair) : registers (out write pair) = registers (out write (registers pair)) := by
  simp only [out]
  split_ifs
  · exact congrArg (Pair.mk · _) (Chip.registers_writeCommand write.value pair.master)
  · exact congrArg (Pair.mk · _) (Chip.registers_writeData write.value pair.master)
  · exact congrArg (Pair.mk _ ·) (Chip.registers_writeCommand write.value pair.slave)
  · exact congrArg (Pair.mk _ ·) (Chip.registers_writeData write.value pair.slave)
  · rfl

/-- Devices do not change what the writes do. -/
theorem registers_out_congr (same : registers pair = registers other) : registers (out write pair) = registers (out write other) := by
  rw [registers_out, same, ← registers_out]

theorem registers_outAll_congr (same : registers pair = registers other) :
    registers (outAll writes pair) = registers (outAll writes other) := by
  induction writes generalizing pair other with
  | nil => exact same
  | cons write writes ih => exact ih (registers_out_congr same)

/-- What `PIC_remap` makes of the two chips. -/
def remapped (offset1 offset2 : Word) : Pair where
  master := ⟨.mask, false, true, offset1.setWidth 8 &&& 0xF8, 4, icw4On8086, 0, 0, 0⟩
  slave := ⟨.mask, false, true, offset2.setWidth 8 &&& 0xF8, 2, icw4On8086, 0, 0, 0⟩

/-- Whatever the chips were in the middle of. -/
theorem registers_picRemap (offset1 offset2 : Word) (pair : Pair) :
    registers (outAll (picRemap offset1 offset2) pair) = remapped offset1 offset2 := rfl

end Pic

end ScratchOs
