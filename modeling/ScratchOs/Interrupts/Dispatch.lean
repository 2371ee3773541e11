import ScratchOs.Drivers.Pic
import ScratchOs.Interrupts.Vectors

namespace ScratchOs

open Data X86 Pic8259

/-! From a device to its handler and back: `kernel/isr.c`, `kernel/irq.c` and
`kernel/hal.c` on a processor with two 8259A in front of it.

Kernel code is the list of what it still has to do. Devices, the processor's way
into a handler and the code itself take turns in any order. -/

namespace Irq

def pic1Offset : Word := 0x20
def pic2Offset : Word := pic1Offset + 8
def totalHardwareInterrupts : Nat := 16
def totalTrapInterrupts : Nat := 32

/-- What a handler does to memory. -/
abbrev Handler := ByteMemory → ByteMemory

inductive Op where
  | out (write : Pic.PortWrite)
  | interruptFlag (value : Bool)
  | loadIdt
  | isrInitialize
  | setIsrHandler (interrupt : Byte) (handler : Word)
  | setIrqHandler (irqLine : Nat) (handler : Handler)
  | irqHandler (irq : Nat)
  | isrHandler (handler : Word)
  | work (change : Handler)
  | print
  | panic
  | iret

/-- Where the processor is: in the program, on its way into a handler with the
request seen and with its first acknowledge cycle done, or in a handler. -/
inductive Place where
  | program
  | recognised
  | chosen (line : Option Nat)
  | handling (left : List Op)
  | panicked
  | fault

/-- The interrupt flag is the program's; handlers run with interrupts disabled.
The two lists keep the vectors that were delivered and the lines that
`IRQ_common_handler` was called for, the latest first. -/
structure System where
  pics : Pair
  memory : ByteMemory
  idtr : Option Idtr
  interruptFlag : Bool
  place : Place
  program : List Op
  gIrqHandlers : Nat → Option Handler
  delivered : List Byte
  called : List Nat

/-- The kernel's image, and the address of `IRQ_common_handler` in it. -/
structure Kernel where
  image : Idt.Image
  irqCommonHandler : Word

variable (kernel : Kernel)

/-- Behind the driver's handler, or the message that there is none, comes the end of interrupt. -/
def irqCommonHandler (interrupt : Byte) : List Op :=
  let irq := interrupt.setWidth 32 - pic1Offset
  .irqHandler irq.toNat :: (Pic.picSendEoi (irq.setWidth 8)).map .out

def callIsrHandler (handler : Word) (interrupt : Byte) : List Op :=
  if handler = kernel.irqCommonHandler then irqCommonHandler interrupt else [.isrHandler handler]

def isrCommonHandler (memory : ByteMemory) (interrupt : Byte) : List Op :=
  let handler := memory.read32 (kernel.image.handlerPlace interrupt)
  if handler ≠ 0 then callIsrHandler kernel handler interrupt
  else if totalTrapInterrupts ≤ interrupt.toNat then [.print]
  else [.print, .panic]

def irqInitialize : List Op :=
  (Pic.picRemap pic1Offset pic2Offset).map .out ++
    (List.range totalHardwareInterrupts).map (fun i => .setIsrHandler (pic1Offset.setWidth 8 + BitVec.ofNat 8 i) kernel.irqCommonHandler) ++
    [.interruptFlag true]

/-- Mode command, then the two halves of the divisor with interrupts disabled. -/
def timerPitInit (divisor : Word) : List Op :=
  [.out ⟨0x43, 0x36⟩, .interruptFlag false, .out ⟨0x40, divisor.setWidth 8⟩, .out ⟨0x40, (divisor >>> 8).setWidth 8⟩,
    .interruptFlag true]

def pitFreq : Word := 1193180
def timerFreq : Word := 100

def timerInitialize (clearTicks timerHandler : Handler) : List Op :=
  [.work clearTicks, .setIrqHandler 0 timerHandler] ++ timerPitInit (pitFreq / timerFreq)

def keyboardInitialize (keyboardHandler : Handler) : List Op := [.setIrqHandler 1 keyboardHandler]

def halInitialize (clearTicks timerHandler keyboardHandler : Handler) : List Op :=
  [.loadIdt, .isrInitialize] ++ irqInitialize kernel ++ timerInitialize clearTicks timerHandler ++
    keyboardInitialize keyboardHandler

/-- A gate that is there and clears the interrupt flag. -/
def opensHandler (gate : Gate) : Bool := gate.present && gate.flags &&& 0x1F == 0x0E

/-- The processor goes through the gate and the stub into `ISR_common_handler`. -/
def enter (interrupt : Byte) (system : System) : System :=
  match system.idtr.bind (fun idtr => idtr.gate system.memory interrupt) with
  | none => { system with place := .fault }
  | some gate =>
      if opensHandler gate then
        { system with
          place := .handling (isrCommonHandler kernel system.memory interrupt ++ [.iret])
          delivered := interrupt :: system.delivered }
      else { system with place := .fault }

def perform (op : Op) (system : System) : System :=
  match op with
  | .out write => { system with pics := Pic.out write system.pics }
  | .interruptFlag value => { system with interruptFlag := value }
  | .loadIdt => { system with idtr := some kernel.image.gIdtDescriptor }
  | .isrInitialize => { system with memory := Idt.isrInitialize kernel.image system.memory }
  | .setIsrHandler interrupt handler =>
      { system with memory := Idt.setIsrHandler kernel.image interrupt handler system.memory }
  | .setIrqHandler irqLine handler =>
      { system with gIrqHandlers := Function.update system.gIrqHandlers irqLine (some handler) }
  | .irqHandler irq =>
      { system with
        memory := (system.gIrqHandlers irq).elim system.memory fun handler => handler system.memory
        called := irq :: system.called }
  | .isrHandler _ => system
  | .work change => { system with memory := change system.memory }
  | .print => system
  | .panic => { system with place := .panicked }
  | .iret => { system with place := .program }

inductive Actor where
  | program
  | interrupt
  | raise (line : Nat)
  | withdraw (line : Nat)
deriving DecidableEq

/-- The program's next operation. -/
def programStep (system : System) : System :=
  match system.place, system.program with
  | .program, op :: rest => perform kernel op { system with program := rest }
  | _, _ => system

/-- The processor notices the request, does its two acknowledge cycles and goes
through the handler. -/
def interruptStep (system : System) : System :=
  match system.place with
  | .program => if system.interruptFlag && system.pics.intr then { system with place := .recognised } else system
  | .recognised => { system with pics := system.pics.firstCycle.2, place := .chosen system.pics.firstCycle.1 }
  | .chosen line => enter kernel (system.pics.secondCycle line).1 { system with pics := (system.pics.secondCycle line).2 }
  | .handling (op :: rest) => perform kernel op { system with place := .handling rest }
  | _ => system

/-- Line 2 of the first controller has no device. -/
def HasDevice (line : Nat) : Prop := line < 16 ∧ line ≠ 2

instance (line : Nat) : Decidable (HasDevice line) := inferInstanceAs (Decidable (_ ∧ _))

def step : Actor → System → System
  | .program, system => programStep kernel system
  | .interrupt, system => interruptStep kernel system
  | .raise line, system => if HasDevice line then { system with pics := system.pics.raise line } else system
  | .withdraw line, system => if HasDevice line then { system with pics := system.pics.withdraw line } else system

def run (schedule : List Actor) (system : System) : System :=
  schedule.foldl (fun system actor => step kernel actor system) system

end Irq

end ScratchOs
