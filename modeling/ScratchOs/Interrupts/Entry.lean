import ScratchOs.Machine.X86

namespace ScratchOs

open Data X86

/-! The way into `ISR_common_handler` and back: `kernel/isr_entry.asm`, with the stubs
that `scripts/interrupts.py` makes for the 256 vectors. -/

namespace Isr

def interruptsWithError : List Byte := [8, 10, 11, 12, 13, 14, 17]

/-- `CODE_SEGMENT` and `DATA_SEGMENT`. -/
def codeSegment : BitVec 16 := 0x08
def dataSegment : BitVec 16 := 0x10

def isrNoErrorCode (interrupt : Byte) : List Instr := [.pushImm 0, .pushImm (interrupt.setWidth 32)]

def isrErrorCode (interrupt : Byte) : List Instr := [.pushImm (interrupt.setWidth 32)]

def defineAssemblyInterrupt (interrupt : Byte) : List Instr :=
  if interruptsWithError.contains interrupt then isrErrorCode interrupt else isrNoErrorCode interrupt

def isrCommon : List Instr :=
  [.pusha,
    .xor .eax .eax, .movAxSeg .ds, .pushReg .eax,
    .movAxImm dataSegment, .movSegAx .ds, .movSegAx .es, .movSegAx .fs, .movSegAx .gs,
    .pushReg .esp, .call, .addImm .esp 4,
    .popReg .eax, .movSegAx .ds, .movSegAx .es, .movSegAx .fs, .movSegAx .gs,
    .popa, .addImm .esp 8, .iret]

/-- Each stub ends with a jump to `isr_common`. -/
def isr (interrupt : Byte) : List Instr := defineAssemblyInterrupt interrupt ++ isrCommon

/-- `esp` and `ss` are only pushed by an interrupt of less privileged code. -/
structure Registers where
  ds : Word
  edi : Word
  esi : Word
  ebp : Word
  esp2 : Word
  ebx : Word
  edx : Word
  ecx : Word
  eax : Word
  interrupt : Word
  error : Word
  eip : Word
  cs : Word
  eflags : Word
  esp : Word
  ss : Word

def sizeofRegisters : Nat := 64

/-- `*regs`. -/
def Registers.read (memory : ByteMemory) (regs : Word) : Registers where
  ds := memory.read32 regs
  edi := memory.read32 (regs + 4)
  esi := memory.read32 (regs + 8)
  ebp := memory.read32 (regs + 12)
  esp2 := memory.read32 (regs + 16)
  ebx := memory.read32 (regs + 20)
  edx := memory.read32 (regs + 24)
  ecx := memory.read32 (regs + 28)
  eax := memory.read32 (regs + 32)
  interrupt := memory.read32 (regs + 36)
  error := memory.read32 (regs + 40)
  eip := memory.read32 (regs + 44)
  cs := memory.read32 (regs + 48)
  eflags := memory.read32 (regs + 52)
  esp := memory.read32 (regs + 56)
  ss := memory.read32 (regs + 60)

/-- The first argument of a function that has just been called. -/
def argument (entered : Cpu) : Word := entered.memory.read32 (entered.reg .esp + 4)

/-- What is needed of `ISR_common_handler`: it returns as a C function does, with
its return address off the stack, and leaves its `Registers` alone. All other
registers it may change. -/
structure Returns (entered after : Cpu) : Prop where
  esp : after.reg .esp = entered.reg .esp + 4
  stackSegment : after.seg .ss = entered.seg .ss
  registers : ∀ offset < sizeofRegisters,
    after.memory (argument entered + BitVec.ofNat 32 offset) = entered.memory (argument entered + BitVec.ofNat 32 offset)

/-- The interrupted context, as the handler is to find it. -/
structure Describes (registers : Registers) (interrupt : Byte) (error : Option Word) (cpu : Cpu) : Prop where
  ds : registers.ds = (cpu.seg .ds).setWidth 32
  edi : registers.edi = cpu.reg .edi
  esi : registers.esi = cpu.reg .esi
  ebp : registers.ebp = cpu.reg .ebp
  ebx : registers.ebx = cpu.reg .ebx
  edx : registers.edx = cpu.reg .edx
  ecx : registers.ecx = cpu.reg .ecx
  eax : registers.eax = cpu.reg .eax
  interrupt : registers.interrupt = interrupt.setWidth 32
  error : registers.error = error.getD 0
  eip : registers.eip = cpu.eip
  cs : registers.cs = (cpu.seg .cs).setWidth 32
  eflags : registers.eflags = cpu.eflags

/-- What `iret` is to bring back. -/
structure Restored (before after : Cpu) : Prop where
  reg : after.reg = before.reg
  seg : after.seg = before.seg
  eip : after.eip = before.eip
  eflags : after.eflags = before.eflags

/-- Before `isr_common` the vector and an error code are on the stack, whichever
of the two stubs has run. -/
structure AtCommon (interrupt : Byte) (code : Word) (before cpu : Cpu) : Prop where
  stack : cpu.Stacks [interrupt.setWidth 32, code, before.eip, (before.seg .cs).setWidth 32, before.eflags]
  esp : cpu.reg .esp = before.reg .esp - 20
  reg : ∀ general ≠ .esp, cpu.reg general = before.reg general
  seg : ∀ segment ≠ .cs, cpu.seg segment = before.seg segment

/-- The stack frame the handler gets a pointer to. -/
def frame (interrupt : Byte) (code : Word) (before : Cpu) (esp : Word) : List Word :=
  [(before.seg .ds).setWidth 32, before.reg .edi, before.reg .esi, before.reg .ebp, esp, before.reg .ebx, before.reg .edx,
    before.reg .ecx, before.reg .eax, interrupt.setWidth 32, code, before.eip, (before.seg .cs).setWidth 32, before.eflags]

variable {handler : Cpu → Cpu} {returnAddress : Word} {interrupt : Byte} {code : Word} {error : Option Word}
  {before cpu entered after : Cpu} {calls : List Cpu}

theorem atCommon (pushes : error.isSome = true ↔ interrupt ∈ interruptsWithError) (before : Cpu) :
    ∃ cpu, execAll handler returnAddress (defineAssemblyInterrupt interrupt) ⟨before.interrupt codeSegment error, calls⟩ =
      ⟨cpu, calls⟩ ∧ AtCommon interrupt (error.getD 0) before cpu := by
  have stacked := Cpu.interrupt_stacks codeSegment error before
  have esp := @Cpu.interrupt_esp before codeSegment error
  have seg : ∀ segment ≠ .cs, (before.interrupt codeSegment error).seg segment = before.seg segment := by
    intro segment other
    rw [Cpu.interrupt_seg, Function.update_of_ne other]
  cases error with
  | none =>
      have without : ¬ interruptsWithError.contains interrupt = true := fun member =>
        absurd (pushes.mpr (List.contains_iff_mem.mp member)) (by decide)
      rw [defineAssemblyInterrupt, if_neg without]
      refine ⟨((before.interrupt codeSegment none).push 0).push (interrupt.setWidth 32), rfl,
        (stacked.push (by simp) 0).push (by simp) _, ?_, fun general other => ?_, seg⟩
      · rw [Cpu.push_esp, Cpu.push_esp, esp]
        simp only [Option.toList, List.length_nil]
        bv_omega
      · rw [Cpu.push_reg other, Cpu.push_reg other, Cpu.interrupt_reg _ _ other]
  | some code =>
      rw [defineAssemblyInterrupt, if_pos (List.contains_iff_mem.mpr (pushes.mp rfl))]
      refine ⟨(before.interrupt codeSegment (some code)).push (interrupt.setWidth 32), rfl,
        stacked.push (by simp) _, ?_, fun general other => ?_, seg⟩
      · rw [Cpu.push_esp, esp]
        simp only [Option.toList, List.length_cons, List.length_nil]
        bv_omega
      · rw [Cpu.push_reg other, Cpu.interrupt_reg _ _ other]

/-- The code before the call, and the code behind it. -/
def isrEnter : List Instr := isrCommon.take 10
def isrLeave : List Instr := isrCommon.drop 11

/-- At the call the pointer to the frame is on top of it. -/
theorem AtCommon.enter (common : AtCommon interrupt code before cpu) :
    ∃ entered esp, execAll handler returnAddress isrEnter ⟨cpu, calls⟩ = ⟨entered, calls⟩ ∧
      entered.Stacks ((before.reg .esp - 56) :: frame interrupt code before esp) ∧
      entered.reg .esp = before.reg .esp - 60 ∧ entered.seg .ss = before.seg .ss := by
  obtain ⟨stack, esp, reg, seg⟩ := common
  let saved := cpu.pusha
  let cleared := saved.setReg .eax (saved.reg .eax ^^^ saved.reg .eax)
  let selector := cleared.setAx (cleared.seg .ds)
  let framed := selector.push (selector.reg .eax)
  let kernel := framed.setAx dataSegment
  let segments := (((kernel.setSeg .ds kernel.ax).setSeg .es kernel.ax).setSeg .fs kernel.ax).setSeg .gs kernel.ax
  have value : selector.reg .eax = (before.seg .ds).setWidth 32 := by
    rw [Cpu.setAx_zero (Cpu.setReg_self.trans BitVec.xor_self)]
    exact congrArg _ (seg .ds (by decide))
  have registers : cpu.saved = [before.reg .edi, before.reg .esi, before.reg .ebp, before.reg .esp - 20, before.reg .ebx,
      before.reg .edx, before.reg .ecx, before.reg .eax] := by
    rw [Cpu.saved, reg .edi (by decide), reg .esi (by decide), reg .ebp (by decide), esp, reg .ebx (by decide),
      reg .edx (by decide), reg .ecx (by decide), reg .eax (by decide)]
  have stacked : framed.Stacks (frame interrupt code before (before.reg .esp - 20)) := by
    have context := stack.pusha (by simp)
    rw [registers] at context
    have erased : cleared.Stacks _ := context.setReg (by decide)
    have chosen : selector.Stacks _ := erased.setAx (cleared.seg .ds)
    have pushed : framed.Stacks _ := chosen.push (by simp) (selector.reg .eax)
    rw [value] at pushed
    exact pushed
  have top : segments.reg .esp = before.reg .esp - 56 := by
    calc segments.reg .esp = framed.reg .esp := @Cpu.setAx_of_ne framed .esp dataSegment (by decide)
      _ = selector.reg .esp - 4 := Cpu.push_esp
      _ = cleared.reg .esp - 4 := congrArg (· - 4) (@Cpu.setAx_of_ne cleared .esp (cleared.seg .ds) (by decide))
      _ = saved.reg .esp - 4 := congrArg (· - 4) (@Cpu.setReg_of_ne saved .eax .esp (saved.reg .eax ^^^ saved.reg .eax) (by decide))
      _ = before.reg .esp - 56 := by
        rw [Cpu.pusha_esp, esp]
        bv_omega
  refine ⟨segments.push (segments.reg .esp), before.reg .esp - 20, rfl, ?_, ?_, ?_⟩
  · have kept : segments.Stacks (frame interrupt code before (before.reg .esp - 20)) :=
      stacked.setAx dataSegment
    rw [← top]
    exact kept.push (by simp [frame]) _
  · rw [Cpu.push_esp, top]
    bv_omega
  · exact seg .ss (by decide)

/-- Behind the call the frame is taken apart, whatever the registers are. -/
theorem leave {esp : Word} (stacked : (after.setReg .esp (after.reg .esp + 4)).Stacks (frame interrupt code before esp))
    (top : after.reg .esp = before.reg .esp - 60) (stackSegment : after.seg .ss = before.seg .ss)
    (flat : ∀ segment ∈ [Seg.es, .fs, .gs], before.seg segment = before.seg .ds) :
    ∃ final, execAll handler returnAddress isrLeave ⟨after, calls⟩ = ⟨final, calls⟩ ∧ Restored before final := by
  let framed := after.setReg .esp (after.reg .esp + 4)
  let popped := framed.pop .eax
  let segments := popped.setData popped.ax
  let general := segments.popa
  let released := general.setReg .esp (general.reg .esp + 8)
  have selector : popped.ax = before.seg .ds := Cpu.ax_eq (Cpu.pop_self.trans stacked.top)
  have context : segments.Stacks ((before.setReg .esp esp).saved ++
      [interrupt.setWidth 32, code, before.eip, (before.seg .cs).setWidth 32, before.eflags]) :=
    @Cpu.Stacks.pop framed .eax _ _ stacked (by decide)
  obtain ⟨rest, moved, registers⟩ := context.popa
  have bottom : released.Stacks [before.eip, (before.seg .cs).setWidth 32, before.eflags] :=
    @Cpu.Stacks.release general [interrupt.setWidth 32, code] _ rest
  obtain ⟨eip, seg, eflags⟩ := bottom.iret
  have ran : execAll handler returnAddress isrLeave ⟨after, calls⟩ = ⟨released.iret, calls⟩ := by
    have parts : isrLeave = [.addImm .esp 4, .popReg .eax] ++
        ([.movSegAx .ds, .movSegAx .es, .movSegAx .fs, .movSegAx .gs] ++ [.popa, .addImm .esp 8, .iret]) := rfl
    have started : execAll handler returnAddress [.addImm .esp 4, .popReg .eax] ⟨after, calls⟩ = ⟨popped, calls⟩ := rfl
    rw [parts, execAll_append, execAll_append, started, Cpu.execAll_setData]
    rfl
  refine ⟨released.iret, ran, ?_, ?_, eip, eflags⟩
  · funext register
    by_cases pointer : register = .esp
    · rw [pointer, Cpu.iret_esp]
      calc released.reg .esp + 12 = general.reg .esp + 8 + 12 := congrArg (· + 12) Cpu.setReg_self
        _ = segments.reg .esp + 32 + 8 + 12 := by rw [moved]
        _ = framed.reg .esp + 4 + 32 + 8 + 12 := by rw [← Cpu.pop_esp (show Reg.eax ≠ .esp by decide)]; rfl
        _ = before.reg .esp := by
          rw [Cpu.setReg_self, top]
          bv_omega
    · rw [Cpu.iret_reg pointer, Cpu.setReg_of_ne pointer, registers register pointer, Cpu.setReg_of_ne pointer]
  · funext segment
    rw [seg]
    cases segment with
    | cs => exact (Function.update_self ..).trans (by rw [BitVec.setWidth_setWidth_of_le _ (by decide), BitVec.setWidth_eq])
    | ss => exact stackSegment
    | ds => exact selector
    | es => exact selector.trans (flat .es (by decide)).symm
    | fs => exact selector.trans (flat .fs (by decide)).symm
    | gs => exact selector.trans (flat .gs (by decide)).symm

theorem calls_leave : (execAll handler returnAddress isrLeave ⟨after, calls⟩).calls = calls := rfl

theorem describes_frame {memory : ByteMemory} {regs esp : Word}
    (holds : memory.HoldsWords regs (frame interrupt (error.getD 0) before esp)) :
    Describes (Registers.read memory regs) interrupt error before where
  ds := by
    have word := holds 0 _ rfl
    rwa [Nat.mul_zero, BitVec.add_zero] at word
  edi := holds 1 _ rfl
  esi := holds 2 _ rfl
  ebp := holds 3 _ rfl
  ebx := holds 5 _ rfl
  edx := holds 6 _ rfl
  ecx := holds 7 _ rfl
  eax := holds 8 _ rfl
  interrupt := holds 9 _ rfl
  error := holds 10 _ rfl
  eip := holds 11 _ rfl
  cs := holds 12 _ rfl
  eflags := holds 13 _ rfl

/-- An interrupt from the processor's part up to the `iret`. -/
def served (handler : Cpu → Cpu) (returnAddress : Word) (interrupt : Byte) (error : Option Word) (before : Cpu) : Run :=
  execAll handler returnAddress (isr interrupt) ⟨before.interrupt codeSegment error, []⟩

/-- The handler is entered once and finds the interrupted context in its `Registers`;
if it returns as a C function and leaves them alone, the context is restored. -/
theorem isr_transparent (handler : Cpu → Cpu) (returnAddress : Word) (interrupt : Byte) (error : Option Word) (before : Cpu)
    (pushes : error.isSome = true ↔ interrupt ∈ interruptsWithError)
    (flat : ∀ segment ∈ [Seg.es, .fs, .gs], before.seg segment = before.seg .ds)
    (returns : ∀ entered ∈ (served handler returnAddress interrupt error before).calls, Returns entered (handler entered)) :
    ∃ entered, (served handler returnAddress interrupt error before).calls = [entered] ∧
      Describes (Registers.read entered.memory (argument entered)) interrupt error before ∧
      Restored before (served handler returnAddress interrupt error before).cpu := by
  obtain ⟨stubbed, stub, common⟩ := @atCommon handler returnAddress interrupt error [] pushes before
  obtain ⟨top, esp, entering, stacked, address, segment⟩ := @AtCommon.enter handler returnAddress _ _ _ _ [] common
  let entered := top.push returnAddress
  have parts : isr interrupt = defineAssemblyInterrupt interrupt ++ (isrEnter ++ ([.call] ++ isrLeave)) := rfl
  have called : execAll handler returnAddress [.call] ⟨top, []⟩ = ⟨handler entered, [entered]⟩ := rfl
  have ran : served handler returnAddress interrupt error before =
      execAll handler returnAddress isrLeave ⟨handler entered, [entered]⟩ := by
    rw [served, parts, execAll_append, execAll_append, execAll_append, stub, entering, called]
  have words : entered.Stacks (returnAddress :: (before.reg .esp - 56) :: frame interrupt (error.getD 0) before esp) :=
    stacked.push (by simp [frame]) returnAddress
  have pointer : argument entered = before.reg .esp - 56 := words 1 _ rfl
  have place : entered.reg .esp = before.reg .esp - 64 := by
    rw [Cpu.push_esp, address]
    bv_omega
  have holds : entered.memory.HoldsWords (argument entered) (frame interrupt (error.getD 0) before esp) := by
    have behind := @ByteMemory.HoldsWords.drop _ _ [returnAddress, before.reg .esp - 56] _ words
    have shift : entered.reg .esp + BitVec.ofNat 32 (4 * [returnAddress, before.reg .esp - 56].length) = argument entered := by
      rw [place, pointer]
      change before.reg .esp - 64 + 8 = _
      bv_omega
    rwa [shift] at behind
  have once : (served handler returnAddress interrupt error before).calls = [entered] := by
    rw [ran]
    exact calls_leave
  have honest := returns entered (by rw [once]; exact List.mem_singleton_self _)
  have kept : ((handler entered).setReg .esp ((handler entered).reg .esp + 4)).Stacks
      (frame interrupt (error.getD 0) before esp) := by
    have same := holds.congr fun offset inside =>
      honest.registers offset (Nat.lt_trans inside (by simp [frame, sizeofRegisters]))
    have shift : (handler entered).reg .esp + 4 = argument entered := by
      rw [honest.esp, place, pointer]
      bv_omega
    rw [Cpu.Stacks, Cpu.setReg_self, shift]
    exact same
  have returned : (handler entered).reg .esp = before.reg .esp - 60 := by
    rw [honest.esp, place]
    bv_omega
  obtain ⟨final, left, restored⟩ := @leave handler returnAddress interrupt (error.getD 0) before (handler entered) [entered]
    esp kept returned (honest.stackSegment.trans segment) flat
  refine ⟨entered, once, describes_frame holds, ?_⟩
  rw [ran, left]
  exact restored

/-- A context of the kernel's, and a handler that clears `eax`. -/
def someContext : Cpu := ⟨fun _ => 0x1234, fun | .cs => codeSegment | _ => dataSegment, 0x400000, 0x202, fun _ => 0⟩

def clearingHandler (cpu : Cpu) : Cpu := (cpu.setReg .eax 0).setReg .esp (cpu.reg .esp + 4)

theorem isr_transparent_pageFault : Restored someContext (served clearingHandler 0 14 (some 2) someContext).cpu := by
  have returns : ∀ entered, Returns entered (clearingHandler entered) := fun entered =>
    ⟨Cpu.setReg_self, rfl, fun _ _ => rfl⟩
  obtain ⟨_, _, _, restored⟩ := isr_transparent clearingHandler 0 14 (some 2) someContext (by decide) (by decide)
    fun entered _ => returns entered
  exact restored

end Isr

end ScratchOs
