import ScratchOs.Data.WordStack

namespace ScratchOs.X86

open Data

/-! The part of a 32-bit x86 processor that interrupt entry code uses: the general
registers and the selectors, the stack, and instructions one after another. The
status flags that `xor` and `add` set are left out, as no instruction here reads
them; `eip` stays what it was, the place in the list of instructions being enough. -/

inductive Reg where
  | eax | ecx | edx | ebx | esp | ebp | esi | edi
deriving DecidableEq, Repr

inductive Seg where
  | cs | ds | es | fs | gs | ss
deriving DecidableEq, Repr

structure Cpu where
  reg : Reg → Word
  seg : Seg → BitVec 16
  eip : Word
  eflags : Word
  memory : ByteMemory

namespace Cpu

def setReg (target : Reg) (value : Word) (cpu : Cpu) : Cpu := { cpu with reg := Function.update cpu.reg target value }

def setSeg (target : Seg) (value : BitVec 16) (cpu : Cpu) : Cpu := { cpu with seg := Function.update cpu.seg target value }

def push (value : Word) (cpu : Cpu) : Cpu :=
  let esp := cpu.reg .esp - 4
  { cpu.setReg .esp esp with memory := cpu.memory.write32 esp value }

def pop (target : Reg) (cpu : Cpu) : Cpu :=
  let esp := cpu.reg .esp
  (cpu.setReg .esp (esp + 4)).setReg target (cpu.memory.read32 esp)

/-- `esp` is pushed as it was before. -/
def pusha (cpu : Cpu) : Cpu :=
  let esp := cpu.reg .esp
  let cpu := (((cpu.push (cpu.reg .eax)).push (cpu.reg .ecx)).push (cpu.reg .edx)).push (cpu.reg .ebx)
  (((cpu.push esp).push (cpu.reg .ebp)).push (cpu.reg .esi)).push (cpu.reg .edi)

/-- The word pushed for `esp` is skipped. -/
def popa (cpu : Cpu) : Cpu :=
  let cpu := ((cpu.pop .edi).pop .esi).pop .ebp
  let cpu := cpu.setReg .esp (cpu.reg .esp + 4)
  (((cpu.pop .ebx).pop .edx).pop .ecx).pop .eax

/-- The return to code of the same privilege. -/
def iret (cpu : Cpu) : Cpu :=
  let esp := cpu.reg .esp
  { cpu.setReg .esp (esp + 12) with
    eip := cpu.memory.read32 esp
    seg := Function.update cpu.seg .cs ((cpu.memory.read32 (esp + 4)).setWidth 16)
    eflags := cpu.memory.read32 (esp + 8) }

/-- The words the processor pushes for every interrupt, and its error code if there is one. -/
def pushContext (error : Option Word) (cpu : Cpu) : Cpu :=
  let cpu := ((cpu.push cpu.eflags).push ((cpu.seg .cs).setWidth 32)).push cpu.eip
  match error with
  | none => cpu
  | some code => cpu.push code

/-- The way to a handler of the same privilege through an interrupt gate: TF, IF,
NT, RF and VM are cleared behind what has been pushed. -/
def interrupt (selector : BitVec 16) (error : Option Word) (cpu : Cpu) : Cpu :=
  { (cpu.pushContext error).setSeg .cs selector with eflags := cpu.eflags &&& ~~~0x34300 }

end Cpu

inductive Instr where
  | pushImm (value : Word)
  | pushReg (source : Reg)
  | popReg (target : Reg)
  | pusha
  | popa
  | xor (target source : Reg)
  | addImm (target : Reg) (value : Word)
  | movAxSeg (source : Seg)
  | movAxImm (value : BitVec 16)
  | movSegAx (target : Seg)
  | call
  | iret
deriving DecidableEq, Repr

/-- The processor, and the states in which the function of the `call`s was entered. -/
structure Run where
  cpu : Cpu
  calls : List Cpu

/-- `mov ax, value`. The upper half of `eax` stays. -/
def Cpu.setAx (value : BitVec 16) (cpu : Cpu) : Cpu :=
  cpu.setReg .eax ((cpu.reg .eax).extractLsb' 16 16 ++ value)

def Cpu.ax (cpu : Cpu) : BitVec 16 := (cpu.reg .eax).setWidth 16

def exec (callee : Cpu → Cpu) (returnAddress : Word) (run : Run) : Instr → Run
  | .pushImm value => { run with cpu := run.cpu.push value }
  | .pushReg source => { run with cpu := run.cpu.push (run.cpu.reg source) }
  | .popReg target => { run with cpu := run.cpu.pop target }
  | .pusha => { run with cpu := run.cpu.pusha }
  | .popa => { run with cpu := run.cpu.popa }
  | .xor target source => { run with cpu := run.cpu.setReg target (run.cpu.reg target ^^^ run.cpu.reg source) }
  | .addImm target value => { run with cpu := run.cpu.setReg target (run.cpu.reg target + value) }
  | .movAxSeg source => { run with cpu := run.cpu.setAx (run.cpu.seg source) }
  | .movAxImm value => { run with cpu := run.cpu.setAx value }
  | .movSegAx target => { run with cpu := run.cpu.setSeg target run.cpu.ax }
  | .call =>
      let entered := run.cpu.push returnAddress
      ⟨callee entered, run.calls ++ [entered]⟩
  | .iret => { run with cpu := run.cpu.iret }

def execAll (callee : Cpu → Cpu) (returnAddress : Word) (program : List Instr) (run : Run) : Run :=
  program.foldl (exec callee returnAddress) run

theorem execAll_append (callee : Cpu → Cpu) (returnAddress : Word) (first second : List Instr) (run : Run) :
    execAll callee returnAddress (first ++ second) run =
      execAll callee returnAddress second (execAll callee returnAddress first run) := List.foldl_append ..

namespace Cpu

variable {cpu : Cpu} {target other : Reg} {value : Word} {values : List Word}

@[simp] theorem setReg_self : (cpu.setReg target value).reg target = value := Function.update_self ..

theorem setReg_of_ne (different : other ≠ target) : (cpu.setReg target value).reg other = cpu.reg other :=
  Function.update_of_ne different ..

@[simp] theorem setReg_seg : (cpu.setReg target value).seg = cpu.seg := rfl

@[simp] theorem setReg_memory : (cpu.setReg target value).memory = cpu.memory := rfl

@[simp] theorem push_esp : (cpu.push value).reg .esp = cpu.reg .esp - 4 :=
  @setReg_self cpu .esp (cpu.reg .esp - 4)

theorem push_reg (different : other ≠ .esp) : (cpu.push value).reg other = cpu.reg other :=
  @setReg_of_ne cpu .esp other (cpu.reg .esp - 4) different

@[simp] theorem push_seg : (cpu.push value).seg = cpu.seg := rfl

@[simp] theorem push_eip : (cpu.push value).eip = cpu.eip := rfl

theorem setAx_of_ne {selector : BitVec 16} (different : other ≠ .eax) : (cpu.setAx selector).reg other = cpu.reg other :=
  setReg_of_ne different

theorem setAx_zero {selector : BitVec 16} (cleared : cpu.reg .eax = 0) :
    (cpu.setAx selector).reg .eax = selector.setWidth 32 := by
  have small : selector.toNat < 2 ^ 32 := Nat.lt_trans selector.isLt (by decide)
  rw [setAx, setReg_self, cleared]
  apply BitVec.eq_of_toNat_eq
  rw [BitVec.toNat_setWidth, Nat.mod_eq_of_lt small]
  exact (BitVec.toNat_append ..).trans (Nat.zero_or _)

theorem ax_eq {selector : BitVec 16} (extended : cpu.reg .eax = selector.setWidth 32) : cpu.ax = selector := by
  rw [ax, extended, BitVec.setWidth_setWidth_of_le _ (by decide), BitVec.setWidth_eq]

/-- The words on the stack, the last one pushed first. -/
def Stacks (cpu : Cpu) (values : List Word) : Prop := cpu.memory.HoldsWords (cpu.reg .esp) values

theorem Stacks.push (stacked : cpu.Stacks values) (few : values.length < 2 ^ 30 - 1) (value : Word) :
    (cpu.push value).Stacks (value :: values) := by
  rw [Stacks, push_esp]
  exact ByteMemory.HoldsWords.push stacked few value

/-- The words of `pusha`, from `edi` up to `eax`. -/
def saved (cpu : Cpu) : List Word :=
  [cpu.reg .edi, cpu.reg .esi, cpu.reg .ebp, cpu.reg .esp, cpu.reg .ebx, cpu.reg .edx, cpu.reg .ecx, cpu.reg .eax]

theorem Stacks.pusha (stacked : cpu.Stacks values) (few : values.length < 2 ^ 30 - 8) :
    cpu.pusha.Stacks (cpu.saved ++ values) := by
  have four := (((stacked.push (by omega) (cpu.reg .eax)).push (by simp; omega) (cpu.reg .ecx)).push
    (by simp; omega) (cpu.reg .edx)).push (by simp; omega) (cpu.reg .ebx)
  exact (((four.push (by simp; omega) (cpu.reg .esp)).push (by simp; omega) (cpu.reg .ebp)).push
    (by simp; omega) (cpu.reg .esi)).push (by simp; omega) (cpu.reg .edi)

theorem pusha_esp : cpu.pusha.reg .esp = cpu.reg .esp - 32 := by
  simp only [pusha, push_esp]
  bv_omega

@[simp] theorem pusha_seg : cpu.pusha.seg = cpu.seg := rfl

@[simp] theorem pop_self : (cpu.pop target).reg target = cpu.memory.read32 (cpu.reg .esp) := Function.update_self ..

theorem pop_esp (general : target ≠ .esp) : (cpu.pop target).reg .esp = cpu.reg .esp + 4 := by
  rw [pop, setReg_of_ne general.symm, setReg_self]

theorem pop_reg (apart : other ≠ target) (different : other ≠ .esp) : (cpu.pop target).reg other = cpu.reg other := by
  rw [pop, setReg_of_ne apart, setReg_of_ne different]

@[simp] theorem pop_seg : (cpu.pop target).seg = cpu.seg := rfl

theorem Stacks.top (stacked : cpu.Stacks (value :: values)) : cpu.memory.read32 (cpu.reg .esp) = value := by
  have word := stacked 0 value rfl
  rwa [Nat.mul_zero, BitVec.add_zero] at word

theorem Stacks.pop (stacked : cpu.Stacks (value :: values)) (general : target ≠ .esp) : (cpu.pop target).Stacks values := by
  rw [Stacks, pop_esp general]
  exact @ByteMemory.HoldsWords.drop _ _ [value] _ stacked

theorem Stacks.setReg (stacked : cpu.Stacks values) (general : target ≠ .esp) : (cpu.setReg target value).Stacks values := by
  rwa [Stacks, setReg_of_ne general.symm]

theorem Stacks.setAx (stacked : cpu.Stacks values) (selector : BitVec 16) : (cpu.setAx selector).Stacks values :=
  stacked.setReg (by decide)

/-- Taking words off without looking at them. -/
theorem Stacks.release {back : List Word} (stacked : cpu.Stacks (values ++ back)) :
    (cpu.setReg .esp (cpu.reg .esp + BitVec.ofNat 32 (4 * values.length))).Stacks back := by
  rw [Stacks, setReg_self]
  exact ByteMemory.HoldsWords.drop stacked

/-- `popa` takes back what `pusha` has saved, but for `esp`. -/
theorem Stacks.popa {before : Cpu} (stacked : cpu.Stacks (before.saved ++ values)) :
    cpu.popa.Stacks values ∧ cpu.popa.reg .esp = cpu.reg .esp + 32 ∧
      ∀ other ≠ .esp, cpu.popa.reg other = before.reg other := by
  have edi : (cpu.pop .edi).Stacks _ := stacked.pop (by decide)
  have esi : ((cpu.pop .edi).pop .esi).Stacks _ := edi.pop (by decide)
  have ebp : (((cpu.pop .edi).pop .esi).pop .ebp).Stacks _ := esi.pop (by decide)
  have skipped := @Stacks.release _ [before.reg .esp] _ ebp
  have ebx := @Stacks.pop _ .ebx _ _ skipped (by decide)
  have edx := @Stacks.pop _ .edx _ _ ebx (by decide)
  have ecx := @Stacks.pop _ .ecx _ _ edx (by decide)
  refine ⟨ecx.pop (by decide), ?_, ?_⟩
  · simp only [Cpu.popa, ne_eq, reduceCtorEq, not_false_eq_true, pop_esp, setReg_self]
    bv_omega
  · -- Every register is left alone by the `pop`s behind its own.
    intro other general
    cases other <;>
      simp only [Cpu.popa, pop_reg, setReg_of_ne, ne_eq, reduceCtorEq, not_false_eq_true]
    case esp => exact absurd rfl general
    case edi => exact pop_self.trans stacked.top
    case esi => exact pop_self.trans edi.top
    case ebp => exact pop_self.trans esi.top
    case ebx => exact pop_self.trans skipped.top
    case edx => exact pop_self.trans ebx.top
    case ecx => exact pop_self.trans edx.top
    case eax => exact pop_self.trans ecx.top

@[simp] theorem popa_seg : cpu.popa.seg = cpu.seg := rfl

theorem iret_reg (general : other ≠ .esp) : cpu.iret.reg other = cpu.reg other :=
  @setReg_of_ne cpu .esp other (cpu.reg .esp + 12) general

theorem iret_esp : cpu.iret.reg .esp = cpu.reg .esp + 12 := @setReg_self cpu .esp (cpu.reg .esp + 12)

theorem Stacks.iret {eip cs eflags : Word} (stacked : cpu.Stacks (eip :: cs :: eflags :: values)) :
    cpu.iret.eip = eip ∧ cpu.iret.seg = Function.update cpu.seg .cs (cs.setWidth 16) ∧ cpu.iret.eflags = eflags := by
  refine ⟨stacked.top, ?_, stacked 2 eflags rfl⟩
  rw [← stacked 1 cs rfl]
  rfl

/-- What is on the stack of a handler, and what is not changed on the way to it. -/
theorem interrupt_stacks (selector : BitVec 16) (error : Option Word) (cpu : Cpu) :
    (cpu.interrupt selector error).Stacks (error.toList ++ [cpu.eip, (cpu.seg .cs).setWidth 32, cpu.eflags]) := by
  have empty : cpu.Stacks [] := ByteMemory.HoldsWords.nil cpu.memory (cpu.reg .esp)
  have context := ((empty.push (by simp) cpu.eflags).push (by simp) ((cpu.seg .cs).setWidth 32)).push (by simp) cpu.eip
  cases error with
  | none => exact context
  | some code => exact context.push (by simp) code

theorem interrupt_reg (selector : BitVec 16) (error : Option Word) (general : other ≠ .esp) :
    (cpu.interrupt selector error).reg other = cpu.reg other := by
  change (cpu.pushContext error).reg other = cpu.reg other
  cases error <;> simp only [pushContext, push_reg general]

theorem interrupt_esp (selector : BitVec 16) (error : Option Word) :
    (cpu.interrupt selector error).reg .esp = cpu.reg .esp - BitVec.ofNat 32 (4 * (error.toList.length + 3)) := by
  change (cpu.pushContext error).reg .esp = _
  cases error <;> simp only [pushContext, push_esp, Option.toList, List.length_cons, List.length_nil] <;> bv_omega

theorem interrupt_seg (selector : BitVec 16) (error : Option Word) :
    (cpu.interrupt selector error).seg = Function.update cpu.seg .cs selector := by
  cases error <;> rfl

/-- All data segments are the selector's. -/
def setData (selector : BitVec 16) (cpu : Cpu) : Cpu :=
  { cpu with
    seg := fun
      | .cs => cpu.seg .cs
      | .ss => cpu.seg .ss
      | .ds | .es | .fs | .gs => selector }

theorem execAll_setData (callee : Cpu → Cpu) (returnAddress : Word) (cpu : Cpu) (calls : List Cpu) :
    execAll callee returnAddress [.movSegAx .ds, .movSegAx .es, .movSegAx .fs, .movSegAx .gs] ⟨cpu, calls⟩ =
      ⟨cpu.setData cpu.ax, calls⟩ := by
  simp only [execAll, List.foldl_cons, List.foldl_nil, exec, setSeg, setData, ax, Run.mk.injEq, Cpu.mk.injEq, true_and, and_true]
  funext segment
  cases segment <;> rfl

end Cpu

end ScratchOs.X86
