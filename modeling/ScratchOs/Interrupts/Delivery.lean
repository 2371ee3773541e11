import ScratchOs.Interrupts.Dispatch

namespace ScratchOs

open Data X86 Pic8259

/-! Every interrupt reaches `IRQ_common_handler`, and its controller is told when
it is served, in whatever order the program, the processor and the devices take
their turns. -/

namespace Irq

/-- The vector that `IRQ_initialize` gives to a line. -/
def vectorOf (irq : Nat) : Byte := pic1Offset.setWidth 8 + BitVec.ofNat 8 irq

/-- The two controllers as `PIC_remap` leaves them, but for the masks. -/
structure Configured (pics : Pair) : Prop where
  operating : pics.Operating
  master : pics.master.vectors = pic1Offset.setWidth 8
  slave : pics.slave.vectors = pic2Offset.setWidth 8

/-- The tables lead the vectors of all lines to `IRQ_common_handler`. -/
structure TablesReady (kernel : Kernel) (memory : ByteMemory) : Prop where
  gates : ∀ irq < 16, (Idt.Vectors.read kernel.image memory).gates (vectorOf irq) = Idt.gateOf kernel.image (vectorOf irq) true
  handlers : ∀ irq < 16, (Idt.Vectors.read kernel.image memory).handlers (vectorOf irq) = kernel.irqCommonHandler

/-- A change that leaves the tables alone. -/
def Keeps (kernel : Kernel) (change : Handler) : Prop := ∀ memory, Set.EqOn (change memory) memory kernel.image.tables

/-- What code may do behind `HAL_initialize`: anything but to command the controllers,
to take a line's vector for itself and to write over the tables. -/
inductive Permitted (kernel : Kernel) : Op → Prop where
  | out (write : Pic.PortWrite) (master : write.port ≠ Pic.pic1Command) (slave : write.port ≠ Pic.pic2Command) :
      Permitted kernel (.out write)
  | interruptFlag (value : Bool) : Permitted kernel (.interruptFlag value)
  | setIsrHandler (interrupt : Byte) (handler : Word) (own : ∀ irq < 16, vectorOf irq = interrupt → handler = kernel.irqCommonHandler) :
      Permitted kernel (.setIsrHandler interrupt handler)
  | setIrqHandler (irqLine : Nat) (handler : Handler) (keeps : Keeps kernel handler) : Permitted kernel (.setIrqHandler irqLine handler)
  | work (change : Handler) (keeps : Keeps kernel change) : Permitted kernel (.work change)
  | print : Permitted kernel .print

/-- Nothing is in service, and every vector that was delivered has had its handler. -/
structure Between (system : System) : Prop where
  idle : system.pics.Idle
  served : system.delivered = system.called.map vectorOf

/-- How far an interrupt has come. -/
inductive Stage (system : System) : Prop where
  | program (place : system.place = .program) (between : Between system)
  | recognised (place : system.place = .recognised) (between : Between system)
  | gone (place : system.place = .chosen none) (between : Between system)
  | chosen (line : Nat) (place : system.place = .chosen (some line)) (inside : line < 8) (master : system.pics.master.OneEnd)
      (slave : system.pics.slave.Idle) (served : system.delivered = system.called.map vectorOf)
  | entered (irq : Nat) (place : system.place = .handling (irqCommonHandler (vectorOf irq) ++ [.iret])) (inside : irq < 16)
      (ends : (Pic.outAll (Pic.picSendEoi (BitVec.ofNat 8 irq)) system.pics).Idle)
      (served : system.delivered = (irq :: system.called).map vectorOf)
  | ending (writes : List Pic.PortWrite) (place : system.place = .handling (writes.map .out ++ [.iret]))
      (eoi : ∀ write ∈ writes, ∃ port, write = ⟨port, Pic.picEoi⟩) (ends : (Pic.outAll writes system.pics).Idle)
      (served : system.delivered = system.called.map vectorOf)

/-- What holds from the moment interrupts are enabled. -/
structure Running (kernel : Kernel) (system : System) : Prop where
  idtr : system.idtr = some kernel.image.gIdtDescriptor
  tables : TablesReady kernel system.memory
  configured : Configured system.pics
  handlers : ∀ line handler, system.gIrqHandlers line = some handler → Keeps kernel handler
  program : ∀ op ∈ system.program, Permitted kernel op
  called : ∀ irq ∈ system.called, irq < 16
  stage : Stage system

variable {kernel : Kernel} {system : System} {pics other : Pair} {memory : ByteMemory} {irq line : Nat}
  {write : Pic.PortWrite} {writes : List Pic.PortWrite}

/-! The vectors of the lines. -/

theorem vectorOf_toNat (inside : irq < 16) : (vectorOf irq).toNat = 0x20 + irq := by
  rw [vectorOf, BitVec.toNat_add, BitVec.toNat_ofNat]
  change (32 + irq % 256) % 256 = _
  omega

theorem Configured.vector (configured : Configured pics) (inside : irq < 16) : pics.vector irq = vectorOf irq := by
  apply BitVec.eq_of_toNat_eq
  rw [vectorOf_toNat inside, Pair.vector]
  by_cases low : irq < 8
  · rw [if_pos low, Chip.vector_toNat (by rw [configured.master]; decide) low, configured.master]
    rfl
  · rw [if_neg low, Chip.vector_toNat (by rw [configured.slave]; decide) (by omega), configured.slave]
    change 40 + (irq - 8) = 32 + irq
    omega

theorem irqCommonHandler_vectorOf (inside : irq < 16) :
    irqCommonHandler (vectorOf irq) = .irqHandler irq :: (Pic.picSendEoi (BitVec.ofNat 8 irq)).map .out := by
  have back : (vectorOf irq).setWidth 32 - pic1Offset = BitVec.ofNat 32 irq := by
    apply BitVec.eq_of_toNat_eq
    rw [BitVec.toNat_sub, BitVec.toNat_setWidth, vectorOf_toNat inside, BitVec.toNat_ofNat]
    change (2 ^ 32 - 32 + (32 + irq) % 2 ^ 32) % 2 ^ 32 = _
    omega
  have number : (BitVec.ofNat 32 irq).toNat = irq := by
    rw [BitVec.toNat_ofNat, Nat.mod_eq_of_lt (by omega)]
  have short : (BitVec.ofNat 32 irq).setWidth 8 = BitVec.ofNat 8 irq := by
    apply BitVec.eq_of_toNat_eq
    rw [BitVec.toNat_setWidth, number, BitVec.toNat_ofNat]
  simp only [irqCommonHandler, back, number, short]

/-! The controllers. -/

theorem inService_of_registers (same : Pic.registers pics = Pic.registers other) :
    pics.master.inService = other.master.inService ∧ pics.slave.inService = other.slave.inService := by
  have master : pics.master.registers = other.master.registers := congrArg Pair.master same
  have slave : pics.slave.registers = other.slave.registers := congrArg Pair.slave same
  constructor
  · change pics.master.registers.inService = other.master.registers.inService
    rw [master]
  · change pics.slave.registers.inService = other.slave.registers.inService
    rw [slave]

theorem idle_of_registers (same : Pic.registers pics = Pic.registers other) (idle : other.Idle) : pics.Idle :=
  ⟨(inService_of_registers same).1.trans idle.master, (inService_of_registers same).2.trans idle.slave⟩

theorem Configured.of_settings (configured : Configured other) (master : pics.master.settings = other.master.settings)
    (slave : pics.slave.settings = other.slave.settings) : Configured pics where
  operating := configured.operating.congr master slave
  master := by
    have told : pics.master.settings.vectors = other.master.settings.vectors := by rw [master]
    exact told.trans configured.master
  slave := by
    have told : pics.slave.settings.vectors = other.slave.settings.vectors := by rw [slave]
    exact told.trans configured.slave

theorem Configured.of_registers (configured : Configured other) (same : Pic.registers pics = Pic.registers other) : Configured pics := by
  have master : pics.master.registers = other.master.registers := congrArg Pair.master same
  have slave : pics.slave.registers = other.slave.registers := congrArg Pair.slave same
  refine configured.of_settings ?_ ?_
  · change pics.master.registers.settings = other.master.registers.settings
    rw [master]
  · change pics.slave.registers.settings = other.slave.registers.settings
    rw [slave]

/-- Devices change nothing but requests. -/
theorem registers_raise (line : Nat) (pics : Pair) : Pic.registers (pics.raise line) = Pic.registers pics := by
  rw [Pair.raise]
  split_ifs <;> rfl

theorem registers_withdraw (line : Nat) (pics : Pair) : Pic.registers (pics.withdraw line) = Pic.registers pics := by
  rw [Pair.withdraw]
  split_ifs <;> rfl

/-- A write to a data port sets a mask. -/
theorem Configured.out (configured : Configured pics) (master : write.port ≠ Pic.pic1Command) (slave : write.port ≠ Pic.pic2Command) :
    Configured (Pic.out write pics) ∧ (pics.Idle → (Pic.out write pics).Idle) := by
  obtain ⟨operating, masterVectors, slaveVectors⟩ := configured
  obtain ⟨⟨masterDue, masterMode⟩, ⟨slaveDue, slaveMode⟩, cascade, identity⟩ := operating
  rw [Pic.out, if_neg master, if_neg slave]
  split_ifs
  · rw [Chip.writeData_operating ⟨masterDue, masterMode⟩]
    exact ⟨⟨⟨⟨masterDue, masterMode⟩, ⟨slaveDue, slaveMode⟩, cascade, identity⟩, masterVectors, slaveVectors⟩,
      fun idle => ⟨idle.master, idle.slave⟩⟩
  · rw [Chip.writeData_operating ⟨slaveDue, slaveMode⟩]
    exact ⟨⟨⟨⟨masterDue, masterMode⟩, ⟨slaveDue, slaveMode⟩, cascade, identity⟩, masterVectors, slaveVectors⟩,
      fun idle => ⟨idle.master, idle.slave⟩⟩
  · exact ⟨⟨⟨⟨masterDue, masterMode⟩, ⟨slaveDue, slaveMode⟩, cascade, identity⟩, masterVectors, slaveVectors⟩, id⟩

/-- The command for an end of interrupt, wherever it goes. -/
theorem Configured.eoi (configured : Configured pics) (port : BitVec 16) : Configured (Pic.out ⟨port, Pic.picEoi⟩ pics) := by
  by_cases master : port = Pic.pic1Command
  · rw [master]
    exact configured.of_settings rfl rfl
  · by_cases slave : port = Pic.pic2Command
    · rw [slave]
      exact configured.of_settings rfl rfl
    · exact (configured.out master slave).1

theorem picSendEoi_eoi (irq : Byte) : ∀ write ∈ Pic.picSendEoi irq, ∃ port, write = ⟨port, Pic.picEoi⟩ := by
  intro write member
  rw [Pic.picSendEoi] at member
  split_ifs at member
  · rw [List.mem_cons, List.mem_singleton] at member
    obtain here | here := member
    · exact ⟨Pic.pic2Command, here⟩
    · exact ⟨Pic.pic1Command, here⟩
  · exact ⟨Pic.pic1Command, List.mem_singleton.mp member⟩

/-- The ends that `PIC_sendEOI` sends are as many as the line needs. -/
theorem picSendEoi_idle (inside : irq < 16) (master : pics.master.OneEnd) (slave : pics.slave.OneEnd)
    (low : irq < 8 → pics.slave.Idle) : (Pic.outAll (Pic.picSendEoi (BitVec.ofNat 8 irq)) pics).Idle := by
  have number : (BitVec.ofNat 8 irq).toNat = irq := by
    rw [BitVec.toNat_ofNat, Nat.mod_eq_of_lt (by omega)]
  rw [Pic.picSendEoi, number]
  by_cases high : 8 ≤ irq
  · rw [if_pos high]
    exact ⟨master, slave⟩
  · rw [if_neg high]
    exact ⟨master, low (Nat.not_le.mp high)⟩

/-! The tables. -/

theorem TablesReady.congr {after : ByteMemory} (ready : TablesReady kernel memory) (placed : kernel.image.Placed)
    (same : Set.EqOn after memory kernel.image.tables) : TablesReady kernel after := by
  have read := Idt.Vectors.read_congr placed same
  constructor
  · rw [read]
    exact ready.gates
  · rw [read]
    exact ready.handlers

theorem TablesReady.setIsrHandler (ready : TablesReady kernel memory) (placed : kernel.image.Placed) {interrupt : Byte} {handler : Word}
    (own : ∀ irq < 16, vectorOf irq = interrupt → handler = kernel.irqCommonHandler) :
    TablesReady kernel (Idt.setIsrHandler kernel.image interrupt handler memory) := by
  have read := Idt.read_perform placed (.setIsrHandler interrupt handler) memory
  rw [Idt.perform] at read
  constructor
  · intro irq inside
    rw [read, Idt.gates_perform _ (ready.gates irq inside), Idt.Call.present, ite_self]
  · intro irq inside
    rw [read, Idt.handlers_perform, Idt.Call.handler]
    split_ifs with same
    · exact own irq inside same.symm
    · exact ready.handlers irq inside

/-- A delivered vector of a line ends up in `IRQ_common_handler`. -/
theorem enter_vectorOf (present : kernel.irqCommonHandler ≠ 0) (idtr : system.idtr = some kernel.image.gIdtDescriptor)
    (ready : TablesReady kernel system.memory) (inside : irq < 16) : enter kernel (vectorOf irq) system =
      { system with
        place := .handling (irqCommonHandler (vectorOf irq) ++ [.iret])
        delivered := vectorOf irq :: system.delivered } := by
  have found : system.idtr.bind (fun idtr => idtr.gate system.memory (vectorOf irq)) =
      some (Idt.gateOf kernel.image (vectorOf irq) true) := by
    have within : 8 * (vectorOf irq).toNat + 7 ≤ kernel.image.gIdtDescriptor.limit.toNat := by
      have small := (vectorOf irq).isLt
      change 8 * (vectorOf irq).toNat + 7 ≤ 2047
      omega
    rw [idtr]
    exact (if_pos within).trans (congrArg some (ready.gates irq inside))
  have opens : opensHandler (Idt.gateOf kernel.image (vectorOf irq) true) = true := by
    have flags : (Idt.gateOf kernel.image (vectorOf irq) true).flags = 0x8E := rfl
    rw [opensHandler, Gate.present, flags]
    decide
  have handler : isrCommonHandler kernel system.memory (vectorOf irq) = irqCommonHandler (vectorOf irq) := by
    have stored : system.memory.read32 (kernel.image.handlerPlace (vectorOf irq)) = kernel.irqCommonHandler :=
      ready.handlers irq inside
    rw [isrCommonHandler, stored, if_pos present, callIsrHandler, if_pos rfl]
  rw [enter, found]
  simp only [opens, if_true, handler]

/-! One step of each of the four. -/

theorem Stage.place_cases (stage : Stage system) : system.place ≠ .panicked ∧ system.place ≠ .fault := by
  cases stage with
  | program place between => rw [place]; exact ⟨nofun, nofun⟩
  | recognised place between => rw [place]; exact ⟨nofun, nofun⟩
  | gone place between => rw [place]; exact ⟨nofun, nofun⟩
  | chosen line place inside master slave served => rw [place]; exact ⟨nofun, nofun⟩
  | entered irq place inside ends served => rw [place]; exact ⟨nofun, nofun⟩
  | ending writes place eoi ends served => rw [place]; exact ⟨nofun, nofun⟩

theorem Stage.between (stage : Stage system) (place : system.place = .program) : Between system := by
  cases stage with
  | program _ between => exact between
  | recognised other between => exact between
  | gone other between => exact between
  | chosen line other inside master slave served => rw [place] at other; cases other
  | entered irq other inside ends served => rw [place] at other; cases other
  | ending writes other eoi ends served => rw [place] at other; cases other

/-- A device does what it does. -/
theorem Running.devices (running : Running kernel system) (same : Pic.registers pics = Pic.registers system.pics) :
    Running kernel { system with pics := pics } := by
  obtain ⟨idtr, tables, configured, handlers, program, called, stage⟩ := running
  refine ⟨idtr, tables, configured.of_registers same, handlers, program, called, ?_⟩
  have still : system.pics.Idle → pics.Idle := idle_of_registers same
  cases stage with
  | program place between => exact .program place ⟨still between.idle, between.served⟩
  | recognised place between => exact .recognised place ⟨still between.idle, between.served⟩
  | gone place between => exact .gone place ⟨still between.idle, between.served⟩
  | chosen line place inside master slave served =>
      obtain ⟨masterService, slaveService⟩ := inService_of_registers same
      exact .chosen line place inside ((congrArg withoutFirst masterService).trans master) (slaveService.trans slave) served
  | entered irq place inside ends served => exact .entered irq place inside (idle_of_registers (Pic.registers_outAll_congr same) ends) served
  | ending writes place eoi ends served => exact .ending writes place eoi (idle_of_registers (Pic.registers_outAll_congr same) ends) served

/-- The program goes on. -/
theorem Running.programStep (running : Running kernel system) (placed : kernel.image.Placed) : Running kernel (programStep kernel system) := by
  rw [Irq.programStep]
  split
  · rename_i op rest place program
    obtain ⟨idtr, tables, configured, handlers, permitted, called, stage⟩ := running
    have between := stage.between place
    rw [program] at permitted
    have later : ∀ op ∈ rest, Permitted kernel op := fun op member => permitted op (List.mem_cons_of_mem _ member)
    have allowed := permitted op List.mem_cons_self
    cases allowed with
    | out write master slave =>
        have written := configured.out master slave
        exact ⟨idtr, tables, written.1, handlers, later, called, .program place ⟨written.2 between.idle, between.served⟩⟩
    | interruptFlag value => exact ⟨idtr, tables, configured, handlers, later, called, .program place ⟨between.idle, between.served⟩⟩
    | setIsrHandler interrupt handler own =>
        exact ⟨idtr, tables.setIsrHandler placed own, configured, handlers, later, called,
          .program place ⟨between.idle, between.served⟩⟩
    | setIrqHandler irqLine handler keeps =>
        refine ⟨idtr, tables, configured, fun line other set => ?_, later, called, .program place ⟨between.idle, between.served⟩⟩
        change Function.update system.gIrqHandlers irqLine (some handler) line = some other at set
        by_cases same : line = irqLine
        · rw [same, Function.update_self] at set
          exact Option.some.inj set ▸ keeps
        · rw [Function.update_of_ne same] at set
          exact handlers line other set
    | work change keeps =>
        exact ⟨idtr, tables.congr placed (keeps system.memory), configured, handlers, later, called,
          .program place ⟨between.idle, between.served⟩⟩
    | print => exact ⟨idtr, tables, configured, handlers, later, called, .program place ⟨between.idle, between.served⟩⟩
  · exact running

/-- The vector of a line is taken, and the controllers wait for the ends that the line needs. -/
theorem Running.entered (running : Running kernel system) (present : kernel.irqCommonHandler ≠ 0)
    (served : system.delivered = system.called.map vectorOf) (inside : irq < 16) (master : pics.master.settings = system.pics.master.settings)
    (slave : pics.slave.settings = system.pics.slave.settings) (masterEnd : pics.master.OneEnd) (slaveEnd : pics.slave.OneEnd)
    (low : irq < 8 → pics.slave.Idle) : Running kernel (enter kernel (vectorOf irq) { system with pics := pics }) := by
  obtain ⟨idtr, tables, configured, handlers, program, called, _⟩ := running
  have enters := @enter_vectorOf kernel { system with pics := pics } irq present idtr tables inside
  rw [enters]
  exact ⟨idtr, tables, configured.of_settings master slave, handlers, program, called,
    .entered irq rfl inside (picSendEoi_idle inside masterEnd slaveEnd low) (congrArg (vectorOf irq :: ·) served)⟩

/-- The processor goes on with an interrupt. -/
theorem Running.interruptStep (running : Running kernel system) (placed : kernel.image.Placed) (present : kernel.irqCommonHandler ≠ 0) :
    Running kernel (interruptStep kernel system) := by
  have operating := running.configured.operating
  have vector : ∀ irq < 16, system.pics.vector irq = vectorOf irq := fun _ inside => running.configured.vector inside
  cases running.stage with
  | program place between =>
      rw [Irq.interruptStep, place]
      change Running kernel (if system.interruptFlag && system.pics.intr then _ else _)
      obtain ⟨idtr, tables, configured, handlers, program, called, stage⟩ := running
      split_ifs
      · exact ⟨idtr, tables, configured, handlers, program, called, .recognised rfl ⟨between.idle, between.served⟩⟩
      · exact ⟨idtr, tables, configured, handlers, program, called, stage⟩
  | recognised place between =>
      rw [Irq.interruptStep, place]
      obtain ⟨idtr, tables, configured, handlers, program, called, _⟩ := running
      obtain nothing | ⟨line, inside, master, taken, settings, ends⟩ := Pair.firstCycle_spec operating between.idle
      · simp only [nothing]
        exact ⟨idtr, tables, configured, handlers, program, called, .gone rfl ⟨between.idle, between.served⟩⟩
      · simp only [taken]
        exact ⟨idtr, tables, configured.of_settings settings rfl, handlers, program, called,
          .chosen line rfl inside ends between.idle.slave between.served⟩
  | gone place between =>
      rw [Irq.interruptStep, place]
      have answered : system.pics.secondCycle none = (vectorOf 7, system.pics) := by
        rw [← vector 7 (by decide)]
        rfl
      simp only [answered]
      exact running.entered present between.served (by decide) rfl rfl (Chip.oneEnd_of_idle between.idle.master)
        (Chip.oneEnd_of_idle between.idle.slave) fun _ => between.idle.slave
  | chosen line place inside master slave served =>
      rw [Irq.interruptStep, place]
      obtain ⟨irq, small, after, answered, settings, ends, low⟩ := Pair.secondCycle_spec operating slave line inside
      rw [vector irq small] at answered
      simp only [answered]
      exact running.entered present served small rfl settings master ends low
  | entered irq place inside ends served =>
      rw [irqCommonHandler_vectorOf inside] at place
      rw [Irq.interruptStep, place]
      obtain ⟨idtr, tables, configured, handlers, program, called, _⟩ := running
      have next : ∀ other ∈ irq :: system.called, other < 16 := List.forall_mem_cons.mpr ⟨inside, called⟩
      refine ⟨idtr, ?_, configured, handlers, program, next, .ending _ rfl (picSendEoi_eoi _) ends served⟩
      change TablesReady kernel ((system.gIrqHandlers irq).elim system.memory fun handler => handler system.memory)
      cases set : system.gIrqHandlers irq with
      | none => exact tables
      | some handler => exact tables.congr placed (handlers irq handler set system.memory)
  | ending writes place eoi ends served =>
      obtain ⟨idtr, tables, configured, handlers, program, called, _⟩ := running
      cases writes with
      | nil =>
          rw [Irq.interruptStep, place]
          exact ⟨idtr, tables, configured, handlers, program, called, .program rfl ⟨ends, served⟩⟩
      | cons write rest =>
          rw [Irq.interruptStep, place]
          obtain ⟨port, rfl⟩ := eoi write List.mem_cons_self
          exact ⟨idtr, tables, configured.eoi port, handlers, program, called,
            .ending rest rfl (fun other member => eoi other (List.mem_cons_of_mem _ member)) ends served⟩

theorem Running.step (running : Running kernel system) (placed : kernel.image.Placed) (present : kernel.irqCommonHandler ≠ 0)
    (actor : Actor) : Running kernel (step kernel actor system) := by
  cases actor with
  | program => exact running.programStep placed
  | interrupt => exact running.interruptStep placed present
  | raise line =>
      rw [Irq.step]
      split_ifs
      · exact running.devices (registers_raise line system.pics)
      · exact running
  | withdraw line =>
      rw [Irq.step]
      split_ifs
      · exact running.devices (registers_withdraw line system.pics)
      · exact running

/-! `HAL_initialize`, up to where interrupts are enabled. -/

def performAll (kernel : Kernel) (ops : List Op) (system : System) : System := ops.foldl (fun system op => perform kernel op system) system

def setup (kernel : Kernel) : List Op :=
  [.loadIdt, .isrInitialize] ++ (Pic.picRemap pic1Offset pic2Offset).map .out ++
    ((List.range totalHardwareInterrupts).map vectorOf).map (.setIsrHandler · kernel.irqCommonHandler)

theorem halInitialize_eq (clearTicks timerHandler keyboardHandler : Handler) :
    halInitialize kernel clearTicks timerHandler keyboardHandler = setup kernel ++
      .interruptFlag true :: (timerInitialize clearTicks timerHandler ++ keyboardInitialize keyboardHandler) := by
  simp only [halInitialize, irqInitialize, setup, List.map_map, Function.comp_def, vectorOf, List.append_assoc, List.cons_append,
    List.nil_append]

/-- The operations there. None of them lets an interrupt in. -/
inductive SetsUp : Op → Prop where
  | out (write : Pic.PortWrite) : SetsUp (.out write)
  | loadIdt : SetsUp .loadIdt
  | isrInitialize : SetsUp .isrInitialize
  | setIsrHandler (interrupt : Byte) (handler : Word) : SetsUp (.setIsrHandler interrupt handler)

theorem setup_setsUp : ∀ op ∈ setup kernel, SetsUp op := by
  intro op member
  rw [setup, List.mem_append, List.mem_append] at member
  obtain (first | written) | set := member
  · rw [List.mem_cons, List.mem_singleton] at first
    obtain rfl | rfl := first
    · exact .loadIdt
    · exact .isrInitialize
  · obtain ⟨write, _, rfl⟩ := List.mem_map.mp written
    exact .out write
  · obtain ⟨interrupt, _, rfl⟩ := List.mem_map.mp set
    exact .setIsrHandler interrupt kernel.irqCommonHandler

structure Ready (kernel : Kernel) (system : System) : Prop where
  idtr : system.idtr = some kernel.image.gIdtDescriptor
  tables : TablesReady kernel system.memory
  registers : Pic.registers system.pics = Pic.remapped pic1Offset pic2Offset

/-- As far as the setup is concerned. -/
structure Agree (first second : System) : Prop where
  idtr : first.idtr = second.idtr
  memory : first.memory = second.memory
  registers : Pic.registers first.pics = Pic.registers second.pics

variable {first second : System} {op : Op} {ops : List Op}

theorem Agree.perform (agree : Agree first second) (setsUp : SetsUp op) : Agree (perform kernel op first) (perform kernel op second) := by
  obtain ⟨idtr, memory, registers⟩ := agree
  cases setsUp with
  | out write => exact ⟨idtr, memory, Pic.registers_out_congr registers⟩
  | loadIdt => exact ⟨rfl, memory, registers⟩
  | isrInitialize =>
      have initialized : Idt.isrInitialize kernel.image first.memory = Idt.isrInitialize kernel.image second.memory := by rw [memory]
      exact ⟨idtr, initialized, registers⟩
  | setIsrHandler interrupt handler =>
      have stored : Idt.setIsrHandler kernel.image interrupt handler first.memory =
          Idt.setIsrHandler kernel.image interrupt handler second.memory := by rw [memory]
      exact ⟨idtr, stored, registers⟩

theorem Agree.performAll (agree : Agree first second) (setsUp : ∀ op ∈ ops, SetsUp op) :
    Agree (performAll kernel ops first) (performAll kernel ops second) := by
  induction ops generalizing first second with
  | nil => exact agree
  | cons op ops ih =>
      exact ih (agree.perform (setsUp op List.mem_cons_self)) fun later member => setsUp later (List.mem_cons_of_mem _ member)

theorem Ready.of_agree (ready : Ready kernel second) (agree : Agree first second) : Ready kernel first where
  idtr := agree.idtr.trans ready.idtr
  tables := by
    rw [agree.memory]
    exact ready.tables
  registers := agree.registers.trans ready.registers

theorem performAll_append (ops later : List Op) (system : System) :
    performAll kernel (ops ++ later) system = performAll kernel later (performAll kernel ops system) := List.foldl_append ..

theorem performAll_outs (writes : List Pic.PortWrite) (system : System) :
    performAll kernel (writes.map .out) system = { system with pics := Pic.outAll writes system.pics } := by
  induction writes generalizing system with
  | nil => rfl
  | cons write rest ih => exact ih _

theorem performAll_setIsrHandlers (interrupts : List Byte) (handler : Word) (system : System) :
    performAll kernel (interrupts.map (.setIsrHandler · handler)) system =
      { system with memory := Idt.performAll kernel.image (interrupts.map (.setIsrHandler · handler)) system.memory } := by
  induction interrupts generalizing system with
  | nil => rfl
  | cons interrupt rest ih => exact ih _

/-- From any state of the controllers and any memory. -/
theorem ready_setup (placed : kernel.image.Placed) (system : System) : Ready kernel (performAll kernel (setup kernel) system) := by
  have ran : performAll kernel (setup kernel) system = { system with
      idtr := some kernel.image.gIdtDescriptor
      pics := Pic.outAll (Pic.picRemap pic1Offset pic2Offset) system.pics
      memory := Idt.performAll kernel.image
        (((List.range totalHardwareInterrupts).map vectorOf).map (.setIsrHandler · kernel.irqCommonHandler))
        (Idt.isrInitialize kernel.image system.memory) } := by
    have loaded : performAll kernel [.loadIdt, .isrInitialize] system = { system with
        idtr := some kernel.image.gIdtDescriptor
        memory := Idt.isrInitialize kernel.image system.memory } := rfl
    rw [setup, performAll_append, performAll_append, loaded, performAll_outs, performAll_setIsrHandlers]
  rw [ran]
  refine ⟨rfl, ?_, Pic.registers_picRemap pic1Offset pic2Offset system.pics⟩
  have tables : ∀ irq < 16, _ := fun irq inside =>
    @Idt.read_performAll kernel.image (Idt.isrInitialize kernel.image system.memory) (vectorOf irq)
      (((List.range totalHardwareInterrupts).map vectorOf).map (.setIsrHandler · kernel.irqCommonHandler)) placed true (by
        rw [(Idt.read_isrInitialize placed (vectorOf irq) system.memory).1, decide_eq_true]
        intro system
        have value := congrArg BitVec.toNat system
        rw [vectorOf_toNat inside] at value
        change 32 + irq = 128 at value
        omega)
  constructor
  · intro irq inside
    rw [(tables irq inside).1, Idt.presentAfter_set]
  · intro irq inside
    rw [(tables irq inside).2, Idt.handlerAfter_set, if_pos]
    exact List.mem_map_of_mem (List.mem_range.mpr inside)

/-- In the middle of the setup. What is left of it makes the system ready. -/
structure Starting (kernel : Kernel) (left rest : List Op) (system : System) : Prop where
  program : system.program = left ++ .interruptFlag true :: rest
  setsUp : ∀ op ∈ left, SetsUp op
  ready : Ready kernel (performAll kernel left system)
  place : system.place = .program
  disabled : system.interruptFlag = false
  handlers : ∀ line, system.gIrqHandlers line = none
  delivered : system.delivered = []
  called : system.called = []

variable {left rest : List Op}

theorem configured_remapped (same : Pic.registers pics = Pic.remapped pic1Offset pic2Offset) : Configured pics ∧ pics.Idle := by
  have fresh : Configured (Pic.remapped pic1Offset pic2Offset) ∧ (Pic.remapped pic1Offset pic2Offset).Idle :=
    ⟨⟨⟨⟨rfl, rfl⟩, ⟨rfl, rfl⟩, by decide, by decide⟩, by decide, by decide⟩, ⟨rfl, rfl⟩⟩
  have told : Pic.registers pics = Pic.registers (Pic.remapped pic1Offset pic2Offset) := same
  exact ⟨fresh.1.of_registers told, idle_of_registers told fresh.2⟩

theorem programStep_cons (place : system.place = .program) (program : system.program = op :: rest) :
    programStep kernel system = perform kernel op { system with program := rest } := by
  rw [programStep, place, program]

/-- The next operation of the setup, or the end of it. -/
theorem Starting.programStep (starting : Starting kernel left rest system) (permitted : ∀ op ∈ rest, Permitted kernel op) :
    (∃ less, Starting kernel less rest (programStep kernel system)) ∨ Running kernel (programStep kernel system) := by
  obtain ⟨program, setsUp, ready, place, disabled, handlers, delivered, called⟩ := starting
  cases left with
  | nil =>
      rw [programStep_cons place program]
      obtain ⟨idtr, tables, registers⟩ := ready
      obtain ⟨configured, idle⟩ := configured_remapped registers
      have none : ∀ line handler, system.gIrqHandlers line = some handler → Keeps kernel handler := by
        intro line handler set
        rw [handlers line] at set
        cases set
      refine .inr ⟨idtr, tables, configured, none, permitted, ?_, .program place ⟨idle, ?_⟩⟩
      · change ∀ irq ∈ system.called, irq < 16
        rw [called]
        exact nofun
      · change system.delivered = system.called.map vectorOf
        rw [delivered, called]
        rfl
  | cons op left =>
      rw [programStep_cons place program]
      have agree : Agree (performAll kernel left (perform kernel op { system with program := left ++ .interruptFlag true :: rest }))
          (performAll kernel (op :: left) system) := by
        refine Agree.performAll (Agree.perform ⟨rfl, rfl, rfl⟩ (setsUp op List.mem_cons_self)) ?_
        exact fun later member => setsUp later (List.mem_cons_of_mem _ member)
      have next := ready.of_agree agree
      have later : ∀ op ∈ left, SetsUp op := fun later member => setsUp later (List.mem_cons_of_mem _ member)
      refine .inl ⟨left, ?_⟩
      cases setsUp op List.mem_cons_self with
      | out write => exact ⟨rfl, later, next, place, disabled, handlers, delivered, called⟩
      | loadIdt => exact ⟨rfl, later, next, place, disabled, handlers, delivered, called⟩
      | isrInitialize => exact ⟨rfl, later, next, place, disabled, handlers, delivered, called⟩
      | setIsrHandler interrupt handler => exact ⟨rfl, later, next, place, disabled, handlers, delivered, called⟩

theorem Starting.devices (starting : Starting kernel left rest system) (same : Pic.registers pics = Pic.registers system.pics) :
    Starting kernel left rest { system with pics := pics } := by
  obtain ⟨program, setsUp, ready, place, disabled, handlers, delivered, called⟩ := starting
  exact ⟨program, setsUp, ready.of_agree (Agree.performAll ⟨rfl, rfl, same⟩ setsUp), place, disabled, handlers, delivered, called⟩

/-- Interrupts stay out. -/
theorem Starting.interruptStep (starting : Starting kernel left rest system) : interruptStep kernel system = system := by
  rw [Irq.interruptStep, starting.place, starting.disabled]
  rfl

def Sound (kernel : Kernel) (rest : List Op) (system : System) : Prop :=
  (∃ left, Starting kernel left rest system) ∨ Running kernel system

theorem Sound.step (sound : Sound kernel rest system) (placed : kernel.image.Placed) (present : kernel.irqCommonHandler ≠ 0)
    (permitted : ∀ op ∈ rest, Permitted kernel op) (actor : Actor) : Sound kernel rest (step kernel actor system) := by
  obtain ⟨left, starting⟩ | running := sound
  · cases actor with
    | program => exact starting.programStep permitted
    | interrupt =>
        rw [Irq.step, starting.interruptStep]
        exact .inl ⟨left, starting⟩
    | raise line =>
        rw [Irq.step]
        split_ifs
        · exact .inl ⟨left, starting.devices (registers_raise line system.pics)⟩
        · exact .inl ⟨left, starting⟩
    | withdraw line =>
        rw [Irq.step]
        split_ifs
        · exact .inl ⟨left, starting.devices (registers_withdraw line system.pics)⟩
        · exact .inl ⟨left, starting⟩
  · exact .inr (running.step placed present actor)

theorem Sound.run (sound : Sound kernel rest system) (placed : kernel.image.Placed) (present : kernel.irqCommonHandler ≠ 0)
    (permitted : ∀ op ∈ rest, Permitted kernel op) (schedule : List Actor) : Sound kernel rest (run kernel schedule system) := by
  induction schedule generalizing system with
  | nil => exact sound
  | cons actor schedule ih => exact ih (sound.step placed present permitted actor)

/-- The kernel before `HAL_initialize`: interrupts are disabled and `g_IRQ_handlers` is
zero. The controllers may be in any state and memory may hold anything. -/
def reset (pics : Pair) (memory : ByteMemory) (program : List Op) : System where
  pics := pics
  memory := memory
  idtr := none
  interruptFlag := false
  place := .program
  program := program
  gIrqHandlers _ := none
  delivered := []
  called := []

variable {clearTicks timerHandler keyboardHandler : Handler}

theorem timerPitInit_permitted (divisor : Word) : ∀ op ∈ timerPitInit divisor, Permitted kernel op := by
  have out : ∀ port : BitVec 16, port ≠ Pic.pic1Command → port ≠ Pic.pic2Command → ∀ value, Permitted kernel (.out ⟨port, value⟩) :=
    fun port master slave value => .out ⟨port, value⟩ master slave
  have channel := out 0x40 (by decide) (by decide)
  simp only [timerPitInit, List.forall_mem_cons]
  exact ⟨out 0x43 (by decide) (by decide) _, .interruptFlag false, channel _, channel _, .interruptFlag true, nofun⟩

theorem initialize_permitted (keeps : ∀ change ∈ [clearTicks, timerHandler, keyboardHandler], Keeps kernel change) :
    ∀ op ∈ timerInitialize clearTicks timerHandler ++ keyboardInitialize keyboardHandler, Permitted kernel op := by
  rw [List.forall_mem_cons, List.forall_mem_cons, List.forall_mem_singleton] at keeps
  obtain ⟨clear, timer, keyboard⟩ := keeps
  rw [timerInitialize, keyboardInitialize, List.forall_mem_append, List.forall_mem_append, List.forall_mem_singleton,
    List.forall_mem_cons, List.forall_mem_singleton]
  exact ⟨⟨⟨.work clearTicks clear, .setIrqHandler 0 timerHandler timer⟩, timerPitInit_permitted _⟩,
    .setIrqHandler 1 keyboardHandler keyboard⟩

theorem sound_reset (placed : kernel.image.Placed) (clearTicks timerHandler keyboardHandler : Handler) (pics : Pair)
    (memory : ByteMemory) (ops : List Op) :
    Sound kernel (timerInitialize clearTicks timerHandler ++ keyboardInitialize keyboardHandler ++ ops)
      (reset pics memory (halInitialize kernel clearTicks timerHandler keyboardHandler ++ ops)) := by
  refine .inl ⟨setup kernel, ?_, setup_setsUp, ready_setup placed _, rfl, rfl, fun _ => rfl, rfl, rfl⟩
  rw [halInitialize_eq, List.append_assoc]
  rfl

theorem Stage.delivered (stage : Stage system) : system.delivered = system.called.map vectorOf ∨
    ∃ irq < 16, system.place = .handling (irqCommonHandler (vectorOf irq) ++ [.iret]) ∧
      system.delivered = (irq :: system.called).map vectorOf := by
  cases stage with
  | program place between => exact .inl between.served
  | recognised place between => exact .inl between.served
  | gone place between => exact .inl between.served
  | chosen line place inside master slave served => exact .inl served
  | entered irq place inside ends served => exact .inr ⟨irq, inside, place, served⟩
  | ending writes place eoi ends served => exact .inl served

/-- Whatever the controllers and memory were before `HAL_initialize`, in whatever order
devices, the processor and the program then act, spurious interrupts included: no
interrupt ends in a fault or a panic; `IRQ_common_handler` is called for one of the
sixteen lines, once for each vector delivered and in the same order; and when the
program runs with interrupts enabled nothing is in service, so that a line is heard
as soon as it asks and is not masked. -/
theorem interrupts_served (placed : kernel.image.Placed) (present : kernel.irqCommonHandler ≠ 0)
    (keeps : ∀ change ∈ [clearTicks, timerHandler, keyboardHandler], Keeps kernel change) (permitted : ∀ op ∈ ops, Permitted kernel op)
    (pics : Pair) (memory : ByteMemory) (schedule : List Actor) :
    let system := run kernel schedule (reset pics memory (halInitialize kernel clearTicks timerHandler keyboardHandler ++ ops))
    (system.place ≠ .panicked ∧ system.place ≠ .fault) ∧
    (∀ irq ∈ system.called, irq < 16) ∧
    (system.delivered = system.called.map vectorOf ∨
      ∃ irq < 16, system.place = .handling (irqCommonHandler (vectorOf irq) ++ [.iret]) ∧
        system.delivered = (irq :: system.called).map vectorOf) ∧
    (system.place = .program → system.interruptFlag = true →
      system.pics.Idle ∧ (system.pics.intr = true ↔ ∃ line, system.pics.Waits line)) := by
  have later : ∀ op ∈ timerInitialize clearTicks timerHandler ++ keyboardInitialize keyboardHandler ++ ops, Permitted kernel op :=
    List.forall_mem_append.mpr ⟨initialize_permitted keeps, permitted⟩
  have sound := (sound_reset placed clearTicks timerHandler keyboardHandler pics memory ops).run placed present later schedule
  intro system
  obtain ⟨left, starting⟩ | running := sound
  · refine ⟨?_, ?_, .inl ?_, ?_⟩
    · rw [starting.place]
      exact ⟨nofun, nofun⟩
    · rw [starting.called]
      exact nofun
    · rw [starting.delivered, starting.called]
      rfl
    · rw [starting.disabled]
      exact nofun
  · refine ⟨running.stage.place_cases, running.called, running.stage.delivered, fun place _ => ?_⟩
    have idle := (running.stage.between place).idle
    exact ⟨idle, Pair.intr_iff running.configured.operating idle⟩

/-- A kernel that counts the interrupts of its timer, in a word behind the tables. -/
def someKernel : Kernel := ⟨Idt.someImage, 0xC0003000⟩

def setTicks (value : ByteMemory → Word) : Handler := fun memory => memory.write32 0xC0020000 (value memory)

def someHandlers : List Handler := [setTicks fun _ => 0, setTicks fun memory => memory.read32 0xC0020000 + 1, id]

def someProgram : List Op := halInitialize someKernel someHandlers[0] someHandlers[1] someHandlers[2]

theorem someKernel_keeps : ∀ change ∈ someHandlers, Keeps someKernel change := by
  have ticks : ∀ value, Keeps someKernel (setTicks value) := by
    intro value memory place inside
    refine ByteMemory.write32_outside memory (value memory) (by decide) fun counted => ?_
    rw [mem_span] at counted
    obtain gates | handlers := inside
    · rw [mem_span] at gates
      exact absurd (Nat.lt_of_le_of_lt counted.1 gates.2) (by decide)
    · rw [mem_span] at handlers
      exact absurd (Nat.lt_of_le_of_lt counted.1 handlers.2) (by decide)
  rw [someHandlers, List.forall_mem_cons, List.forall_mem_cons, List.forall_mem_singleton]
  exact ⟨ticks _, ticks _, fun _ _ _ => rfl⟩

/-- The machine as the firmware leaves it, and a device at line 7 that takes its request
back before the controller is asked for the vector. -/
def somePics : Pair := Pic.remapped 0x08 0x70

def spurious : List Actor := List.replicate 45 .program ++ [.raise 7, .interrupt, .withdraw 7, .interrupt, .interrupt]

theorem interrupts_served_spurious :
    (run someKernel spurious (reset somePics (fun _ => 0) (someProgram ++ []))).place ≠ .fault := by
  have served := @interrupts_served someKernel [] _ _ _ ⟨by decide, by decide, by decide⟩ (by decide) someKernel_keeps nofun somePics
    (fun _ => 0) spurious
  exact served.1.2

end Irq

end ScratchOs
