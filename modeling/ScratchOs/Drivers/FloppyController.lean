import ScratchOs.Data.ByteMemory

namespace ScratchOs

open Data

/-! `drivers/FDC.c` and the controller it talks to.

The driver is a straight line of port accesses and two kinds of waiting loop.
The controller takes its own steps: it raises RQM some time after it left reset
or took a command, and the interrupt some time after it left reset. A run is any
order of the two. -/

namespace Floppy

def senseInterrupt : Byte := 8
def version : Byte := 16
def validFdcVersion : Byte := 0x90
def fdcDorReset : Byte := 0x00
def fdcDorEnable : Byte := 0x0C
def fdcCcr500kbps : Byte := 0x00

/-- A result byte, with the command that produced it: its code and how many
commands were taken before it. -/
structure Result where
  command : Byte
  number : Nat
  byte : Byte
deriving DecidableEq

structure Controller where
  rqm : Bool
  results : List Result
  inReset : Bool
  irqDue : Bool
  accepted : Nat
deriving DecidableEq

/-- The result bytes of a command; those of `SENSE_INTERRUPT` depend on the drive. -/
def answer (sense : Nat → Byte × Byte) (number : Nat) (command : Byte) : List Result :=
  if command = senseInterrupt then
    [⟨command, number, (sense number).1⟩, ⟨command, number, (sense number).2⟩]
  else if command = version then [⟨command, number, validFdcVersion⟩]
  else []

namespace Controller

/-- RQM is bit `0x80`, DIO is bit `0x40` and set while result bytes are left. -/
def mainStatus (controller : Controller) : Byte :=
  (if controller.rqm then 0x80 else 0) ||| (if controller.results.isEmpty then 0 else 0x40)

/-- A command byte is taken with RQM set and DIO clear, and ignored otherwise. -/
def writeFifo (sense : Nat → Byte × Byte) (command : Byte) (controller : Controller) : Bool × Controller :=
  if controller.mainStatus &&& 0xC0 = 0x80 then
    (true, { controller with
      rqm := false
      results := answer sense controller.accepted command
      accepted := controller.accepted + 1 })
  else (false, controller)

def readFifo (controller : Controller) : Option Result × Controller :=
  if controller.mainStatus &&& 0xC0 = 0xC0 then
    (controller.results.head?, { controller with results := controller.results.tail })
  else (none, controller)

/-- Bit 2 of the digital output register is the reset line, active low. -/
def writeDigitalOutput (value : Byte) (controller : Controller) : Controller :=
  if value &&& 0x04 = 0 then { controller with rqm := false, results := [], inReset := true, irqDue := false }
  else if controller.inReset then { controller with inReset := false, irqDue := true }
  else controller

end Controller

/-- What the driver does, one port access or one turn of a loop at a time. -/
inductive Op where
  | setIrqHandler
  | outDigitalOutput (value : Byte)
  | awaitIrq
  | awaitReady
  | outDataFifo (command : Byte)
  | outConfigurationControl (dataRate : Byte)
  | inDataFifo
deriving DecidableEq

def sendFdcCommand (command : Byte) : List Op := [.awaitReady, .outDataFifo command]

def readFdcData : List Op := [.awaitReady, .inDataFifo]

def getFdcVersion : List Op := sendFdcCommand version ++ readFdcData

def resetFdc : List Op :=
  [.outDigitalOutput fdcDorReset, .outDigitalOutput fdcDorEnable, .awaitIrq] ++
    (List.replicate 4 (sendFdcCommand senseInterrupt)).flatten

def setFdcDataRate (dataRate : Byte) : List Op := [.outConfigurationControl dataRate]

def fdcTest : List Op := [.setIrqHandler] ++ resetFdc ++ setFdcDataRate fdcCcr500kbps ++ getFdcVersion

/-- What happened at the data port. A read without a result byte gives `none`. -/
inductive FifoEvent where
  | wrote (command : Byte) (accepted : Bool)
  | read (result : Option Result)
deriving DecidableEq

structure System where
  controller : Controller
  program : List Op
  handler : Bool
  gRecievedIrq : Bool
  version : Option Result
  trace : List FifoEvent
deriving DecidableEq

inductive Actor where
  | driver
  | ready
  | interrupt
deriving DecidableEq

variable (sense : Nat → Byte × Byte)

/-- The next step of the driver. A loop whose condition does not hold yet turns once more. -/
def driverStep (system : System) : System :=
  match system.program with
  | [] => system
  | .setIrqHandler :: rest => { system with program := rest, handler := true }
  | .outDigitalOutput value :: rest =>
      { system with program := rest, controller := system.controller.writeDigitalOutput value }
  | .awaitIrq :: rest => if system.gRecievedIrq then { system with program := rest } else system
  | .awaitReady :: rest =>
      if system.controller.mainStatus &&& 0x80 ≠ 0 then { system with program := rest } else system
  | .outDataFifo command :: rest =>
      { system with
        program := rest
        controller := (system.controller.writeFifo sense command).2
        trace := system.trace ++ [.wrote command (system.controller.writeFifo sense command).1] }
  | .outConfigurationControl _ :: rest => { system with program := rest }
  | .inDataFifo :: rest =>
      { system with
        program := rest
        controller := system.controller.readFifo.2
        version := system.controller.readFifo.1
        trace := system.trace ++ [.read system.controller.readFifo.1] }

/-- `interrupt` runs `fdc_handler`, if it is installed. -/
def step : Actor → System → System
  | .driver, system => driverStep sense system
  | .ready, system =>
      if system.controller.inReset then system
      else { system with controller := { system.controller with rqm := true } }
  | .interrupt, system =>
      if system.controller.irqDue then
        { system with
          controller := { system.controller with irqDue := false }
          gRecievedIrq := system.gRecievedIrq || system.handler }
      else system

def run (schedule : List Actor) (system : System) : System :=
  schedule.foldl (fun system actor => step sense actor system) system

/-- `fdc_test` is called with the controller in any state. -/
def start (controller : Controller) : System := ⟨controller, fdcTest, false, false, none, []⟩

/-- Every byte written was taken, every byte read was a result byte, and what
`get_fdc_version` returns is the result of its own command. -/
structure Conforms (system : System) : Prop where
  writes : ∀ command, .wrote command false ∉ system.trace
  reads : .read none ∉ system.trace
  returns : system.program = [] → ∃ result, system.version = some result ∧ result.command = version

/-- The command bytes the driver still has to write. -/
def commandsLeft : List Op → List Byte
  | [] => []
  | .outDataFifo command :: rest => command :: commandsLeft rest
  | _ :: rest => commandsLeft rest

/-! The status bits the driver and the controller look at. -/

namespace Controller

variable {controller : Controller}

theorem rqm_of_status (set : controller.mainStatus &&& 0x80 ≠ 0) : controller.rqm = true := by
  cases ready : controller.rqm with
  | true => rfl
  | false =>
      apply absurd _ set
      rw [mainStatus, ready]
      cases controller.results.isEmpty <;> decide

variable {sense}

theorem writeFifo_taken (ready : controller.rqm = true) (empty : controller.results = []) (command : Byte) :
    controller.writeFifo sense command =
      (true, { controller with
        rqm := false
        results := answer sense controller.accepted command
        accepted := controller.accepted + 1 }) := by
  have status : controller.mainStatus &&& 0xC0 = 0x80 := by
    rw [mainStatus, ready, empty]
    decide
  rw [writeFifo, if_pos status]

theorem writeFifo_ignored (pending : controller.results ≠ []) (command : Byte) :
    controller.writeFifo sense command = (false, controller) := by
  have status : controller.mainStatus &&& 0xC0 ≠ 0x80 := by
    rw [mainStatus, List.isEmpty_eq_false_iff.mpr pending]
    split <;> decide
  rw [writeFifo, if_neg status]

theorem readFifo_next {result : Result} {results : List Result} (ready : controller.rqm = true)
    (pending : controller.results = result :: results) :
    controller.readFifo = (some result, { controller with results := results }) := by
  have status : controller.mainStatus &&& 0xC0 = 0xC0 := by
    rw [mainStatus, ready, pending, List.isEmpty_cons]
    decide
  rw [readFifo, if_pos status, pending]
  rfl

end Controller

/-- The driver after its first command: writes, waits and at the end the one read. -/
inductive Draining : List Op → Prop where
  | last : Draining [.awaitReady, .inDataFifo]
  | wait {rest : List Op} (later : Draining rest) : Draining (.awaitReady :: rest)
  | write {rest : List Op} (command : Byte) (later : Draining rest) : Draining (.outDataFifo command :: rest)
  | rate {rest : List Op} (dataRate : Byte) (later : Draining rest) :
      Draining (.outConfigurationControl dataRate :: rest)

theorem draining_fdcTest : Draining (fdcTest.drop 6) :=
  .wait (.write _ (.wait (.write _ (.wait (.write _ (.rate _ (.wait (.write _ .last))))))))

/-- The data port so far: the first command was taken, the others were not. -/
def drained (ignored : List Byte) : List FifoEvent :=
  .wrote senseInterrupt true :: ignored.map fun command => .wrote command false

def laterCommands : List Byte := [senseInterrupt, senseInterrupt, senseInterrupt, version]

/-- How far a run has come. The result bytes of the first `SENSE_INTERRUPT` stay
unread, so from then on the controller ignores what is written. -/
inductive Stage (number : Nat) (system : System) : Prop where
  | starting (program : system.program = fdcTest ∨ system.program = fdcTest.drop 1) (trace : system.trace = [])
      (count : system.controller.accepted = number)
  | cleared (program : system.program = fdcTest.drop 2 ∨ system.program = fdcTest.drop 3 ∨
        system.program = fdcTest.drop 4) (trace : system.trace = []) (count : system.controller.accepted = number)
      (empty : system.controller.results = [])
  | sending (program : system.program = fdcTest.drop 5) (trace : system.trace = [])
      (count : system.controller.accepted = number) (empty : system.controller.results = [])
      (ready : system.controller.rqm = true)
  | draining (ignored : List Byte) (program : Draining system.program) (trace : system.trace = drained ignored)
      (commands : ignored ++ commandsLeft system.program = laterCommands)
      (pending : system.controller.results = answer sense number senseInterrupt)
  | reading (program : system.program = [.inDataFifo]) (trace : system.trace = drained laterCommands)
      (pending : system.controller.results = answer sense number senseInterrupt)
      (ready : system.controller.rqm = true)
  | returned (program : system.program = [])
      (trace : system.trace = drained laterCommands ++ [.read (answer sense number senseInterrupt).head?])
      (result : system.version = (answer sense number senseInterrupt).head?)

variable {sense} {number : Nat} {system : System}

theorem answer_senseInterrupt : answer sense number senseInterrupt =
    [⟨senseInterrupt, number, (sense number).1⟩, ⟨senseInterrupt, number, (sense number).2⟩] := rfl

/-- RQM is raised between any two steps of the driver. -/
theorem Stage.ready (stage : Stage sense number system) : Stage sense number (step sense .ready system) := by
  rw [step]
  split
  · exact stage
  · cases stage with
    | starting program trace count => exact .starting program trace count
    | cleared program trace count empty => exact .cleared program trace count empty
    | sending program trace count empty ready => exact .sending program trace count empty rfl
    | draining ignored program trace commands pending => exact .draining ignored program trace commands pending
    | reading program trace pending ready => exact .reading program trace pending rfl
    | returned program trace result => exact .returned program trace result

theorem Stage.interrupt (stage : Stage sense number system) :
    Stage sense number (step sense .interrupt system) := by
  rw [step]
  split
  · cases stage with
    | starting program trace count => exact .starting program trace count
    | cleared program trace count empty => exact .cleared program trace count empty
    | sending program trace count empty ready => exact .sending program trace count empty ready
    | draining ignored program trace commands pending => exact .draining ignored program trace commands pending
    | reading program trace pending ready => exact .reading program trace pending ready
    | returned program trace result => exact .returned program trace result
  · exact stage

/-! The driver's steps, by the operation that is next. -/

theorem step_setIrqHandler {rest : List Op} (next : system.program = .setIrqHandler :: rest) :
    step sense .driver system = { system with program := rest, handler := true } := by
  simp only [step, driverStep, next]

theorem step_outDigitalOutput {rest : List Op} {value : Byte}
    (next : system.program = .outDigitalOutput value :: rest) :
    step sense .driver system =
      { system with program := rest, controller := system.controller.writeDigitalOutput value } := by
  simp only [step, driverStep, next]

theorem step_outConfigurationControl {rest : List Op} {dataRate : Byte}
    (next : system.program = .outConfigurationControl dataRate :: rest) :
    step sense .driver system = { system with program := rest } := by
  simp only [step, driverStep, next]

theorem step_awaitIrq {rest : List Op} (next : system.program = .awaitIrq :: rest) :
    step sense .driver system = if system.gRecievedIrq then { system with program := rest } else system := by
  simp only [step, driverStep, next]

/-- The loop is left with RQM set, or not left yet. -/
theorem step_awaitReady {rest : List Op} (next : system.program = .awaitReady :: rest) :
    (step sense .driver system = { system with program := rest } ∧ system.controller.rqm = true) ∨
      step sense .driver system = system := by
  simp only [step, driverStep, next]
  by_cases status : system.controller.mainStatus &&& 0x80 ≠ 0
  · rw [if_pos status]
    exact .inl ⟨rfl, Controller.rqm_of_status status⟩
  · rw [if_neg status]
    exact .inr rfl

theorem step_outDataFifo_taken {rest : List Op} {command : Byte} (next : system.program = .outDataFifo command :: rest)
    (ready : system.controller.rqm = true) (empty : system.controller.results = []) :
    step sense .driver system =
      { system with
        program := rest
        controller := { system.controller with
          rqm := false
          results := answer sense system.controller.accepted command
          accepted := system.controller.accepted + 1 }
        trace := system.trace ++ [.wrote command true] } := by
  simp only [step, driverStep, next, Controller.writeFifo_taken ready empty]

theorem step_outDataFifo_ignored {rest : List Op} {command : Byte}
    (next : system.program = .outDataFifo command :: rest) (pending : system.controller.results ≠ []) :
    step sense .driver system =
      { system with program := rest, trace := system.trace ++ [.wrote command false] } := by
  simp only [step, driverStep, next, Controller.writeFifo_ignored pending]

theorem step_inDataFifo {rest : List Op} {result : Result} {results : List Result}
    (next : system.program = .inDataFifo :: rest) (ready : system.controller.rqm = true)
    (pending : system.controller.results = result :: results) :
    step sense .driver system =
      { system with
        program := rest
        controller := { system.controller with results := results }
        version := some result
        trace := system.trace ++ [.read (some result)] } := by
  simp only [step, driverStep, next, Controller.readFifo_next ready pending]

theorem enable_results (controller : Controller) :
    (controller.writeDigitalOutput fdcDorEnable).results = controller.results ∧
      (controller.writeDigitalOutput fdcDorEnable).accepted = controller.accepted := by
  rw [Controller.writeDigitalOutput, if_neg (by decide)]
  split <;> exact ⟨rfl, rfl⟩

theorem drained_append (ignored : List Byte) (command : Byte) :
    drained ignored ++ [.wrote command false] = drained (ignored ++ [command]) := by
  rw [drained, drained, List.map_append]
  rfl

theorem Stage.starting_driver (program : system.program = fdcTest ∨ system.program = fdcTest.drop 1)
    (trace : system.trace = []) (count : system.controller.accepted = number) :
    Stage sense number (step sense .driver system) := by
  rcases program with next | next
  · rw [step_setIrqHandler next]
    exact .starting (.inr rfl) trace count
  · rw [step_outDigitalOutput next]
    exact .cleared (.inl rfl) trace count rfl

theorem Stage.cleared_driver (program : system.program = fdcTest.drop 2 ∨ system.program = fdcTest.drop 3 ∨
      system.program = fdcTest.drop 4) (trace : system.trace = []) (count : system.controller.accepted = number)
    (empty : system.controller.results = []) : Stage sense number (step sense .driver system) := by
  rcases program with next | next | next
  · obtain ⟨results, accepted⟩ := enable_results system.controller
    rw [step_outDigitalOutput next]
    exact .cleared (.inr (.inl rfl)) trace (accepted.trans count) (results.trans empty)
  · rw [step_awaitIrq next]
    split
    · exact .cleared (.inr (.inr rfl)) trace count empty
    · exact .cleared (.inr (.inl next)) trace count empty
  · rcases step_awaitReady next with ⟨left, ready⟩ | turned
    · rw [left]
      exact .sending rfl trace count empty ready
    · rw [turned]
      exact .cleared (.inr (.inr next)) trace count empty

/-- With result bytes pending the driver's writes are lost, up to its read. -/
theorem Stage.draining_driver {ignored : List Byte} (program : Draining system.program)
    (trace : system.trace = drained ignored) (commands : ignored ++ commandsLeft system.program = laterCommands)
    (pending : system.controller.results = answer sense number senseInterrupt) :
    Stage sense number (step sense .driver system) := by
  have unread : system.controller.results ≠ [] := by
    rw [pending, answer_senseInterrupt]
    exact List.cons_ne_nil _ _
  generalize next : system.program = program at program commands
  cases program with
  | last =>
      rcases step_awaitReady next with ⟨left, ready⟩ | turned
      · rw [left]
        obtain rfl : ignored = laterCommands := by rwa [show commandsLeft _ = [] from rfl, List.append_nil] at commands
        exact .reading rfl trace pending ready
      · rw [turned]
        exact .draining ignored (next ▸ .last) trace (next ▸ commands) pending
  | wait later =>
      rcases step_awaitReady next with ⟨left, _⟩ | turned
      · rw [left]
        exact .draining ignored later trace commands pending
      · rw [turned]
        exact .draining ignored (next ▸ .wait later) trace (next ▸ commands) pending
  | write command later =>
      rw [step_outDataFifo_ignored next unread]
      refine .draining (ignored ++ [command]) later ?_ ?_ pending
      · rw [← drained_append, trace]
      · rw [List.append_assoc]
        exact commands
  | rate dataRate later =>
      rw [step_outConfigurationControl next]
      exact .draining ignored later trace commands pending

theorem Stage.driver (stage : Stage sense number system) : Stage sense number (step sense .driver system) := by
  cases stage with
  | starting program trace count => exact .starting_driver program trace count
  | cleared program trace count empty => exact .cleared_driver program trace count empty
  | sending program trace count empty ready =>
      rw [step_outDataFifo_taken program ready empty]
      refine .draining [] draining_fdcTest ?_ rfl ?_
      · rw [trace]
        rfl
      · rw [count]
  | draining ignored program trace commands pending => exact .draining_driver program trace commands pending
  | reading program trace pending ready =>
      rw [step_inDataFifo program ready pending, trace]
      exact .returned rfl rfl rfl
  | returned program trace result =>
      have finished : step sense .driver system = system := by simp only [step, driverStep, program]
      rw [finished]
      exact .returned program trace result

theorem Stage.run (stage : Stage sense number system) (schedule : List Actor) :
    Stage sense number (run sense schedule system) := by
  induction schedule generalizing system with
  | nil => exact stage
  | cons actor schedule ih =>
      cases actor with
      | driver => exact ih stage.driver
      | ready => exact ih stage.ready
      | interrupt => exact ih stage.interrupt

theorem stage_start (controller : Controller) : Stage sense controller.accepted (start controller) :=
  .starting (.inl rfl) rfl rfl

theorem conforms_of_silent (silent : system.trace = []) (running : system.program ≠ []) : Conforms system where
  writes command := by simp [silent]
  reads := by simp [silent]
  returns finished := absurd finished running

theorem not_conforms_of_ignored {ignored : List Byte} {later : List FifoEvent}
    (trace : system.trace = drained ignored ++ later) (some : ignored ≠ []) : ¬ Conforms system := by
  obtain ⟨command, rest, rfl⟩ := List.exists_cons_of_ne_nil some
  intro conforms
  apply conforms.writes command
  simp [trace, drained]

/-- The handshake is kept up to the second command byte and lost with it. -/
theorem Stage.conforms_iff (stage : Stage sense number system) :
    Conforms system ↔ 4 ≤ (commandsLeft system.program).length := by
  cases stage with
  | starting program trace count =>
      have running : system.program ≠ [] ∧ 4 ≤ (commandsLeft system.program).length := by
        rcases program with next | next <;> rw [next] <;> decide
      exact iff_of_true (conforms_of_silent trace running.1) running.2
  | cleared program trace count empty =>
      have running : system.program ≠ [] ∧ 4 ≤ (commandsLeft system.program).length := by
        rcases program with next | next | next <;> rw [next] <;> decide
      exact iff_of_true (conforms_of_silent trace running.1) running.2
  | sending program trace count empty ready =>
      have running : system.program ≠ [] ∧ 4 ≤ (commandsLeft system.program).length := by
        rw [program]
        decide
      exact iff_of_true (conforms_of_silent trace running.1) running.2
  | draining ignored program trace commands pending =>
      have total := congrArg List.length commands
      rw [List.length_append, show laterCommands.length = 4 from rfl] at total
      cases ignored with
      | nil =>
          have running : system.program ≠ [] := by
            intro finished
            rw [finished] at program
            cases program
          refine iff_of_true ⟨?_, ?_, fun finished => absurd finished running⟩ ?_
          · intro command
            simp [trace, drained]
          · simp [trace, drained]
          · rw [List.length_nil] at total
            omega
      | cons command ignored =>
          refine iff_of_false (@not_conforms_of_ignored system _ [] ?_ (List.cons_ne_nil command ignored)) ?_
          · rw [trace, List.append_nil]
          · rw [List.length_cons] at total
            omega
  | reading program trace pending ready =>
      refine iff_of_false (@not_conforms_of_ignored system _ [] ?_ (by decide : laterCommands ≠ [])) ?_
      · rw [trace, List.append_nil]
      · rw [program]
        decide
  | returned program trace result =>
      refine iff_of_false (not_conforms_of_ignored trace (by decide)) ?_
      rw [program]
      decide

/-- In every order of steps the handshake is kept exactly until the driver
writes its second command byte. A run that ends has lost the `VERSION` command
and returns the first result byte of the first `SENSE_INTERRUPT`. -/
theorem fdcTest_conforms_iff (sense : Nat → Byte × Byte) (controller : Controller) (schedule : List Actor) :
    (Conforms (run sense schedule (start controller)) ↔
      4 ≤ (commandsLeft (run sense schedule (start controller)).program).length) ∧
    ((run sense schedule (start controller)).program = [] →
      FifoEvent.wrote version false ∈ (run sense schedule (start controller)).trace ∧
      (run sense schedule (start controller)).version =
        some ⟨senseInterrupt, controller.accepted, (sense controller.accepted).1⟩) := by
  have stage : Stage sense controller.accepted (run sense schedule (start controller)) :=
    (stage_start controller).run schedule
  refine ⟨stage.conforms_iff, fun finished => ?_⟩
  cases stage with
  | starting program => rcases program with next | next <;> rw [next] at finished <;> cases finished
  | cleared program => rcases program with next | next | next <;> rw [next] at finished <;> cases finished
  | sending program => rw [program] at finished; cases finished
  | draining ignored program => rw [finished] at program; cases program
  | reading program => rw [program] at finished; cases finished
  | returned program trace result =>
      rw [trace, result, answer_senseInterrupt]
      exact ⟨List.mem_append_left _ (by decide), rfl⟩

/-- A controller out of reset, and one order of steps to the end of `fdc_test`. -/
def idleController : Controller := ⟨true, [], false, false, 0⟩

def promptSchedule : List Actor :=
  List.replicate 3 .driver ++ [.interrupt, .ready] ++ List.replicate 3 .driver ++ [.ready] ++ List.replicate 11 .driver

theorem fdcTest_returns_senseInterrupt :
    (run (fun _ => (0xC0, 0)) promptSchedule (start idleController)).program = [] ∧
      (run (fun _ => (0xC0, 0)) promptSchedule (start idleController)).version = some ⟨senseInterrupt, 0, 0xC0⟩ ∧
      ¬ Conforms (run (fun _ => (0xC0, 0)) promptSchedule (start idleController)) := by
  refine ⟨by decide, by decide, fun conforms => ?_⟩
  exact conforms.writes version (by decide)

end Floppy

end ScratchOs
