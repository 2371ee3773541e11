import ScratchOs.Drivers.Pit
import ScratchOs.Interrupts.Account

namespace ScratchOs

open Data Pic8259 Pit8254

/-! The kernel's clock from end to end: the output of the timer is line 0 of the
controllers, and `HAL_initialize` programs the timer while all of them are at work. -/

namespace Irq

/-- A clock of the timer, or a step of somebody else. -/
inductive Turn where
  | clock
  | other (actor : Actor)
deriving DecidableEq

structure Board where
  system : System
  channel : Channel

/-- The output of the timer's channel is wired to line 0. -/
def wire (kernel : Kernel) (before after : Channel) (system : System) : System :=
  if !before.output && after.output then step kernel (.raise 0) system
  else if before.output && !after.output then step kernel (.withdraw 0) system
  else system

/-- What is for the timer of an operation. -/
def issued (op : Op) (channel : Channel) : Channel :=
  match op with
  | .out write => Pit.portOut write channel
  | _ => channel

/-- The channel when the program does its next operation. -/
def written (system : System) (channel : Channel) : Channel :=
  match system.place, system.program with
  | .program, op :: _ => issued op channel
  | _, _ => channel

/-- Nobody else is at line 0. -/
def turn (kernel : Kernel) : Turn → Board → Board
  | .clock, board => ⟨wire kernel board.channel board.channel.clock board.system, board.channel.clock⟩
  | .other .program, board =>
      let channel := written board.system board.channel
      ⟨wire kernel board.channel channel (step kernel .program board.system), channel⟩
  | .other .interrupt, board => { board with system := step kernel .interrupt board.system }
  | .other (.raise line), board => if line = 0 then board else { board with system := step kernel (.raise line) board.system }
  | .other (.withdraw line), board =>
      if line = 0 then board else { board with system := step kernel (.withdraw line) board.system }

def turns (kernel : Kernel) (schedule : List Turn) (board : Board) : Board :=
  schedule.foldl (fun board next => turn kernel next board) board

/-- The output falls with the request still unheard. -/
def misses (next : Turn) (board : Board) : Bool :=
  next = .clock && (board.channel.output && !board.channel.clock.output && requested board.system.pics 0)

def missed (kernel : Kernel) : List Turn → Board → Nat
  | [], _ => 0
  | next :: schedule, board => (misses next board).toNat + missed kernel schedule (turn kernel next board)

variable {kernel : Kernel} {system : System} {board : Board} {before after channel : Channel} {count : BitVec 16} {elapsed : Nat}

/-! Requests of line 0 against the output. -/

/-- There is a request only while the output is high. -/
def Level (board : Board) : Prop := requested board.system.pics 0 = true → board.channel.output = true

theorem zero_hasDevice : HasDevice 0 := ⟨by decide, by decide⟩

theorem enter_pics (interrupt : Byte) (system : System) : (enter kernel interrupt system).pics = system.pics := by
  rw [enter]
  split
  · rfl
  · split <;> rfl

/-- Only the first cycle takes a request of the first controller. -/
theorem requested_interruptStep (running : Running kernel system) (asked : requested (interruptStep kernel system).pics 0 = true) :
    requested system.pics 0 = true := by
  have configured := running.configured
  cases running.stage with
  | program place between =>
      rw [interruptStep, place] at asked
      dsimp only at asked
      split at asked <;> exact asked
  | recognised place between =>
      have taken := requested_firstCycle zero_hasDevice configured between.idle
      rw [interruptStep, place] at asked
      change requested system.pics.firstCycle.2 0 = true at asked
      rw [asked] at taken
      cases still : requested system.pics 0 with
      | true => rfl
      | false =>
          rw [still] at taken
          exact absurd taken (by simp)
  | gone place between =>
      rw [interruptStep, place] at asked
      dsimp only at asked
      rw [enter_pics] at asked
      exact asked
  | chosen line place inside master slave served =>
      rw [interruptStep, place] at asked
      dsimp only at asked
      rw [enter_pics] at asked
      obtain ⟨irq, small, slave', answered, _⟩ := Pair.secondCycle_spec configured.operating slave line inside
      rw [answered] at asked
      exact asked
  | entered irq place inside ends served =>
      rw [irqCommonHandler_vectorOf inside] at place
      rw [interruptStep, place] at asked
      exact asked
  | ending writes place eoi ends served =>
      rw [interruptStep, place] at asked
      cases writes with
      | nil => exact asked
      | cons write rest =>
          obtain ⟨port, rfl⟩ := eoi write List.mem_cons_self
          change requested (Pic.out ⟨port, Pic.picEoi⟩ system.pics) 0 = true at asked
          rwa [requested_eoi configured] at asked

theorem wire_same (channel : Channel) (system : System) : wire kernel channel channel system = system := by
  rw [wire]
  cases channel.output <;> rfl

/-- One clock, with its edge or without. -/
theorem clock_accounted (running : Running kernel board.system) (present : kernel.irqCommonHandler ≠ 0) (level : Level board)
    (counts : Counts count elapsed board.channel) (legal : count ≠ 1) :
    accounted 0 (turn kernel .clock board).system + (misses .clock board).toNat + edges count elapsed =
        accounted 0 board.system + edges count (elapsed + 1) ∧
      Level (turn kernel .clock board) := by
  obtain ⟨system, channel⟩ := board
  dsimp only at running level counts
  have raised := step_accounted running present zero_hasDevice (.raise 0)
  have withdrawn := step_accounted running present zero_hasDevice (.withdraw 0)
  rw [edges_succ legal counts, Level, turn, wire, misses, decide_eq_true rfl, Bool.true_and]
  dsimp only
  simp only [asks, takesBack, isSpurious, reduceCtorEq, decide_true, decide_false, Bool.true_and, Bool.false_and] at raised withdrawn
  cases low : channel.output with
  | false =>
      have silent : requested system.pics 0 = false := by
        rw [Level, low] at level
        exact Bool.eq_false_of_not_eq_true fun asked => Bool.false_ne_true (level asked)
      rw [silent] at raised
      cases high : channel.clock.output with
      | false =>
          refine ⟨rfl, fun asked => ?_⟩
          exact absurd (asked.symm.trans silent) (by decide)
      | true =>
          refine ⟨?_, fun _ => rfl⟩
          change accounted 0 (step kernel (.raise 0) system) + 0 + _ = accounted 0 system + (_ + 1)
          change accounted 0 (step kernel (.raise 0) system) + 0 = accounted 0 system + 1 + 0 at raised
          omega
  | true =>
      cases high : channel.clock.output with
      | false =>
          refine ⟨?_, fun asked => ?_⟩
          · change accounted 0 (step kernel (.withdraw 0) system) + (requested system.pics 0).toNat + _ =
              accounted 0 system + (_ + 0)
            change accounted 0 (step kernel (.withdraw 0) system) + (requested system.pics 0).toNat =
              accounted 0 system + 0 + 0 at withdrawn
            omega
          · change requested (step kernel (.withdraw 0) system).pics 0 = true at asked
            rw [Irq.step, if_pos zero_hasDevice, requested_withdraw zero_hasDevice zero_hasDevice] at asked
            simp at asked
      | true => exact ⟨rfl, fun _ => rfl⟩

/-! What a step does to the program. -/

theorem enter_program (interrupt : Byte) (system : System) : (enter kernel interrupt system).program = system.program := by
  rw [enter]
  split
  · rfl
  · split <;> rfl

theorem perform_program (op : Op) (system : System) : (perform kernel op system).program = system.program := by
  cases op <;> rfl

theorem interruptStep_program (system : System) : (interruptStep kernel system).program = system.program := by
  rw [interruptStep]
  split
  · split <;> rfl
  · rfl
  · exact enter_program ..
  · exact perform_program ..
  · rfl

theorem programStep_cases (system : System) (channel : Channel) :
    (programStep kernel system = system ∧ written system channel = channel) ∨
      ∃ op rest, system.program = op :: rest ∧ (programStep kernel system).program = rest ∧ written system channel = issued op channel := by
  rw [programStep, written]
  cases place : system.place with
  | program =>
      cases program : system.program with
      | nil => exact .inl ⟨rfl, rfl⟩
      | cons op rest => exact .inr ⟨op, rest, rfl, perform_program .., rfl⟩
  | recognised | chosen line | handling left | panicked | fault => exact .inl ⟨rfl, rfl⟩

theorem step_program (actor : Actor) (other : actor ≠ .program) (system : System) :
    (step kernel actor system).program = system.program := by
  cases actor with
  | program => exact absurd rfl other
  | interrupt => exact interruptStep_program system
  | raise line | withdraw line =>
      rw [step]
      split <;> rfl

theorem wire_program (system : System) : (wire kernel before after system).program = system.program := by
  rw [wire]
  split
  · exact step_program (.raise 0) nofun system
  · split
    · exact step_program (.withdraw 0) nofun system
    · rfl

theorem turn_program (next : Turn) (other : next ≠ .other .program) (board : Board) :
    (turn kernel next board).system.program = board.system.program := by
  cases next with
  | clock => exact wire_program _
  | other actor =>
      cases actor with
      | program => exact absurd rfl other
      | interrupt => exact interruptStep_program _
      | raise line =>
          rw [turn]
          split
          · rfl
          · exact @step_program kernel (.raise line) nofun board.system
      | withdraw line =>
          rw [turn]
          split
          · rfl
          · exact @step_program kernel (.withdraw line) nofun board.system

/-- Other writes are not for the timer. -/
def SparesTimer (op : Op) : Prop :=
  ∀ write, op = .out write → write.port ≠ Pit.modeCommandPort ∧ write.port ≠ Pit.channel0Port

theorem SparesTimer.issued {op : Op} (spares : SparesTimer op) (channel : Channel) : issued op channel = channel := by
  rw [Irq.issued.eq_def]
  split
  · next write =>
      obtain ⟨mode, data⟩ := spares write rfl
      rw [Pit.portOut, if_neg mode, if_neg data]
  · rfl

theorem written_spared (spares : ∀ op ∈ system.program, SparesTimer op) (channel : Channel) : written system channel = channel := by
  rw [written]
  split
  · next op rest place program => exact (spares op (by rw [program]; exact List.mem_cons_self)).issued channel
  · rfl

/-- The timer runs, and the rest of the program lets it. -/
structure Timed (kernel : Kernel) (count : BitVec 16) (elapsed : Nat) (board : Board) : Prop where
  running : Running kernel board.system
  level : Level board
  counts : Counts count elapsed board.channel
  spares : ∀ op ∈ board.system.program, SparesTimer op

/-- Clocks among the turns. -/
def clocks (schedule : List Turn) : Nat := schedule.count .clock

theorem Timed.clock (timed : Timed kernel count elapsed board) (placed : kernel.image.Placed)
    (present : kernel.irqCommonHandler ≠ 0) (legal : count ≠ 1) : Timed kernel count (elapsed + 1) (turn kernel .clock board) where
  running := by
    change Running kernel (wire kernel _ _ _)
    rw [wire]
    split
    · exact timed.running.step placed present _
    · split
      · exact timed.running.step placed present _
      · exact timed.running
  level := (clock_accounted timed.running present timed.level timed.counts legal).2
  counts := timed.counts.clock legal
  spares := by
    rw [turn_program .clock nofun]
    exact timed.spares

theorem isSpurious_zero (actor : Actor) (system : System) : isSpurious 0 actor system = false := by
  rw [isSpurious]
  split <;> simp

/-- Somebody else's turn. -/
theorem Timed.other (timed : Timed kernel count elapsed board) (placed : kernel.image.Placed)
    (present : kernel.irqCommonHandler ≠ 0) (actor : Actor) :
    Timed kernel count elapsed (turn kernel (.other actor) board) ∧
      accounted 0 (turn kernel (.other actor) board).system = accounted 0 board.system := by
  obtain ⟨running, level, counts, spares⟩ := timed
  have kept := step_accounted running present zero_hasDevice
  cases actor with
  | program =>
      have same : turn kernel (.other .program) board = ⟨programStep kernel board.system, board.channel⟩ := by
        rw [turn, written_spared spares, wire_same]
        rfl
      rw [same]
      refine ⟨⟨running.step placed present .program, fun asked => level ?_, counts, ?_⟩, programStep_accounted running⟩
      · exact (requested_programStep running).symm.trans asked
      · rcases @programStep_cases kernel board.system board.channel with ⟨still, _⟩ | ⟨op, rest, program, popped, _⟩
        · dsimp only
          rw [still]
          exact spares
        · dsimp only
          rw [popped]
          exact fun op member => spares op (by rw [program]; exact List.mem_cons_of_mem _ member)
  | interrupt =>
      refine ⟨⟨running.step placed present .interrupt, fun asked => level (requested_interruptStep running asked), counts, ?_⟩, ?_⟩
      · rw [turn_program (.other .interrupt) (by rintro ⟨⟩)]
        exact spares
      · have plain := kept .interrupt
        rw [isSpurious_zero] at plain
        exact plain
  | raise line =>
      by_cases timer : line = 0
      · rw [turn, if_pos timer]
        exact ⟨⟨running, level, counts, spares⟩, rfl⟩
      · rw [turn, if_neg timer]
        refine ⟨⟨running.step placed present (.raise line), fun asked => level ?_, counts, ?_⟩, ?_⟩
        · dsimp only at asked
          rw [step] at asked
          split at asked
          · next device =>
              dsimp only at asked
              rwa [requested_raise zero_hasDevice device, decide_eq_false timer, Bool.or_false] at asked
          · exact asked
        · dsimp only
          rw [step_program (.raise line) (by rintro ⟨⟩)]
          exact spares
        · have plain := kept (.raise line)
          have silent : asks 0 (.raise line) board.system = false := by simp [asks, timer]
          rw [isSpurious_zero, silent] at plain
          exact plain
  | withdraw line =>
      by_cases timer : line = 0
      · rw [turn, if_pos timer]
        exact ⟨⟨running, level, counts, spares⟩, rfl⟩
      · rw [turn, if_neg timer]
        refine ⟨⟨running.step placed present (.withdraw line), fun asked => level ?_, counts, ?_⟩, ?_⟩
        · dsimp only at asked
          rw [step] at asked
          split at asked
          · next device =>
              dsimp only at asked
              rwa [requested_withdraw zero_hasDevice device, decide_eq_true timer, Bool.and_true] at asked
          · exact asked
        · dsimp only
          rw [step_program (.withdraw line) (by rintro ⟨⟩)]
          exact spares
        · have plain := kept (.withdraw line)
          have silent : takesBack 0 (.withdraw line) board.system = false := by simp [takesBack, timer]
          rw [isSpurious_zero, silent] at plain
          exact plain

theorem Timed.turns (timed : Timed kernel count elapsed board) (placed : kernel.image.Placed)
    (present : kernel.irqCommonHandler ≠ 0) (legal : count ≠ 1) (schedule : List Turn) :
    Timed kernel count (elapsed + clocks schedule) (turns kernel schedule board) ∧
      accounted 0 (Irq.turns kernel schedule board).system + missed kernel schedule board + edges count elapsed =
        accounted 0 board.system + edges count (elapsed + clocks schedule) := by
  induction schedule generalizing board elapsed with
  | nil => exact ⟨timed, rfl⟩
  | cons next schedule ih =>
      rw [Irq.turns, List.foldl_cons, ← Irq.turns, missed, clocks]
      cases next with
      | clock =>
          have first := (clock_accounted timed.running present timed.level timed.counts legal).1
          obtain ⟨after, rest⟩ := ih (timed.clock placed present legal)
          rw [List.count_cons_self, ← Nat.add_assoc, Nat.add_right_comm]
          rw [clocks] at after rest
          refine ⟨after, ?_⟩
          omega
      | other actor =>
          obtain ⟨here, same⟩ := timed.other placed present actor
          obtain ⟨after, rest⟩ := ih here
          rw [List.count_cons_of_ne (show Turn.other actor ≠ Turn.clock from fun same => nomatch same)]
          rw [clocks] at after rest
          have none : misses (.other actor) board = false := by simp [misses]
          rw [none]
          refine ⟨after, ?_⟩
          change _ + (0 + _) + _ = _
          omega

/-! From the start on. -/

theorem turn_cases (next : Turn) (board : Board) :
    ((turn kernel next board).system.program = board.system.program ∧
        ((turn kernel next board).channel = board.channel ∨ (turn kernel next board).channel = board.channel.clock)) ∨
      ∃ op rest, board.system.program = op :: rest ∧ (turn kernel next board).system.program = rest ∧
        (turn kernel next board).channel = issued op board.channel := by
  by_cases own : next = .other .program
  · subst own
    have wired : (turn kernel (.other .program) board).system.program = (programStep kernel board.system).program := wire_program _
    rcases @programStep_cases kernel board.system board.channel with ⟨still, same⟩ | ⟨op, rest, program, popped, same⟩
    · rw [still] at wired
      exact .inl ⟨wired, .inl same⟩
    · exact .inr ⟨op, rest, program, wired.trans popped, same⟩
  · refine .inl ⟨turn_program next own board, ?_⟩
    cases next with
    | clock => exact .inr rfl
    | other actor =>
        refine .inl ?_
        cases actor with
        | program => exact absurd rfl own
        | interrupt => rfl
        | raise line | withdraw line =>
            rw [turn]
            split <;> rfl

theorem Sound.wire {rest : List Op} (sound : Sound kernel rest system) (placed : kernel.image.Placed)
    (present : kernel.irqCommonHandler ≠ 0) (permitted : ∀ op ∈ rest, Permitted kernel op) :
    Sound kernel rest (wire kernel before after system) := by
  rw [Irq.wire]
  split
  · exact sound.step placed present permitted _
  · split
    · exact sound.step placed present permitted _
    · exact sound

theorem Sound.turn {rest : List Op} (sound : Sound kernel rest board.system) (placed : kernel.image.Placed)
    (present : kernel.irqCommonHandler ≠ 0) (permitted : ∀ op ∈ rest, Permitted kernel op) (next : Turn) :
    Sound kernel rest (turn kernel next board).system := by
  have stepped := sound.step placed present permitted
  cases next with
  | clock => exact sound.wire placed present permitted
  | other actor =>
      cases actor with
      | program => exact (stepped .program).wire placed present permitted
      | interrupt => exact stepped .interrupt
      | raise line =>
          rw [Irq.turn]
          split
          · exact sound
          · exact stepped (.raise line)
      | withdraw line =>
          rw [Irq.turn]
          split
          · exact sound
          · exact stepped (.withdraw line)

/-- How far the program has come with the timer. What it does behind it is `later`. -/
inductive Programming (divisor : Word) (later : List Op) (board : Board) : Prop where
  | before (left : List Op) (program : board.system.program = left ++ timerPitInit divisor ++ later)
  | selected (program : board.system.program = (timerPitInit divisor).drop 1 ++ later) (awaits : Awaits board.channel)
      (first : board.channel.writesHigh = false)
  | disabled (program : board.system.program = (timerPitInit divisor).drop 2 ++ later) (awaits : Awaits board.channel)
      (first : board.channel.writesHigh = false)
  | half (program : board.system.program = (timerPitInit divisor).drop 3 ++ later) (awaits : Awaits board.channel)
      (second : board.channel.writesHigh = true) (low : board.channel.low = divisor.setWidth 8)

variable {divisor : Word} {later : List Op}

theorem Programming.longer (programming : Programming divisor later board) : later.length + 2 ≤ board.system.program.length := by
  cases programming with
  | before left program =>
      rw [program, List.length_append, List.length_append, timerPitInit]
      simp only [List.length_cons]
      omega
  | selected program | disabled program | half program =>
      rw [program, timerPitInit]
      simp only [List.drop_succ_cons, List.drop_zero, List.length_append, List.length_cons]
      omega

/-- Awaiting its count, the channel has no use for a clock. -/
theorem Programming.congr (programming : Programming divisor later board) {next : Board}
    (program : next.system.program = board.system.program)
    (channel : next.channel = board.channel ∨ next.channel = board.channel.clock) : Programming divisor later next := by
  have same : Awaits board.channel → next.channel = board.channel := by
    intro awaits
    rcases channel with same | clocked
    · exact same
    · exact clocked.trans awaits.clock
  cases programming with
  | before left before => exact .before left (program.trans before)
  | selected before awaits first =>
      refine .selected (program.trans before) ?_ ?_
      · rwa [same awaits]
      · rwa [same awaits]
  | disabled before awaits first =>
      refine .disabled (program.trans before) ?_ ?_
      · rwa [same awaits]
      · rwa [same awaits]
  | half before awaits second low =>
      refine .half (program.trans before) ?_ ?_ ?_
      · rwa [same awaits]
      · rwa [same awaits]
      · rwa [same awaits]

/-- The next write, or the end of the count. -/
theorem Programming.issue (programming : Programming divisor later board) {next : Board} {op : Op} {rest : List Op}
    (program : board.system.program = op :: rest) (popped : next.system.program = rest)
    (channel : next.channel = issued op board.channel) :
    Programming divisor later next ∨ next.system.program = .interruptFlag true :: later ∧ Counts (divisor.setWidth 16) 0 next.channel := by
  cases programming with
  | before left before =>
      rw [program] at before
      cases left with
      | nil =>
          obtain ⟨rfl, rfl⟩ := List.cons.inj before
          refine .inl (.selected popped ?_ ?_)
          · rw [channel]
            exact ⟨rfl, rfl, rfl, rfl⟩
          · rw [channel]
            rfl
      | cons first left =>
          obtain ⟨rfl, rfl⟩ := List.cons.inj before
          exact .inl (.before left popped)
  | selected before awaits first =>
      rw [program] at before
      obtain ⟨rfl, rfl⟩ := List.cons.inj before
      change next.channel = board.channel at channel
      refine .inl (.disabled popped ?_ ?_)
      · rwa [channel]
      · rwa [channel]
  | disabled before awaits first =>
      rw [program] at before
      obtain ⟨rfl, rfl⟩ := List.cons.inj before
      change next.channel = board.channel.writeCount _ at channel
      rw [Pit.writeCount_low awaits.access first] at channel
      refine .inl (.half popped ?_ ?_ ?_)
      · rw [channel]
        exact ⟨awaits.access, awaits.square, awaits.stopped, awaits.output⟩
      · rw [channel]
      · rw [channel]
  | half before awaits second low =>
      rw [program] at before
      obtain ⟨rfl, rfl⟩ := List.cons.inj before
      have bytes := Pit.append_bytes divisor
      rw [Pit.setWidth_and_low, Pit.setWidth_and_low] at bytes
      change next.channel = board.channel.writeCount ((divisor >>> 8).setWidth 8) at channel
      rw [Pit.writeCount_high awaits.access second, low, bytes] at channel
      refine .inr ⟨popped, ?_⟩
      rw [channel]
      exact awaits.complete _

/-- The timer runs, or will. -/
def Prepared (kernel : Kernel) (rest later : List Op) (divisor : Word) (board : Board) : Prop :=
  (Sound kernel rest board.system ∧ Programming divisor later board) ∨ ∃ elapsed, Timed kernel (divisor.setWidth 16) elapsed board

variable {rest : List Op}

theorem Prepared.turn (prepared : Prepared kernel rest later divisor board) (placed : kernel.image.Placed)
    (present : kernel.irqCommonHandler ≠ 0) (permitted : ∀ op ∈ rest, Permitted kernel op) (spares : ∀ op ∈ later, SparesTimer op)
    (short : later.length < rest.length) (legal : divisor.setWidth 16 ≠ 1) (next : Turn) :
    Prepared kernel rest later divisor (turn kernel next board) := by
  obtain ⟨sound, programming⟩ | ⟨elapsed, timed⟩ := prepared
  · have after := sound.turn placed present permitted next
    rcases @turn_cases kernel next board with ⟨still, channel⟩ | ⟨op, left, program, popped, channel⟩
    · exact .inl ⟨after, programming.congr still channel⟩
    · rcases programming.issue program popped channel with goesOn | ⟨left, counts⟩
      · exact .inl ⟨after, goesOn⟩
      · refine .inr ⟨0, ?_, fun _ => ?_, counts, ?_⟩
        -- `IRQ_initialize` is long over.
        · obtain ⟨setup, starting⟩ | running := after
          · have lengths := congrArg List.length (starting.program.symm.trans left)
            simp only [List.length_append, List.length_cons] at lengths
            omega
          · exact running
        · rw [counts.output, decide_eq_true (.inl rfl)]
        · rw [left]
          exact List.forall_mem_cons.mpr ⟨nofun, spares⟩
  · cases next with
    | clock => exact .inr ⟨elapsed + 1, timed.clock placed present legal⟩
    | other actor => exact .inr ⟨elapsed, (timed.other placed present actor).1⟩

theorem Prepared.turns (prepared : Prepared kernel rest later divisor board) (placed : kernel.image.Placed)
    (present : kernel.irqCommonHandler ≠ 0) (permitted : ∀ op ∈ rest, Permitted kernel op) (spares : ∀ op ∈ later, SparesTimer op)
    (short : later.length < rest.length) (legal : divisor.setWidth 16 ≠ 1) (schedule : List Turn) :
    Prepared kernel rest later divisor (turns kernel schedule board) := by
  induction schedule generalizing board with
  | nil => exact prepared
  | cons next schedule ih => exact ih (prepared.turn placed present permitted spares short legal next)

variable {clearTicks timerHandler keyboardHandler : Handler} {ops : List Op}

/-- Whatever timer, controllers and memory were before, once `timer_initialize` has
returned the output of the timer rises every 11931 clocks, and at any later time
`IRQ_common_handler` has been called for line 0 as often as the output has risen,
or is about to be: but for a rise that is not heard before the output falls again. -/
theorem ticks_accounted (placed : kernel.image.Placed) (present : kernel.irqCommonHandler ≠ 0)
    (keeps : ∀ change ∈ [clearTicks, timerHandler, keyboardHandler], Keeps kernel change) (permitted : ∀ op ∈ ops, Permitted kernel op)
    (spares : ∀ op ∈ ops, SparesTimer op) (pics : Pair) (memory : ByteMemory) (channel : Channel) (first : List Turn) :
    let board := turns kernel first
      ⟨reset pics memory (halInitialize kernel clearTicks timerHandler keyboardHandler ++ ops), channel⟩
    board.system.program <:+ keyboardInitialize keyboardHandler ++ ops →
    ∃ elapsed, Counts 11931 elapsed board.channel ∧ ∀ schedule,
      let after := turns kernel schedule board
      Counts 11931 (elapsed + clocks schedule) after.channel ∧
      accounted 0 after.system + missed kernel schedule board + (elapsed - 1) / 11931 =
        accounted 0 board.system + (elapsed + clocks schedule - 1) / 11931 := by
  intro board returned
  have allowed : ∀ op ∈ timerInitialize clearTicks timerHandler ++ keyboardInitialize keyboardHandler ++ ops, Permitted kernel op :=
    List.forall_mem_append.mpr ⟨initialize_permitted keeps, permitted⟩
  have spared : ∀ op ∈ keyboardInitialize keyboardHandler ++ ops, SparesTimer op :=
    List.forall_mem_append.mpr ⟨List.forall_mem_singleton.mpr nofun, spares⟩
  have prepared : Prepared kernel (timerInitialize clearTicks timerHandler ++ keyboardInitialize keyboardHandler ++ ops)
      (keyboardInitialize keyboardHandler ++ ops) (pitFreq / timerFreq) board := by
    refine Prepared.turns (.inl ⟨sound_reset placed clearTicks timerHandler keyboardHandler pics memory ops, ?_⟩) placed present
      allowed spared ?_ (by decide) first
    · refine .before (setup kernel ++ .interruptFlag true :: [.work clearTicks, .setIrqHandler 0 timerHandler]) ?_
      change halInitialize kernel clearTicks timerHandler keyboardHandler ++ ops = _
      rw [halInitialize_eq, timerInitialize]
      simp only [List.append_assoc, List.cons_append, List.nil_append]
    · simp only [timerInitialize, List.length_append, List.length_cons]
      omega
  obtain ⟨_, programming⟩ | ⟨elapsed, timed⟩ := prepared
  · have longer := programming.longer
    have shorter := returned.length_le
    omega
  · refine ⟨elapsed, timed.counts, fun schedule => ?_⟩
    obtain ⟨after, sum⟩ := timed.turns placed present (by decide) schedule
    exact ⟨after.counts, sum⟩

/-- `HAL_initialize` with a clock at every step, on a timer in the middle of other
things: its output rises with the control word, which is a request too. -/
def clockedBoard : Board :=
  turns someKernel ((List.replicate 45 [.other .program, .clock]).flatten)
    ⟨reset somePics (fun _ => 0) (someProgram ++ []), Pit.strayTimer.channel⟩

set_option maxRecDepth 20000 in
theorem ticks_accounted_clocked : ∃ elapsed, ∀ schedule,
    accounted 0 (turns someKernel schedule clockedBoard).system + missed someKernel schedule clockedBoard + (elapsed - 1) / 11931 =
      1 + (elapsed + clocks schedule - 1) / 11931 := by
  have counted := @ticks_accounted someKernel _ _ _ [] ⟨by decide, by decide, by decide⟩ (by decide) someKernel_keeps nofun nofun
    somePics (fun _ => 0) Pit.strayTimer.channel ((List.replicate 45 [.other .program, .clock]).flatten)
  have one : accounted 0 clockedBoard.system = 1 := rfl
  have returned : clockedBoard.system.program = [] := rfl
  obtain ⟨elapsed, _, runs⟩ := counted (by
    change clockedBoard.system.program <:+ _
    rw [returned]
    exact List.nil_suffix)
  refine ⟨elapsed, fun schedule => ?_⟩
  have sum := (runs schedule).2
  change accounted 0 (turns someKernel schedule clockedBoard).system + missed someKernel schedule clockedBoard + _ =
    accounted 0 clockedBoard.system + _ at sum
  rwa [one] at sum

end Irq

end ScratchOs
