import ScratchOs.Data.Interleaving
import ScratchOs.Drivers.Pic
import ScratchOs.Interrupts.Dispatch
import ScratchOs.Machine.Pit8254

namespace ScratchOs

open Data Pit8254

/-! `drivers/pit.c` while the timer goes on counting, and while interrupt handlers
read the count themselves. -/

namespace Pit

def channel0Port : BitVec 16 := 0x40
def modeCommandPort : BitVec 16 := 0x43

def selectChannel0 : Byte := 0x0 <<< 6
def accessModeLoHiByte : Byte := 0x3 <<< 4
def mode3 : Byte := 0x3 <<< 1

/-- `watch` is no instruction: whoever watches a call notes how many clocks there have been. -/
inductive Op where
  | out (write : Pic.PortWrite)
  | input (port : BitVec 16)
  | interruptFlag (value : Bool)
  | watch

@[reducible] def Op.Answer : Op → Type
  | .input _ => Byte
  | .out _ | .interruptFlag _ => Unit
  | .watch => Nat

abbrev Code (α : Type) := Program Op Op.Answer α

def portByteOut (port : BitVec 16) (data : Byte) : Code Unit := Program.op (Op.out ⟨port, data⟩)
def portByteIn (port : BitVec 16) : Code Byte := Program.op (Op.input port)
def disableInterrupts : Code Unit := Program.op (Op.interruptFlag false)
def enableInterrupts : Code Unit := Program.op (Op.interruptFlag true)

def setPitChannelCount (channel : Byte) (count : Word) : Code Unit := do
  disableInterrupts
  portByteOut (channel.setWidth 16) ((count &&& 0xFF).setWidth 8)
  portByteOut (channel.setWidth 16) (((count >>> 8) &&& 0xFF).setWidth 8)
  enableInterrupts

def readPitCount : Code (BitVec 16) := do
  disableInterrupts
  portByteOut modeCommandPort 0b0000000
  let low ← portByteIn channel0Port
  let high ← portByteIn channel0Port
  enableInterrupts
  pure (low.setWidth 16 ||| high.setWidth 16 <<< 8)

def timerPitInit (divisor : Word) : Code Unit := do
  portByteOut modeCommandPort (selectChannel0 ||| accessModeLoHiByte ||| mode3)
  setPitChannelCount (channel0Port.setWidth 8) divisor

/-- `clocks` counts the input clocks. -/
structure System where
  channel : Channel
  clocks : Nat
  interruptFlag : Bool

def System.tick (system : System) : System :=
  { system with channel := system.channel.clock, clocks := system.clocks + 1 }

/-- Writes to other ports are not for the channel, and none is read. -/
def portOut (write : Pic.PortWrite) (channel : Channel) : Channel :=
  if write.port = modeCommandPort then channel.writeControl write.value
  else if write.port = channel0Port then channel.writeCount write.value
  else channel

def execute (op : Op) (system : System) : Option (op.Answer × System) :=
  match op with
  | .out write => some ((), { system with channel := portOut write system.channel })
  | .input port =>
      if port = channel0Port then
        some (system.channel.readCount.1, { system with channel := system.channel.readCount.2 })
      else none
  | .interruptFlag value => some ((), { system with interruptFlag := value })
  | .watch => some (system.clocks, system)

/-- A clock at any time, and with interrupts enabled a handler that reads the
count; handlers may interrupt each other up to this depth. -/
def environment : Nat → Option Op → System → System → Prop
  | 0, _, system, after => after = system.tick
  | depth + 1, _, system, after =>
      after = system.tick ∨
        system.interruptFlag = true ∧ ∃ count stop,
          Program.Reaches execute (environment depth) (readPitCount, { system with interruptFlag := false })
            (.done count, stop) ∧
          after = { stop with interruptFlag := true }

abbrev Reaches (depth : Nat) {α : Type} (before after : Code α × System) : Prop :=
  Program.Reaches execute (environment depth) before after

/-- What a call of `read_pit_count` returned, and the clocks at its begin and at its end. -/
structure Reading where
  began : Nat
  count : BitVec 16
  ended : Nat

def watchedCount : Code Reading := do
  let began ← Program.op Op.watch
  let count ← readPitCount
  let ended ← Program.op Op.watch
  pure ⟨began, count, ended⟩

/-- Calls of `read_pit_count` one after the other. -/
def readCounts : Nat → Code (List Reading)
  | 0 => pure []
  | calls + 1 => do
      let reading ← watchedCount
      let readings ← readCounts calls
      pure (reading :: readings)

/-- What the code does to the ports and the flag, in the terms of `Irq`. -/
def Op.traced : Op → Option Irq.Op
  | .out write => some (.out write)
  | .input _ | .watch => none
  | .interruptFlag value => some (.interruptFlag value)

def trace {α : Type} : Code α → (answers : (op : Op) → op.Answer) → List Irq.Op
  | .done _, _ => []
  | .ask op next, answers => op.traced.toList ++ trace (next (answers op)) answers

theorem setWidth_and_low (word : Word) : (word &&& 0xFF).setWidth 8 = word.setWidth 8 := by
  apply BitVec.eq_of_getLsbD_eq
  intro place inside
  have low : ∀ place < 8, (0xFF : Word).getLsbD place = true := by decide
  rw [BitVec.getLsbD_setWidth, BitVec.getLsbD_setWidth, BitVec.getLsbD_and, low place inside, Bool.and_true]

/-- Whatever is read, the timer is programmed with the operations of `Irq.timerPitInit`. -/
theorem trace_timerPitInit (divisor : Word) (answers : (op : Op) → op.Answer) :
    trace (timerPitInit divisor) answers = Irq.timerPitInit divisor := by
  have traced : trace (timerPitInit divisor) answers = [.out ⟨0x43, 0x36⟩, .interruptFlag false,
      .out ⟨0x40, (divisor &&& 0xFF).setWidth 8⟩, .out ⟨0x40, ((divisor >>> 8) &&& 0xFF).setWidth 8⟩,
      .interruptFlag true] := rfl
  rw [traced, setWidth_and_low, setWidth_and_low]
  rfl

/-! Reading the count. -/

/-- The channel has been left to its clock since it was like `base`. -/
structure At (base : Channel) (begun elapsed : Nat) (system : System) : Prop where
  clocks : system.clocks = begun + elapsed
  channel : system.channel = Channel.clock^[elapsed] base

/-- What was latched is waiting, with interrupts disabled. -/
structure Latched (base : Channel) (begun elapsed : Nat) (count : BitVec 16) (readsHigh : Bool) (system : System) : Prop where
  clocks : system.clocks = begun + elapsed
  channel : system.channel = { Channel.clock^[elapsed] base with latch := some count, readsHigh }
  interruptFlag : system.interruptFlag = false

/-- The count that was shown at one moment. -/
def Shown (base : Channel) (first elapsed : Nat) (count : BitVec 16) : Prop :=
  ∃ instant, first ≤ instant ∧ instant ≤ elapsed ∧ count = (Channel.clock^[instant] base).element

variable {base : Channel} {begun first elapsed depth : Nat} {count : BitVec 16} {readsHigh : Bool} {system after : System}
  {pending : Option Op}

theorem Shown.mono {later : Nat} (shown : Shown base first elapsed count) (le : elapsed ≤ later) : Shown base first later count := by
  obtain ⟨instant, lower, upper, same⟩ := shown
  exact ⟨instant, lower, upper.trans le, same⟩

theorem At.tick (at' : At base begun elapsed system) : At base begun (elapsed + 1) system.tick where
  clocks := congrArg Nat.succ at'.clocks
  channel := by
    rw [Function.iterate_succ_apply', ← at'.channel]
    rfl

theorem clock_latched (channel : Channel) (latch : Option (BitVec 16)) (readsHigh : Bool) :
    ({ channel with latch, readsHigh } : Channel).clock = { channel.clock with latch, readsHigh } := by
  let change (channel : Channel) : Channel := { channel with latch, readsHigh }
  obtain ⟨access, square, phase, given, low, writesHigh, owed, unread, loaded, element, output⟩ := channel
  cases square with
  | false => rfl
  | true =>
      cases phase with
      | stopped | loading => rfl
      | counting =>
          let channel : Channel := ⟨access, true, .counting, given, low, writesHigh, owed, unread, loaded, element, output⟩
          by_cases ends : channel.expired = true
          · have plain : channel.clock = { channel.load with output := !channel.output } := if_pos ends
            have latched : (change channel).clock = { (change channel).load with output := !(change channel).output } :=
              if_pos ends
            exact latched.trans (congrArg change plain).symm
          · have plain : channel.clock = { channel with element := channel.element - 2 } := if_neg ends
            have latched : (change channel).clock = { change channel with element := (change channel).element - 2 } :=
              if_neg ends
            exact latched.trans (congrArg change plain).symm

theorem Latched.tick (latched : Latched base begun elapsed count readsHigh system) :
    Latched base begun (elapsed + 1) count readsHigh system.tick where
  clocks := congrArg Nat.succ latched.clocks
  channel := by
    rw [Function.iterate_succ_apply', ← clock_latched, ← latched.channel]
    rfl
  interruptFlag := latched.interruptFlag

theorem iterate_aligned (aligned : Aligned base) (elapsed : Nat) : Aligned (Channel.clock^[elapsed] base) := by
  induction elapsed with
  | zero => exact aligned
  | succ elapsed ih =>
      rw [Function.iterate_succ_apply']
      exact ih.clock

theorem environment_disabled (disabled : system.interruptFlag = false) (acted : environment depth pending system after) :
    after = system.tick := by
  cases depth with
  | zero => exact acted
  | succ depth =>
      rcases acted with ticked | ⟨enabled, _⟩
      · exact ticked
      · rw [disabled] at enabled
        cases enabled

theorem stable_latched : Program.Stable (environment depth) pending fun system =>
    ∃ elapsed, Shown base first elapsed count ∧ Latched base begun elapsed count readsHigh system := by
  rintro system after ⟨elapsed, shown, latched⟩ acted
  rw [environment_disabled latched.interruptFlag acted]
  exact ⟨elapsed + 1, shown.mono (Nat.le_succ elapsed), latched.tick⟩

/-- Before and after a call. -/
def Follows (base : Channel) (begun first : Nat) (system : System) : Prop :=
  ∃ elapsed, first ≤ elapsed ∧ At base begun elapsed system

theorem joined_bytes (count : BitVec 16) :
    (count.setWidth 8).setWidth 16 ||| ((count >>> 8).setWidth 8).setWidth 16 <<< 8 = count := by
  apply BitVec.eq_of_getLsbD_eq
  intro place inside
  rw [BitVec.getLsbD_or, BitVec.getLsbD_shiftLeft, BitVec.getLsbD_setWidth, BitVec.getLsbD_setWidth, BitVec.getLsbD_setWidth,
    BitVec.getLsbD_setWidth, BitVec.getLsbD_ushiftRight]
  by_cases low : place < 8
  · simp [inside, low]
  · simp [inside, low, show place - 8 < 8 by omega, show 8 + (place - 8) = place by omega]
    omega

theorem execute_latch (aligned : Aligned base) (at' : At base begun elapsed system)
    (disabled : system.interruptFlag = false) :
    ∃ after, execute (.out ⟨modeCommandPort, 0b0000000⟩) system = some ((), after) ∧
      Latched base begun elapsed (Channel.clock^[elapsed] base).element false after := by
  have kept := iterate_aligned aligned elapsed
  refine ⟨_, rfl, at'.clocks, ?_, disabled⟩
  change ({ system.channel with latch := some (system.channel.latch.getD system.channel.element) } : Channel) = _
  rw [at'.channel, kept.latch, Option.getD_none]
  exact congrArg (fun owed => ({ Channel.clock^[elapsed] base with readsHigh := owed, latch := _ } : Channel)) kept.readsHigh

theorem execute_low (aligned : Aligned base) (latched : Latched base begun elapsed count false system) :
    ∃ after, execute (.input channel0Port) system = some (count.setWidth 8, after) ∧
      Latched base begun elapsed count true after := by
  have access := (iterate_aligned aligned elapsed).access
  have read : system.channel.readCount =
      (count.setWidth 8, { Channel.clock^[elapsed] base with latch := some count, readsHigh := true }) := by
    rw [latched.channel, Channel.readCount]
    dsimp only
    rw [access]
    rfl
  refine ⟨{ system with channel := system.channel.readCount.2 }, ?_, latched.clocks, ?_, latched.interruptFlag⟩
  · rw [execute, if_pos rfl, read]
  · rw [read]

theorem execute_high (aligned : Aligned base) (latched : Latched base begun elapsed count true system) :
    ∃ after, execute (.input channel0Port) system = some ((count >>> 8).setWidth 8, after) ∧
      At base begun elapsed after ∧ after.interruptFlag = false := by
  have kept := iterate_aligned aligned elapsed
  have read : system.channel.readCount = ((count >>> 8).setWidth 8, Channel.clock^[elapsed] base) := by
    rw [latched.channel, Channel.readCount]
    dsimp only
    rw [kept.access]
    refine congrArg (Prod.mk _) ?_
    rw [← kept.access, ← kept.latch, ← kept.readsHigh]
  refine ⟨{ system with channel := system.channel.readCount.2 }, ?_, ⟨latched.clocks, ?_⟩, latched.interruptFlag⟩
  · rw [execute, if_pos rfl, read]
  · rw [read]

/-- A call returns a count that was shown while it was under way, and the channel
is as if it had not been read. -/
theorem ensures_readPitCount (aligned : Aligned base)
    (stable : ∀ first pending, Program.Stable (environment depth) pending (Follows base begun first)) :
    Program.Ensures execute (environment depth) (Follows base begun first) readPitCount fun count system =>
      ∃ elapsed, Shown base first elapsed count ∧ At base begun elapsed system := by
  have quiet : ∀ pending, Program.Stable (environment depth) pending fun system =>
      ∃ elapsed, first ≤ elapsed ∧ At base begun elapsed system ∧ system.interruptFlag = false := by
    rintro pending system after ⟨elapsed, later, here, disabled⟩ acted
    rw [environment_disabled disabled acted]
    exact ⟨elapsed + 1, Nat.le_succ_of_le later, here.tick, disabled⟩
  have returns : ∀ low high pending, Program.Stable (environment depth) pending fun system =>
      ∃ (count : BitVec 16) (elapsed : Nat), low = count.setWidth 8 ∧ high = (count >>> 8).setWidth 8 ∧ Shown base first elapsed count ∧
        At base begun elapsed system := by
    rintro low high pending system after ⟨count, elapsed, lowByte, highByte, shown, here⟩ acted
    obtain ⟨later, le, there⟩ := stable elapsed pending system after ⟨elapsed, Nat.le_refl _, here⟩ acted
    exact ⟨count, later, lowByte, highByte, shown.mono le, there⟩
  rw [readPitCount]
  refine @Program.ensures_op _ _ _ _ _ _ _ _ _ _
    (fun _ system => ∃ elapsed, first ≤ elapsed ∧ At base begun elapsed system ∧ system.interruptFlag = false)
    (stable first _) ?_ fun _ => ?_
  · rintro system ⟨elapsed, later, here⟩
    exact ⟨(), _, rfl, elapsed, later, ⟨here.clocks, here.channel⟩, rfl⟩
  refine @Program.ensures_op _ _ _ _ _ _ _ _ _ _
    (fun _ system => ∃ (count : BitVec 16) (elapsed : Nat), Shown base first elapsed count ∧ Latched base begun elapsed count false system)
    (quiet _) ?_ fun _ => ?_
  · rintro system ⟨elapsed, later, here, disabled⟩
    obtain ⟨after, ran, latched⟩ := execute_latch aligned here disabled
    exact ⟨(), after, ran, _, elapsed, ⟨elapsed, later, Nat.le_refl _, rfl⟩, latched⟩
  refine @Program.ensures_op _ _ _ _ _ _ _ _ _ _
    (fun low system => ∃ (count : BitVec 16) (elapsed : Nat), low = count.setWidth 8 ∧ Shown base first elapsed count ∧
      Latched base begun elapsed count true system) ?_ ?_ fun low => ?_
  · rintro system after ⟨count, holds⟩ acted
    exact ⟨count, stable_latched system after holds acted⟩
  · rintro system ⟨count, elapsed, shown, latched⟩
    obtain ⟨after, ran, there⟩ := execute_low aligned latched
    exact ⟨_, after, ran, count, elapsed, rfl, shown, there⟩
  refine @Program.ensures_op _ _ _ _ _ _ _ _ _ _
    (fun high system => ∃ (count : BitVec 16) (elapsed : Nat), low = count.setWidth 8 ∧ high = (count >>> 8).setWidth 8 ∧
      Shown base first elapsed count ∧ At base begun elapsed system ∧ system.interruptFlag = false) ?_ ?_ fun high => ?_
  · rintro system after ⟨count, elapsed, lowByte, shown, latched⟩ acted
    obtain ⟨later, shownLater, there⟩ := stable_latched system after ⟨elapsed, shown, latched⟩ acted
    exact ⟨count, later, lowByte, shownLater, there⟩
  · rintro system ⟨count, elapsed, lowByte, shown, latched⟩
    obtain ⟨after, ran, there, disabled⟩ := execute_high aligned latched
    exact ⟨_, after, ran, count, elapsed, lowByte, rfl, shown, there, disabled⟩
  refine @Program.ensures_op _ _ _ _ _ _ _ _ _ _
    (fun _ system => ∃ (count : BitVec 16) (elapsed : Nat), low = count.setWidth 8 ∧ high = (count >>> 8).setWidth 8 ∧
      Shown base first elapsed count ∧ At base begun elapsed system) ?_ ?_ fun _ => ?_
  · rintro system after ⟨count, elapsed, lowByte, highByte, shown, here, disabled⟩ acted
    rw [environment_disabled disabled acted]
    exact ⟨count, elapsed + 1, lowByte, highByte, shown.mono (Nat.le_succ elapsed), here.tick, disabled⟩
  · rintro system ⟨count, elapsed, lowByte, highByte, shown, here, _⟩
    exact ⟨(), _, rfl, count, elapsed, lowByte, highByte, shown, ⟨here.clocks, here.channel⟩⟩
  refine Program.Ensures.consequence (Program.ensures_done (returns low high none)) (fun _ holds => holds) ?_
  rintro value system ⟨rfl, count, elapsed, rfl, rfl, shown, here⟩
  rw [joined_bytes]
  exact ⟨elapsed, shown, here⟩

theorem stable_follows (aligned : Aligned base) (depth first : Nat) (pending : Option Op) :
    Program.Stable (environment depth) pending (Follows base begun first) := by
  induction depth generalizing first pending with
  | zero =>
      rintro system after ⟨elapsed, later, here⟩ acted
      rw [show after = system.tick from acted]
      exact ⟨elapsed + 1, Nat.le_succ_of_le later, here.tick⟩
  | succ depth ih =>
      rintro system after ⟨elapsed, later, here⟩ acted
      rcases acted with rfl | ⟨_, count, stop, reached, rfl⟩
      · exact ⟨elapsed + 1, Nat.le_succ_of_le later, here.tick⟩
      · have called := ensures_readPitCount aligned ih { system with interruptFlag := false }
          ⟨elapsed, later, here.clocks, here.channel⟩ _ reached
        obtain ⟨stopped, ⟨instant, lower, upper, _⟩, there⟩ := called
        exact ⟨stopped, lower.trans upper, there.clocks, there.channel⟩

/-! Programming the timer. -/

theorem iterate_awaits (awaits : Awaits base) (elapsed : Nat) : Channel.clock^[elapsed] base = base :=
  Function.iterate_fixed awaits.clock elapsed

/-- Behind the control word, whoever reads the count meanwhile. -/
theorem stable_awaits : Program.Stable (environment depth) pending fun system =>
    Awaits system.channel ∧ Aligned system.channel ∧ system.channel.writesHigh = false := by
  rintro system after ⟨awaits, aligned, first⟩ acted
  obtain ⟨elapsed, _, there⟩ := stable_follows aligned depth 0 pending system after ⟨0, Nat.le_refl _, rfl, rfl⟩ acted
  rw [there.channel, iterate_awaits awaits]
  exact ⟨awaits, aligned, first⟩

/-- The count is complete, and nothing but its clock has come to the channel. -/
def Begun (count : BitVec 16) (system : System) : Prop :=
  ∃ base begun, Counts count 0 base ∧ Aligned base ∧ Follows base begun 0 system

theorem stable_begun : Program.Stable (environment depth) pending (Begun count) := by
  rintro system after ⟨base, begun, counts, aligned, follows⟩ acted
  exact ⟨base, begun, counts, aligned, stable_follows aligned depth 0 pending system after follows acted⟩

theorem stable_disabled {holds : Channel → Prop} (clock : ∀ channel, holds channel → holds channel.clock) :
    Program.Stable (environment depth) pending fun system => holds system.channel ∧ system.interruptFlag = false := by
  rintro system after ⟨here, disabled⟩ acted
  rw [environment_disabled disabled acted]
  exact ⟨clock _ here, disabled⟩

theorem append_bytes (divisor : Word) :
    ((divisor >>> 8) &&& 0xFF).setWidth 8 ++ (divisor &&& 0xFF).setWidth 8 = divisor.setWidth 16 := by
  rw [setWidth_and_low, setWidth_and_low]
  apply BitVec.eq_of_getLsbD_eq
  intro place inside
  rw [BitVec.getLsbD_append, BitVec.getLsbD_setWidth, BitVec.getLsbD_setWidth, BitVec.getLsbD_setWidth,
    BitVec.getLsbD_ushiftRight]
  by_cases low : place < 8
  · simp [inside, low]
  · simp [inside, low, show place - 8 < 8 by omega, show 8 + (place - 8) = place by omega]

theorem writeCount_low {channel : Channel} (access : channel.access = .both) (first : channel.writesHigh = false) (value : Byte) :
    channel.writeCount value = { channel with low := value, writesHigh := true } := by
  rw [Channel.writeCount, access]
  dsimp only
  rw [first]
  rfl

theorem writeCount_high {channel : Channel} (access : channel.access = .both) (second : channel.writesHigh = true) (value : Byte) :
    channel.writeCount value = channel.complete (value ++ channel.low) := by
  rw [Channel.writeCount, access]
  dsimp only
  rw [second]
  rfl

/-- Whatever the channel was in the middle of, and whoever reads it meanwhile. -/
theorem ensures_timerPitInit (divisor : Word) :
    Program.Ensures execute (environment depth) (fun _ => True) (timerPitInit divisor)
      fun _ => Begun (divisor.setWidth 16) := by
  let blank (channel : Channel) : Prop := Awaits channel ∧ Aligned channel ∧ channel.writesHigh = false
  let half (channel : Channel) : Prop :=
    Awaits channel ∧ Aligned channel ∧ channel.writesHigh = true ∧ channel.low = (divisor &&& 0xFF).setWidth 8
  have blankKept : ∀ channel, blank channel → blank channel.clock := by
    rintro channel ⟨awaits, rest⟩
    rw [awaits.clock]
    exact ⟨awaits, rest⟩
  have halfKept : ∀ channel, half channel → half channel.clock := by
    rintro channel ⟨awaits, rest⟩
    rw [awaits.clock]
    exact ⟨awaits, rest⟩
  rw [timerPitInit]
  refine @Program.ensures_op _ _ _ _ _ _ _ _ _ _ (fun _ system => blank system.channel) (fun _ _ _ _ => trivial) ?_
    fun _ => ?_
  · intro system _
    exact ⟨(), _, rfl, ⟨rfl, rfl, rfl, rfl⟩, ⟨rfl, rfl, rfl⟩, rfl⟩
  rw [setPitChannelCount]
  refine @Program.ensures_op _ _ _ _ _ _ _ _ _ _
    (fun _ system => blank system.channel ∧ system.interruptFlag = false) stable_awaits ?_ fun _ => ?_
  · intro system holds
    exact ⟨(), _, rfl, holds, rfl⟩
  refine @Program.ensures_op _ _ _ _ _ _ _ _ _ _
    (fun _ system => half system.channel ∧ system.interruptFlag = false) (stable_disabled blankKept) ?_ fun _ => ?_
  · rintro system ⟨⟨awaits, aligned, first⟩, disabled⟩
    refine ⟨(), _, rfl, ?_, disabled⟩
    change half (system.channel.writeCount _)
    rw [writeCount_low awaits.access first]
    exact ⟨⟨awaits.access, awaits.square, awaits.stopped, awaits.output⟩,
      ⟨aligned.access, aligned.readsHigh, aligned.latch⟩, rfl, rfl⟩
  refine @Program.ensures_op _ _ _ _ _ _ _ _ _ _ (fun _ system => Begun (divisor.setWidth 16) system)
    (stable_disabled halfKept) ?_ fun _ => ?_
  · rintro system ⟨⟨awaits, aligned, second, low⟩, disabled⟩
    refine ⟨(), _, rfl, system.channel.complete (divisor.setWidth 16), system.clocks, awaits.complete _,
      ⟨aligned.access, aligned.readsHigh, aligned.latch⟩, 0, Nat.le_refl _, rfl, ?_⟩
    change system.channel.writeCount _ = _
    rw [writeCount_high awaits.access second, low, append_bytes]
    rfl
  refine @Program.ensures_ask _ _ _ _ _ _ _ _ _ _ (fun _ system => Begun (divisor.setWidth 16) system) stable_begun ?_
    fun _ => Program.Ensures.consequence (Program.ensures_done stable_begun) (fun _ holds => holds) fun _ _ ended => ended.2
  rintro system ⟨base, begun, counts, aligned, elapsed, later, here⟩
  exact ⟨(), _, rfl, base, begun, counts, aligned, elapsed, later, here.clocks, here.channel⟩

/-! Reading it again and again. -/

/-- The count was shown at an instant of its own call. -/
def Reading.Faithful (base : Channel) (begun : Nat) (reading : Reading) : Prop :=
  ∃ instant, reading.began ≤ begun + instant ∧ begun + instant ≤ reading.ended ∧
    reading.count = (Channel.clock^[instant] base).element

/-- Calls one behind the other, each with a count of its own time. -/
structure History (base : Channel) (begun first last : Nat) (readings : List Reading) : Prop where
  faithful : ∀ reading ∈ readings, reading.Faithful base begun
  ordered : readings.Pairwise fun earlier later => earlier.ended ≤ later.began
  within : ∀ reading ∈ readings, begun + first ≤ reading.began ∧ reading.ended ≤ begun + last

/-- So many calls have returned these counts. -/
def Returned (base : Channel) (begun first calls : Nat) (readings : List Reading) (system : System) : Prop :=
  ∃ last, first ≤ last ∧ readings.length = calls ∧ History base begun first last readings ∧ At base begun last system

variable {calls last : Nat} {reading : Reading} {readings : List Reading}

theorem stable_shown (aligned : Aligned base) : Program.Stable (environment depth) pending fun system =>
    ∃ elapsed, Shown base first elapsed count ∧ At base begun elapsed system := by
  rintro system after ⟨elapsed, shown, here⟩ acted
  obtain ⟨later, le, there⟩ := stable_follows aligned depth elapsed pending system after ⟨elapsed, Nat.le_refl _, here⟩ acted
  exact ⟨later, shown.mono le, there⟩

theorem stable_returned (aligned : Aligned base) :
    Program.Stable (environment depth) pending (Returned base begun first calls readings) := by
  rintro system after ⟨last, le, length, history, here⟩ acted
  obtain ⟨later, more, there⟩ := stable_follows aligned depth last pending system after ⟨last, Nat.le_refl _, here⟩ acted
  refine ⟨later, le.trans more, length, ⟨history.faithful, history.ordered, fun reading member => ?_⟩, there⟩
  have bounds := history.within reading member
  exact ⟨bounds.1, bounds.2.trans (Nat.add_le_add_left more begun)⟩

/-- The end of a call, when its count has been read. -/
theorem ensures_ended (aligned : Aligned base) (began : Nat) (count : BitVec 16) :
    Program.Ensures execute (environment depth)
      (fun system => ∃ elapsed, Shown base first elapsed count ∧ At base begun elapsed system)
      (do let ended ← Program.op Op.watch; pure ⟨began, count, ended⟩ : Code Reading) fun reading system =>
        ∃ elapsed, reading.began = began ∧ reading.count = count ∧ reading.ended = begun + elapsed ∧
          Shown base first elapsed count ∧ Follows base begun elapsed system := by
  refine @Program.ensures_op _ _ _ _ _ _ _ _ _ _
    (fun ended system => ∃ elapsed, ended = begun + elapsed ∧ Shown base first elapsed count ∧ Follows base begun elapsed system)
    (stable_shown aligned) ?_ fun ended => ?_
  · rintro system ⟨elapsed, shown, here⟩
    exact ⟨_, system, rfl, elapsed, here.clocks, shown, elapsed, Nat.le_refl _, here⟩
  · refine Program.Ensures.consequence (Program.ensures_done ?_) (fun _ holds => holds) ?_
    · rintro system after ⟨elapsed, noted, shown, follows⟩ acted
      exact ⟨elapsed, noted, shown, stable_follows aligned depth elapsed none system after follows acted⟩
    · rintro reading system ⟨rfl, elapsed, noted, shown, follows⟩
      exact ⟨elapsed, rfl, rfl, noted, shown, follows⟩

theorem ensures_watchedCount (aligned : Aligned base) :
    Program.Ensures execute (environment depth) (Follows base begun first) watchedCount fun reading system =>
      ∃ ended, first ≤ ended ∧ begun + first ≤ reading.began ∧ reading.ended = begun + ended ∧
        reading.Faithful base begun ∧ Follows base begun ended system := by
  refine @Program.ensures_op _ _ _ _ _ _ _ _ _ _
    (fun began system => ∃ elapsed, first ≤ elapsed ∧ began = begun + elapsed ∧ Follows base begun elapsed system)
    (stable_follows aligned depth first _) ?_ fun began => ?_
  · rintro system ⟨elapsed, later, here⟩
    exact ⟨_, system, rfl, elapsed, later, here.clocks, elapsed, Nat.le_refl _, here⟩
  rintro system ⟨start, later, rfl, follows⟩
  refine Program.ensures_bind (ensures_readPitCount aligned (stable_follows aligned depth)) (fun count => ?_) system follows
  refine Program.Ensures.consequence (ensures_ended aligned (begun + start) count) (fun _ holds => holds) ?_
  rintro reading after ⟨elapsed, began, same, ended, ⟨instant, lower, upper, shown⟩, there⟩
  refine ⟨elapsed, later.trans (lower.trans upper), ?_, ended, ⟨instant, ?_, ?_, same.trans shown⟩, there⟩
  · rw [began]
    exact Nat.add_le_add_left later begun
  · rw [began]
    exact Nat.add_le_add_left lower begun
  · rw [ended]
    exact Nat.add_le_add_left upper begun

theorem History.cons {ended : Nat} (faithful : reading.Faithful base begun) (began : begun + first ≤ reading.began)
    (later : first ≤ ended) (noted : reading.ended = begun + ended) (le : ended ≤ last)
    (history : History base begun ended last readings) : History base begun first last (reading :: readings) where
  faithful other member := by
    rcases List.mem_cons.mp member with rfl | member
    · exact faithful
    · exact history.faithful other member
  ordered := List.pairwise_cons.mpr ⟨fun other member => noted ▸ (history.within other member).1, history.ordered⟩
  within other member := by
    rcases List.mem_cons.mp member with rfl | member
    · exact ⟨began, noted ▸ Nat.add_le_add_left le begun⟩
    · have bounds := history.within other member
      exact ⟨(Nat.add_le_add_left later begun).trans bounds.1, bounds.2⟩

theorem ensures_readCounts (aligned : Aligned base) (calls : Nat) :
    Program.Ensures execute (environment depth) (Follows base begun first) (readCounts calls)
      fun readings => Returned base begun first calls readings := by
  induction calls generalizing first with
  | zero =>
      refine Program.Ensures.consequence (Program.ensures_done (stable_follows aligned depth first none))
        (fun _ holds => holds) ?_
      rintro readings system ⟨rfl, elapsed, later, here⟩
      refine ⟨elapsed, later, rfl, ⟨fun reading member => ?_, .nil, fun reading member => ?_⟩, here⟩
      · cases member
      · cases member
  | succ calls ih =>
      refine Program.ensures_bind (ensures_watchedCount aligned) fun reading => ?_
      rintro system ⟨ended, later, began, noted, faithful, follows⟩
      -- The next call begins when this one has ended.
      refine Program.ensures_bind (@ih ended) (fun readings => ?_) system follows
      refine Program.Ensures.consequence (Program.ensures_done (stable_returned aligned)) (fun _ holds => holds) ?_
      rintro value after ⟨rfl, last, le, length, history, there⟩
      exact ⟨last, later.trans le, congrArg Nat.succ length, history.cons faithful began later noted le, there⟩

/-- From any state of the channel `timer_pit_init` sets up a square wave with one
rising edge in every period, and nothing that is read afterwards, also by handlers
that interrupt each other, disturbs it: every call of `read_pit_count` returns the
count of an instant between its own begin and its own end. -/
theorem timerPitInit_readCounts (depth calls : Nat) (divisor : Word) (start : System) (legal : divisor.setWidth 16 ≠ 1)
    (config : Code (List Reading) × System)
    (reached : Reaches depth (timerPitInit divisor >>= fun _ => readCounts calls, start) config) :
    Program.Settled execute (fun readings after => ∃ (base : Channel) (begun last : Nat),
      (∀ elapsed, Counts (divisor.setWidth 16) elapsed (Channel.clock^[elapsed] base) ∧
        risen base elapsed = (elapsed - 1) / period (divisor.setWidth 16)) ∧
      after.clocks = begun + last ∧ after.channel = Channel.clock^[last] base ∧
      readings.length = calls ∧ (readings.Pairwise fun earlier later => earlier.ended ≤ later.began) ∧
      ∀ reading ∈ readings, begun ≤ reading.began ∧ reading.ended ≤ after.clocks ∧ reading.Faithful base begun) config := by
  refine Program.ensures_bind (ensures_timerPitInit divisor) (fun _ => ?_) start trivial config reached
  rintro system ⟨base, begun, counts, aligned, follows⟩
  refine Program.Ensures.consequence (ensures_readCounts aligned calls) (fun _ holds => holds) ?_ system follows
  rintro readings after ⟨last, _, length, history, there⟩
  refine ⟨base, begun, last, fun elapsed => ⟨counts_iterate legal counts elapsed, risen_eq legal counts elapsed⟩,
    there.clocks, there.channel, length, history.ordered, fun reading member => ?_⟩
  have bounds := history.within reading member
  exact ⟨bounds.1, there.clocks ▸ bounds.2, history.faithful reading member⟩

/-- A channel in the middle of other things. -/
def strayTimer : System := ⟨⟨.low, false, .stopped, 7, 0, true, true, some 9, 7, 3, false⟩, 0, true⟩

theorem timerPitInit_readCounts_stray : ∃ readings after base,
    Reaches 1 (timerPitInit (Irq.pitFreq / Irq.timerFreq) >>= fun _ => readCounts 2, strayTimer) (.done readings, after) ∧
      readings.length = 2 ∧ risen base 1193101 = 100 := by
  have settled := timerPitInit_readCounts 1 2 (Irq.pitFreq / Irq.timerFreq) strayTimer (by decide)
  obtain ⟨readings, after, reached, base, _, _, wave, _, _, length, _⟩ :=
    @Program.Ensures.finishes _ _ _ _ _ _ (· = strayTimer) _ _ strayTimer
      (fun _ same config reached => settled config (same ▸ reached)) rfl
  refine ⟨readings, after, base, reached, length, ?_⟩
  rw [(wave 1193101).2]
  decide

end Pit

end ScratchOs
