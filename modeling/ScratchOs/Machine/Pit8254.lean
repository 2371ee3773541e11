import ScratchOs.Data.ByteMemory

namespace ScratchOs.Pit8254

open Data

/-! Channel 0 of the 8254 interval timer, with its gate high. Of the modes only the
square wave counts here; the status and the commands for several channels are
left out. -/

inductive Access where
  | low | high | both
deriving DecidableEq, Repr

/-- Behind a control word the channel waits for its count, and loads it with the
next clock. -/
inductive Phase where
  | stopped | loading | counting
deriving DecidableEq, Repr

structure Channel where
  access : Access
  square : Bool
  phase : Phase
  count : BitVec 16
  /-- The low byte, when the high one is still to come. -/
  low : Byte
  writesHigh : Bool
  readsHigh : Bool
  latch : Option (BitVec 16)
  /-- The count of the half cycle that is under way. -/
  loaded : BitVec 16
  element : BitVec 16
  output : Bool
deriving DecidableEq, Repr

namespace Channel

/-- The element goes down in steps of two. -/
def load (channel : Channel) : Channel :=
  { channel with phase := .counting, loaded := channel.count, element := channel.count &&& ~~~1#16 }

/-- An odd count gives its odd clock to the high half. -/
def expired (channel : Channel) : Bool :=
  channel.element = if channel.loaded.getLsbD 0 && channel.output then 0 else 2

def clock (channel : Channel) : Channel :=
  if channel.square then
    match channel.phase with
    | .stopped => channel
    | .loading => channel.load
    | .counting =>
        if channel.expired then { channel.load with output := !channel.output }
        else { channel with element := channel.element - 2 }
  else channel

/-- Counting in binary, mode 3 or its alias 7. -/
def isSquare (value : Byte) : Bool := value.getLsbD 1 && value.getLsbD 2 && !value.getLsbD 0

/-- The two upper bits choose the channel, the next two the access. Without an
access the word is a latch command, which does nothing while a latch is unread. -/
def writeControl (value : Byte) (channel : Channel) : Channel :=
  if value >>> 6 = 0 then
    let program (access : Access) : Channel :=
      { channel with
        access, square := isSquare value, phase := .stopped, writesHigh := false, readsHigh := false, latch := none
        output := value &&& 0x0E != 0 }
    match (value.getLsbD 5, value.getLsbD 4) with
    | (false, false) => { channel with latch := some (channel.latch.getD channel.element) }
    | (false, true) => program .low
    | (true, false) => program .high
    | (true, true) => program .both
  else channel

/-- A count takes effect when it is complete: at once behind a control word, else
at the end of the half cycle. -/
def complete (count : BitVec 16) (channel : Channel) : Channel :=
  { channel with
    count
    writesHigh := false
    phase := if channel.phase = .stopped then .loading else channel.phase }

def writeCount (value : Byte) (channel : Channel) : Channel :=
  match channel.access with
  | .low => channel.complete (value.setWidth 16)
  | .high => channel.complete (value ++ 0#8)
  | .both =>
      if channel.writesHigh then channel.complete (value ++ channel.low)
      else { channel with low := value, writesHigh := true }

/-- What is read is the latch or, without one, the element as it is. -/
def readCount (channel : Channel) : Byte × Channel :=
  let shown := channel.latch.getD channel.element
  match channel.access with
  | .low => (shown.setWidth 8, { channel with latch := none })
  | .high => ((shown >>> 8).setWidth 8, { channel with latch := none })
  | .both =>
      if channel.readsHigh then ((shown >>> 8).setWidth 8, { channel with readsHigh := false, latch := none })
      else (shown.setWidth 8, { channel with readsHigh := true })

end Channel

/-- Clocks in a full cycle. -/
def period (count : BitVec 16) : Nat := if count = 0 then 65536 else count.toNat

def highClocks (count : BitVec 16) : Nat := (period count + 1) / 2

/-- The element some clocks into a cycle. -/
def elementAt (count : BitVec 16) (place : Nat) : BitVec 16 :=
  (count &&& ~~~1#16) - BitVec.ofNat 16 (2 * if place < highClocks count then place else place - highClocks count)

/-- A channel that has been given its count so many clocks ago. -/
structure Counts (count : BitVec 16) (elapsed : Nat) (channel : Channel) : Prop where
  access : channel.access = .both
  square : channel.square = true
  given : channel.count = count
  aligned : channel.writesHigh = false
  begun : if elapsed = 0 then channel.phase = .loading ∧ channel.output = true else
    channel.phase = .counting ∧ channel.loaded = count ∧
      channel.element = elementAt count ((elapsed - 1) % period count) ∧
      channel.output = decide ((elapsed - 1) % period count < highClocks count)

/-- Rising edges of the output in so many clocks from the count on. -/
def edges (count : BitVec 16) (elapsed : Nat) : Nat := (elapsed - 1) / period count

variable {count : BitVec 16} {elapsed place : Nat} {channel : Channel}

theorem even_toNat (count : BitVec 16) : (count &&& ~~~1#16).toNat = count.toNat / 2 * 2 := by
  have shifted : count &&& ~~~1#16 = (count >>> 1) <<< 1 := by
    apply BitVec.eq_of_getLsbD_eq
    intro place inside
    rw [BitVec.getLsbD_and, BitVec.getLsbD_not, BitVec.getLsbD_shiftLeft, BitVec.getLsbD_ushiftRight]
    by_cases first : place = 0
    · subst first
      simp
    · rw [BitVec.getLsbD_one, show 1 + (place - 1) = place by omega]
      simp [inside, first]
  have small := count.isLt
  rw [shifted, BitVec.toNat_shiftLeft, BitVec.toNat_ushiftRight, Nat.shiftRight_eq_div_pow, Nat.shiftLeft_eq]
  omega

theorem odd_iff (count : BitVec 16) : count.getLsbD 0 = decide (count.toNat % 2 = 1) := by
  rw [BitVec.getLsbD, Nat.testBit_zero]

/-- The period, and the even number the element starts from, as numbers. -/
theorem period_cases (count : BitVec 16) : (count.toNat = 0 ∧ period count = 65536) ∨
    0 < count.toNat ∧ period count = count.toNat := by
  rw [period]
  by_cases zero : count = 0
  · exact .inl ⟨by rw [zero]; rfl, if_pos zero⟩
  · have positive : count.toNat ≠ 0 := fun same => zero (BitVec.eq_of_toNat_eq same)
    exact .inr ⟨by omega, if_neg zero⟩

theorem period_bounds (legal : count ≠ 1) : 2 ≤ period count ∧ period count ≤ 65536 := by
  have small := count.isLt
  have notOne : count.toNat ≠ 1 := fun same => legal (BitVec.eq_of_toNat_eq same)
  have cases := period_cases count
  omega

theorem elementAt_toNat (count : BitVec 16) (place : Nat) : (elementAt count place).toNat =
    (65536 - 2 * (if place < highClocks count then place else place - highClocks count) % 65536 +
      count.toNat / 2 * 2) % 65536 := by
  rw [elementAt, BitVec.toNat_sub, even_toNat, BitVec.toNat_ofNat]

theorem elementAt_start (start : place = 0 ∨ place = highClocks count) :
    elementAt count place = count &&& ~~~1#16 := by
  have offset : (if place < highClocks count then place else place - highClocks count) = 0 := by
    rcases start with rfl | rfl
    · rw [Nat.zero_sub, ite_self]
    · rw [if_neg (Nat.lt_irrefl _), Nat.sub_self]
  rw [elementAt, offset]
  exact BitVec.sub_zero _

theorem elementAt_succ (more : place + 1 ≠ highClocks count) : elementAt count (place + 1) = elementAt count place - 2 := by
  apply BitVec.eq_of_toNat_eq
  rw [BitVec.toNat_sub, elementAt_toNat, elementAt_toNat, show (2 : BitVec 16).toNat = 2 from rfl]
  split <;> split <;> omega

/-- The element says where the half cycle ends. -/
theorem elementAt_expired (legal : count ≠ 1) (inside : place < period count) :
    elementAt count place = (if count.getLsbD 0 && decide (place < highClocks count) then 0 else 2) ↔
      place + 1 = highClocks count ∨ place + 1 = period count := by
  have bounds := period_bounds legal
  have cases := period_cases count
  have small := count.isLt
  rw [← BitVec.toNat_inj, elementAt_toNat, odd_iff, apply_ite BitVec.toNat,
    show (0 : BitVec 16).toNat = 0 from rfl, show (2 : BitVec 16).toNat = 2 from rfl, highClocks]
  by_cases odd : count.toNat % 2 = 1
  · by_cases high : place < (period count + 1) / 2
    · simp only [odd, high, decide_true, Bool.and_self, if_true]
      omega
    · simp only [odd, high, decide_true, decide_false, Bool.and_false, Bool.false_eq_true, if_false]
      omega
  · simp only [odd, decide_false, Bool.false_and, Bool.false_eq_true, if_false]
    split <;> omega

theorem succ_mod {size : Nat} (positive : 0 < size) (number : Nat) :
    (number + 1) % size = if number % size + 1 = size then 0 else number % size + 1 := by
  have inside := Nat.mod_lt number positive
  rw [Nat.add_mod]
  split
  · next last =>
      by_cases one : size = 1
      · subst one
        exact Nat.mod_one _
      · rw [Nat.mod_eq_of_lt (show 1 < size by omega), last, Nat.mod_self]
  · next more =>
      rw [Nat.mod_eq_of_lt (show 1 < size by omega), Nat.mod_eq_of_lt (by omega)]

namespace Counts

/-- The state with one clock more. -/
theorem clock (counts : Counts count elapsed channel) (legal : count ≠ 1) : Counts count (elapsed + 1) channel.clock := by
  have bounds := period_bounds legal
  have begun := counts.begun
  have first : 0 < highClocks count := by
    rw [highClocks]
    omega
  rw [Channel.clock, if_pos counts.square]
  cases elapsed with
  | zero =>
      obtain ⟨loading, output⟩ := begun
      rw [loading]
      refine ⟨counts.access, counts.square, counts.given, counts.aligned, ?_⟩
      rw [if_neg (Nat.succ_ne_zero _), Nat.add_sub_cancel, Nat.zero_mod, elementAt_start (.inl rfl), decide_eq_true first]
      refine ⟨rfl, counts.given, ?_, output⟩
      rw [Channel.load, counts.given]
  | succ elapsed =>
      rw [if_neg (Nat.succ_ne_zero _), Nat.add_sub_cancel] at begun
      obtain ⟨counting, loaded, element, output⟩ := begun
      have inside := Nat.mod_lt elapsed (show 0 < period count by omega)
      have next := succ_mod (show 0 < period count by omega) elapsed
      rw [counting]
      dsimp only
      have ends : channel.expired = true ↔
          elapsed % period count + 1 = highClocks count ∨ elapsed % period count + 1 = period count := by
        rw [← elementAt_expired legal inside, Channel.expired, element, loaded, output, decide_eq_true_iff]
      generalize elapsed % period count = place at *
      split
      · next expired =>
          refine ⟨counts.access, counts.square, counts.given, counts.aligned, ?_⟩
          rw [if_neg (Nat.succ_ne_zero _), Nat.add_sub_cancel, next]
          have half : highClocks count < period count := by
            rw [highClocks]
            omega
          have place' : (if place + 1 = period count then 0 else place + 1) = 0 ∨
              (if place + 1 = period count then 0 else place + 1) = highClocks count := by
            have which := ends.mp expired
            split <;> omega
          rw [elementAt_start place']
          refine ⟨rfl, counts.given, ?_, ?_⟩
          · rw [Channel.load, counts.given]
          · change (!channel.output) = _
            rw [output, ← decide_not, decide_eq_decide]
            have which := ends.mp expired
            split <;> omega
      · next goesOn =>
          obtain ⟨notHalf, notFull⟩ := not_or.mp fun which => goesOn (ends.mpr which)
          refine ⟨counts.access, counts.square, counts.given, counts.aligned, ?_⟩
          rw [if_neg (Nat.succ_ne_zero _), Nat.add_sub_cancel, next, if_neg notFull, elementAt_succ notHalf]
          refine ⟨rfl, loaded, ?_, ?_⟩
          · dsimp only
            rw [element]
          · dsimp only
            rw [output, decide_eq_decide]
            omega

theorem output (counts : Counts count elapsed channel) :
    channel.output = decide (elapsed = 0 ∨ (elapsed - 1) % period count < highClocks count) := by
  have begun := counts.begun
  by_cases start : elapsed = 0
  · rw [if_pos start] at begun
    rw [begun.2, decide_eq_true (.inl start)]
  · rw [if_neg start] at begun
    rw [begun.2.2.2, decide_eq_decide]
    exact ⟨.inr, fun either => either.resolve_left start⟩

end Counts

/-- The output rises once in a period. -/
theorem edges_succ (legal : count ≠ 1) (counts : Counts count elapsed channel) :
    edges count (elapsed + 1) = edges count elapsed + if !channel.output && channel.clock.output then 1 else 0 := by
  have bounds := period_bounds legal
  have after := (counts.clock legal).output
  rw [counts.output, after]
  cases elapsed with
  | zero => simp [edges]
  | succ elapsed =>
      have inside := Nat.mod_lt elapsed (show 0 < period count by omega)
      have next := succ_mod (show 0 < period count by omega) elapsed
      rw [edges, edges, Nat.add_sub_cancel, Nat.add_sub_cancel, Nat.succ_div]
      congr 1
      refine if_congr ?_ rfl rfl
      rw [Nat.dvd_iff_mod_eq_zero, next, Bool.and_eq_true, Bool.not_eq_true', decide_eq_false_iff_not, decide_eq_true_iff, highClocks]
      generalize elapsed % period count = place at *
      split <;> omega

theorem counts_iterate (legal : count ≠ 1) (counts : Counts count 0 channel) (elapsed : Nat) :
    Counts count elapsed (Channel.clock^[elapsed] channel) := by
  induction elapsed with
  | zero => exact counts
  | succ elapsed ih =>
      rw [Function.iterate_succ_apply']
      exact ih.clock legal

/-- How often the output has risen. -/
def risen (channel : Channel) : Nat → Nat
  | 0 => 0
  | elapsed + 1 =>
      let before := Channel.clock^[elapsed] channel
      risen channel elapsed + if !before.output && before.clock.output then 1 else 0

theorem risen_eq (legal : count ≠ 1) (counts : Counts count 0 channel) (elapsed : Nat) :
    risen channel elapsed = edges count elapsed := by
  induction elapsed with
  | zero => rw [risen, edges, Nat.zero_sub, Nat.zero_div]
  | succ elapsed ih => rw [risen, ih, edges_succ legal (counts_iterate legal counts elapsed)]

/-! What software does to a channel. -/

/-- Behind a control word, up to the end of the count. -/
structure Awaits (channel : Channel) : Prop where
  access : channel.access = .both
  square : channel.square = true
  stopped : channel.phase = .stopped
  output : channel.output = true

/-- Nothing is latched and no byte is owed. -/
structure Aligned (channel : Channel) : Prop where
  access : channel.access = .both
  readsHigh : channel.readsHigh = false
  latch : channel.latch = none

theorem Awaits.clock (awaits : Awaits channel) : channel.clock = channel := by
  rw [Channel.clock, awaits.stopped]
  exact ite_self _

theorem Awaits.complete (awaits : Awaits channel) (count : BitVec 16) : Counts count 0 (channel.complete count) where
  access := awaits.access
  square := awaits.square
  given := rfl
  aligned := rfl
  begun := by
    rw [if_pos rfl]
    exact ⟨if_pos awaits.stopped, awaits.output⟩

/-- Clocks leave the latch and the order of the bytes alone. -/
theorem Aligned.clock (aligned : Aligned channel) : Aligned channel.clock := by
  rw [Channel.clock]
  split
  · split
    · exact aligned
    · exact ⟨aligned.access, aligned.readsHigh, aligned.latch⟩
    · split
      · exact ⟨aligned.access, aligned.readsHigh, aligned.latch⟩
      · exact ⟨aligned.access, aligned.readsHigh, aligned.latch⟩
  · exact aligned

end ScratchOs.Pit8254
