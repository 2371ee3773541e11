import ScratchOs.Data.ByteMemory

namespace ScratchOs

open Data

/-! `sleep` of `drivers/timer.c` and the interrupts that come while it waits. The
code is compiled for 32 bits: `sleep` loads `ticks` as two words, one after the
other, and an interrupt may come between the loads. `timer_handler` runs behind an
interrupt gate, and its increment is one step. -/

namespace Timer

abbrev Ticks := BitVec 64

def timerFreq : Word := 100

/-- `MS_TO_TICKS`. Both operations are on `unsigned int`s. -/
def msToTicks (milliseconds : Word) : Word := timerFreq * milliseconds / 1000

def timerHandler (ticks : Ticks) : Ticks := ticks + 1

inductive Half where
  | low
  | high
deriving DecidableEq, Repr

namespace Half

/-- The word an access loads first. The compiler chooses which half that is. -/
def leading : Half → Ticks → Word
  | low, ticks => ticks.setWidth 32
  | high, ticks => (ticks >>> 32).setWidth 32

def trailing : Half → Ticks → Word
  | low => high.leading
  | high => low.leading

/-- The value of an access that has loaded these words. -/
def joined : Half → Word → Word → Ticks
  | low, leading, trailing => trailing ++ leading
  | high, leading, trailing => leading ++ trailing

end Half

/-- Where `sleep` is: between the two loads of `ticks` for its target, about to
compare `ticks` with it, between the two loads for the comparison, behind the
comparison and about to halt, in `hlt`, or back at its caller. -/
inductive Place where
  | computing (leading : Word)
  | comparing (target : Ticks)
  | compared (target : Ticks) (leading : Word)
  | below (target : Ticks)
  | halted (target : Ticks)
  | returned
deriving DecidableEq, Repr

/-- `elapsed` counts the calls of `timer_handler` from the first load for the target
to the return. -/
structure System where
  ticks : Ticks
  place : Place
  elapsed : Nat
deriving DecidableEq, Repr

inductive Actor where
  | sleeper
  | timer
  | otherInterrupt
deriving DecidableEq, Repr

/-- An interrupt ends the `hlt` it comes in. -/
def Place.interrupted : Place → Place
  | .halted target => .comparing target
  | place => place

def sleepPlace (first : Half) (milliseconds : Word) (ticks : Ticks) : Place → Place
  | .computing leading =>
      .comparing (first.joined leading (first.trailing ticks) + (msToTicks milliseconds).setWidth 64)
  | .comparing target => .compared target (first.leading ticks)
  | .compared target leading =>
      if first.joined leading (first.trailing ticks) < target then .below target else .returned
  | .below target => .halted target
  | .halted target => .halted target
  | .returned => .returned

def step (first : Half) (milliseconds : Word) : Actor → System → System
  | .sleeper, system => { system with place := sleepPlace first milliseconds system.ticks system.place }
  | .timer, system =>
      { ticks := timerHandler system.ticks
        place := system.place.interrupted
        elapsed := if system.place = .returned then system.elapsed else system.elapsed + 1 }
  | .otherInterrupt, system => { system with place := system.place.interrupted }

def run (first : Half) (milliseconds : Word) (schedule : List Actor) (system : System) : System :=
  schedule.foldl (fun system actor => step first milliseconds actor system) system

/-- `sleep` after its first load. -/
def sleep (first : Half) (ticks : Ticks) : System :=
  ⟨ticks, .computing (first.leading ticks), 0⟩

/-- In no order of steps `sleep` returns before a tick has come for every ten milliseconds. -/
def NeverEarly (first : Half) (milliseconds : Word) (ticks : Ticks) : Prop :=
  ∀ schedule, (run first milliseconds schedule (sleep first ticks)).place = .returned →
    milliseconds.toNat / 10 ≤ (run first milliseconds schedule (sleep first ticks)).elapsed

variable {first : Half} {milliseconds : Word} {ticks : Ticks} {system : System}

theorem Half.leading_low_toNat (ticks : Ticks) : (low.leading ticks).toNat = ticks.toNat % 2 ^ 32 :=
  BitVec.toNat_setWidth 32 ticks

theorem Half.leading_high_toNat (ticks : Ticks) : (high.leading ticks).toNat = ticks.toNat / 2 ^ 32 := by
  rw [leading, BitVec.toNat_setWidth, BitVec.toNat_ushiftRight, Nat.shiftRight_eq_div_pow]
  omega

theorem append_toNat (upper lower : Word) : (upper ++ lower : Ticks).toNat = upper.toNat * 2 ^ 32 + lower.toNat := by
  rw [BitVec.toNat_append, ← Nat.shiftLeft_add_eq_or_of_lt lower.isLt, Nat.shiftLeft_eq]

theorem Half.joined_low_toNat (loaded now : Ticks) :
    (low.joined (low.leading loaded) (low.trailing now)).toNat =
      now.toNat / 2 ^ 32 * 2 ^ 32 + loaded.toNat % 2 ^ 32 := by
  rw [joined, trailing, append_toNat, leading_high_toNat, leading_low_toNat]

theorem Half.joined_high_toNat (loaded now : Ticks) :
    (high.joined (high.leading loaded) (high.trailing now)).toNat =
      loaded.toNat / 2 ^ 32 * 2 ^ 32 + now.toNat % 2 ^ 32 := by
  rw [joined, trailing, append_toNat, leading_high_toNat, leading_low_toNat]

/-- While the high word stays, an access has a value that `ticks` had between its loads. -/
theorem Half.joined_between {loaded now : Ticks} (later : loaded.toNat ≤ now.toNat)
    (same : now.toNat / 2 ^ 32 = loaded.toNat / 2 ^ 32) (first : Half) :
    loaded.toNat ≤ (first.joined (first.leading loaded) (first.trailing now)).toNat ∧
      (first.joined (first.leading loaded) (first.trailing now)).toNat ≤ now.toNat := by
  cases first with
  | low =>
      rw [joined_low_toNat]
      omega
  | high =>
      rw [joined_high_toNat]
      omega

theorem Half.joined_whole (first : Half) (ticks : Ticks) :
    first.joined (first.leading ticks) (first.trailing ticks) = ticks := by
  have between := joined_between (Nat.le_refl ticks.toNat) rfl first
  exact BitVec.eq_of_toNat_eq (Nat.le_antisymm between.2 between.1)

/-- The first word of an access was loaded since the call. -/
def Loaded (first : Half) (ticks now : Ticks) (leading : Word) : Prop :=
  ∃ loaded : Ticks, leading = first.leading loaded ∧ ticks.toNat ≤ loaded.toNat ∧ loaded.toNat ≤ now.toNat

/-- The target is not before the ticks to wait for. -/
inductive Suits (first : Half) (ticks : Ticks) (wait : Nat) (now : Ticks) : Place → Prop where
  | computing {leading : Word} (loaded : Loaded first ticks now leading) : Suits first ticks wait now (.computing leading)
  | comparing {target : Ticks} (late : ticks.toNat + wait ≤ target.toNat) : Suits first ticks wait now (.comparing target)
  | compared {target : Ticks} {leading : Word} (late : ticks.toNat + wait ≤ target.toNat)
      (loaded : Loaded first ticks now leading) : Suits first ticks wait now (.compared target leading)
  | below {target : Ticks} (late : ticks.toNat + wait ≤ target.toNat) : Suits first ticks wait now (.below target)
  | halted {target : Ticks} (late : ticks.toNat + wait ≤ target.toNat) : Suits first ticks wait now (.halted target)

/-- How far a run has come: `sleep` waits and `ticks` has been counted on, or the
ticks to wait for have come. -/
inductive Stage (first : Half) (ticks : Ticks) (wait : Nat) (system : System) : Prop where
  | waiting (counted : system.ticks.toNat = ticks.toNat + system.elapsed) (early : system.elapsed < wait)
      (place : Suits first ticks wait system.ticks system.place)
  | passed (enough : wait ≤ system.elapsed)

variable {wait : Nat}

theorem Loaded.later {now after : Ticks} {leading : Word} (loaded : Loaded first ticks now leading)
    (later : now.toNat ≤ after.toNat) : Loaded first ticks after leading := by
  obtain ⟨whole, rfl, lower, upper⟩ := loaded
  exact ⟨whole, rfl, lower, Nat.le_trans upper later⟩

theorem Suits.interrupted {now after : Ticks} {place : Place} (suits : Suits first ticks wait now place)
    (later : now.toNat ≤ after.toNat) : Suits first ticks wait after place.interrupted := by
  cases suits with
  | computing loaded => exact .computing (loaded.later later)
  | comparing late => exact .comparing late
  | compared late loaded => exact .compared late (loaded.later later)
  | below late => exact .below late
  | halted late => exact .comparing late

/-- Before the ticks have come the low word has not wrapped, and each access has a
value between the first load and now. -/
theorem Loaded.joined_between {now : Ticks} {leading : Word} {elapsed : Nat} (loaded : Loaded first ticks now leading)
    (counted : now.toNat = ticks.toNat + elapsed) (early : elapsed < wait)
    (whole : ticks.toNat % 2 ^ 32 + wait ≤ 2 ^ 32) :
    ticks.toNat ≤ (first.joined leading (first.trailing now)).toNat ∧
      (first.joined leading (first.trailing now)).toNat ≤ now.toNat := by
  obtain ⟨seen, rfl, lower, upper⟩ := loaded
  have between := first.joined_between upper (by omega)
  exact ⟨Nat.le_trans lower between.1, between.2⟩

theorem Suits.sleeper {now : Ticks} {place : Place} {elapsed : Nat} (suits : Suits first ticks wait now place)
    (small : ticks.toNat < 2 ^ 63) (computed : (msToTicks milliseconds).toNat = wait)
    (counted : now.toNat = ticks.toNat + elapsed) (early : elapsed < wait)
    (whole : ticks.toNat % 2 ^ 32 + wait ≤ 2 ^ 32) :
    Suits first ticks wait now (sleepPlace first milliseconds now place) := by
  cases suits with
  | computing loaded =>
      have between := loaded.joined_between counted early whole
      refine .comparing ?_
      rw [BitVec.toNat_add, BitVec.toNat_setWidth, computed]
      omega
  | comparing late =>
      exact .compared late ⟨now, rfl, counted ▸ Nat.le_add_right _ _, Nat.le_refl _⟩
  | @compared target leading late loaded =>
      have between := loaded.joined_between counted early whole
      have less : first.joined leading (first.trailing now) < target := by
        rw [BitVec.lt_def]
        omega
      rw [sleepPlace, if_pos less]
      exact .below late
  | below late => exact .halted late
  | halted late => exact .halted late

theorem timerHandler_toNat {now : Ticks} {elapsed : Nat} (small : ticks.toNat < 2 ^ 63)
    (counted : now.toNat = ticks.toNat + elapsed) (early : elapsed < 2 ^ 32) :
    (timerHandler now).toNat = now.toNat + 1 := by
  have one : (1 : Ticks).toNat = 1 := rfl
  rw [timerHandler, BitVec.toNat_add, one]
  omega

theorem Stage.step (small : ticks.toNat < 2 ^ 63) (computed : (msToTicks milliseconds).toNat = wait)
    (whole : ticks.toNat % 2 ^ 32 + wait ≤ 2 ^ 32) (stage : Stage first ticks wait system) (actor : Actor) :
    Stage first ticks wait (step first milliseconds actor system) := by
  cases stage with
  | waiting counted early place =>
      cases actor with
      | sleeper => exact .waiting counted early (place.sleeper small computed counted early whole)
      | otherInterrupt => exact .waiting counted early (place.interrupted (Nat.le_refl _))
      | timer =>
          have waits : system.place ≠ .returned := by
            intro returned
            rw [returned] at place
            cases place
          have counts : (if system.place = .returned then system.elapsed else system.elapsed + 1) = system.elapsed + 1 :=
            if_neg waits
          have next := timerHandler_toNat small counted (by omega)
          rcases Nat.lt_or_ge (system.elapsed + 1) wait with before | reached
          · refine .waiting ?_ ?_ (place.interrupted (next ▸ Nat.le_succ _))
            · rw [Timer.step, counts, next, counted]
              rfl
            · rwa [Timer.step, counts]
          · refine .passed ?_
            rwa [Timer.step, counts]
  | passed enough =>
      refine .passed ?_
      cases actor with
      | sleeper => exact enough
      | otherInterrupt => exact enough
      | timer =>
          rw [Timer.step]
          by_cases returned : system.place = .returned
          · rwa [if_pos returned]
          · rw [if_neg returned]
            exact Nat.le_succ_of_le enough

theorem Stage.run (small : ticks.toNat < 2 ^ 63) (computed : (msToTicks milliseconds).toNat = wait)
    (whole : ticks.toNat % 2 ^ 32 + wait ≤ 2 ^ 32) (stage : Stage first ticks wait system) (schedule : List Actor) :
    Stage first ticks wait (run first milliseconds schedule system) := by
  induction schedule generalizing system with
  | nil => exact stage
  | cons actor rest ih => exact ih (stage.step small computed whole actor)

theorem stage_sleep (first : Half) (ticks : Ticks) (wait : Nat) : Stage first ticks wait (sleep first ticks) := by
  rcases Nat.eq_zero_or_pos wait with rfl | positive
  · exact .passed (Nat.zero_le _)
  · exact .waiting rfl positive (.computing ⟨ticks, rfl, Nat.le_refl _, Nat.le_refl _⟩)

theorem msToTicks_toNat (milliseconds : Word) :
    (msToTicks milliseconds).toNat = 100 * milliseconds.toNat % 2 ^ 32 / 1000 := by
  rw [msToTicks, BitVec.toNat_udiv, BitVec.toNat_mul]
  rfl

theorem msToTicks_exact (short : milliseconds.toNat ≤ 42949672) :
    (msToTicks milliseconds).toNat = milliseconds.toNat / 10 := by
  rw [msToTicks_toNat, Nat.mod_eq_of_lt (by omega)]
  omega

/-- A product that wraps has lost more than a tick. -/
theorem msToTicks_short (long : 42949672 < milliseconds.toNat) :
    (msToTicks milliseconds).toNat < milliseconds.toNat / 10 := by
  have wrapped : 100 * milliseconds.toNat % 2 ^ 32 ≤ 100 * milliseconds.toNat - 2 ^ 32 := by
    rw [Nat.mod_eq_sub_mod (by omega)]
    exact Nat.mod_le _ _
  have divided := Nat.div_le_div_right (c := 1000) wrapped
  rw [msToTicks_toNat]
  omega

/-- `sleep` does not return before its ticks have come while neither the product nor the low word wraps. -/
theorem sleep_waits (small : ticks.toNat < 2 ^ 63) (short : milliseconds.toNat ≤ 42949672)
    (whole : ticks.toNat % 2 ^ 32 + milliseconds.toNat / 10 ≤ 2 ^ 32) (first : Half) : NeverEarly first milliseconds ticks := by
  intro schedule returned
  have computed := msToTicks_exact short
  cases (stage_sleep first ticks (milliseconds.toNat / 10)).run small computed whole schedule with
  | waiting _ _ place =>
      rw [returned] at place
      cases place
  | passed enough => exact enough

theorem run_append (front back : List Actor) (system : System) :
    run first milliseconds (front ++ back) system = run first milliseconds back (run first milliseconds front system) :=
  List.foldl_append

theorem run_timer {place : Place} (steady : place.interrupted = place) (waits : place ≠ .returned) (count : Nat)
    (ticks : Ticks) (elapsed : Nat) :
    run first milliseconds (List.replicate count .timer) ⟨ticks, place, elapsed⟩ =
      ⟨ticks + BitVec.ofNat 64 count, place, elapsed + count⟩ := by
  induction count generalizing ticks elapsed with
  | zero =>
      rw [show ticks + BitVec.ofNat 64 0 = ticks from BitVec.add_zero ticks]
      rfl
  | succ count ih =>
      have stepped : step first milliseconds .timer ⟨ticks, place, elapsed⟩ = ⟨ticks + 1, place, elapsed + 1⟩ := by
        rw [step, if_neg waits, steady]
        rfl
      have counted : ticks + 1 + BitVec.ofNat 64 count = ticks + BitVec.ofNat 64 (count + 1) := by bv_omega
      rw [List.replicate_succ, run, List.foldl_cons, stepped, ← run, ih, counted, Nat.add_right_comm]
      rfl

def target (milliseconds : Word) (ticks : Ticks) : Ticks := ticks + (msToTicks milliseconds).setWidth 64

theorem run_computing (first : Half) (milliseconds : Word) (ticks : Ticks) :
    run first milliseconds [.sleeper] (sleep first ticks) = ⟨ticks, .comparing (target milliseconds ticks), 0⟩ := by
  show System.mk ticks (.comparing (first.joined (first.leading ticks) (first.trailing ticks) + _)) 0 = _
  rw [Half.joined_whole]
  rfl

theorem run_comparing {target : Ticks} (reached : ¬ ticks < target) (elapsed : Nat) :
    run first milliseconds [.sleeper, .sleeper] ⟨ticks, .comparing target, elapsed⟩ = ⟨ticks, .returned, elapsed⟩ := by
  show System.mk ticks (if first.joined (first.leading ticks) (first.trailing ticks) < target then _ else _) elapsed = _
  rw [Half.joined_whole, if_neg reached]

/-- As many ticks as were computed, and `sleep` returns at its next comparison. -/
theorem sleep_returns (first : Half) (milliseconds : Word) (ticks : Ticks) :
    ∃ schedule, run first milliseconds schedule (sleep first ticks) =
      ⟨target milliseconds ticks, .returned, (msToTicks milliseconds).toNat⟩ := by
  refine ⟨[.sleeper] ++ (List.replicate (msToTicks milliseconds).toNat .timer ++ [.sleeper, .sleeper]), ?_⟩
  rw [run_append, run_computing, run_append, run_timer rfl Place.noConfusion, BitVec.ofNat_toNat, ← target,
    run_comparing (BitVec.lt_irrefl _), Nat.zero_add]

theorem target_toNat (small : ticks.toNat < 2 ^ 63) (milliseconds : Word) :
    (target milliseconds ticks).toNat = ticks.toNat + (msToTicks milliseconds).toNat := by
  have short := (msToTicks milliseconds).isLt
  rw [target, BitVec.toNat_add, BitVec.toNat_setWidth]
  omega

theorem add_ofNat_toNat {count : Nat} (small : ticks.toNat < 2 ^ 63) (short : count ≤ 2 ^ 32) :
    (ticks + BitVec.ofNat 64 count).toNat = ticks.toNat + count := by
  rw [BitVec.toNat_add, BitVec.toNat_ofNat]
  omega

/-- The low word wraps between two loads, and `sleep` returns with that tick: the
value compared is too large if the low word was loaded first, and else the target
is too small. -/
theorem sleep_torn (first : Half) (small : ticks.toNat < 2 ^ 63) :
    ∃ schedule, (run first milliseconds schedule (sleep first ticks)).place = .returned ∧
      (run first milliseconds schedule (sleep first ticks)).elapsed = 2 ^ 32 - ticks.toNat % 2 ^ 32 := by
  have short : (msToTicks milliseconds).toNat < 2 ^ 32 := (msToTicks milliseconds).isLt
  have wrapped : (ticks + BitVec.ofNat 64 (2 ^ 32 - ticks.toNat % 2 ^ 32)).toNat =
      ticks.toNat + (2 ^ 32 - ticks.toNat % 2 ^ 32) := add_ofNat_toNat small (Nat.sub_le _ _)
  cases first with
  | low =>
      refine ⟨[.sleeper] ++ ([.sleeper] ++
        (List.replicate (2 ^ 32 - ticks.toNat % 2 ^ 32) .timer ++ [.sleeper])), ?_⟩
      have loads : run .low milliseconds [.sleeper] ⟨ticks, .comparing (target milliseconds ticks), 0⟩ =
          ⟨ticks, .compared (target milliseconds ticks) (Half.low.leading ticks), 0⟩ := rfl
      rw [run_append, run_computing, run_append, loads, run_append, run_timer rfl Place.noConfusion, Nat.zero_add]
      refine ⟨if_neg ?_, rfl⟩
      rw [BitVec.lt_def, Half.joined_low_toNat, target_toNat small, wrapped]
      omega
  | high =>
      refine ⟨List.replicate (2 ^ 32 - ticks.toNat % 2 ^ 32) .timer ++ ([.sleeper] ++ [.sleeper, .sleeper]), ?_⟩
      have loads : ∀ now elapsed, run .high milliseconds [.sleeper] ⟨now, .computing (Half.high.leading ticks), elapsed⟩ =
          ⟨now, .comparing (Half.high.joined (Half.high.leading ticks) (Half.high.trailing now) +
            (msToTicks milliseconds).setWidth 64), elapsed⟩ := fun _ _ => rfl
      rw [run_append, sleep, run_timer rfl Place.noConfusion, run_append, loads, run_comparing, Nat.zero_add]
      · exact ⟨rfl, rfl⟩
      · rw [BitVec.lt_def, wrapped, BitVec.toNat_add, Half.joined_high_toNat, wrapped, BitVec.toNat_setWidth]
        omega

/-- `sleep` never returns early exactly when the product of `MS_TO_TICKS` fits an
`unsigned int`, which is up to 42949672 milliseconds, and the low word of `ticks`
does not wrap before the last of the ticks to wait for. -/
theorem sleep_neverEarly_iff (first : Half) (milliseconds : Word) (ticks : Ticks) (small : ticks.toNat < 2 ^ 63) :
    NeverEarly first milliseconds ticks ↔
      milliseconds.toNat ≤ 42949672 ∧ ticks.toNat % 2 ^ 32 + milliseconds.toNat / 10 ≤ 2 ^ 32 := by
  constructor
  · intro never
    constructor
    · obtain ⟨schedule, ends⟩ := sleep_returns first milliseconds ticks
      have enough := never schedule (by rw [ends])
      rw [ends] at enough
      by_contra long
      exact Nat.not_le_of_lt (msToTicks_short (Nat.lt_of_not_le long)) enough
    · obtain ⟨schedule, returned, elapsed⟩ := @sleep_torn milliseconds ticks first small
      have enough := never schedule returned
      rw [elapsed] at enough
      omega
  · rintro ⟨short, whole⟩
    exact sleep_waits small short whole first

theorem sleep_neverEarly_iff_second : NeverEarly .low 1000 0 :=
  (sleep_neverEarly_iff .low 1000 0 (by decide)).mpr (by decide)

/-- Twelve hours: the product wraps, and `sleep` can return after 25032 of 4320000
ticks. A second that the low word wraps in: with a tick between two loads `sleep`
can return after that tick. -/
theorem sleep_early : ¬ NeverEarly .low 43200000 0 ∧ ¬ NeverEarly .high 43200000 0 ∧
    ¬ NeverEarly .low 1000 0xFFFFFFFF ∧ ¬ NeverEarly .high 1000 0xFFFFFFFF := by
  have halfDay : ∀ first, ¬ NeverEarly first 43200000 0 := by
    intro first never
    obtain ⟨schedule, ends⟩ := sleep_returns first 43200000 0
    have enough := never schedule (by rw [ends])
    rw [ends] at enough
    revert enough
    decide
  have second : ∀ first, ¬ NeverEarly first 1000 0xFFFFFFFF := by
    intro first never
    obtain ⟨schedule, returned, elapsed⟩ := @sleep_torn 1000 0xFFFFFFFF first (by decide)
    have enough := never schedule returned
    rw [elapsed] at enough
    revert enough
    decide
  exact ⟨halfDay .low, halfDay .high, second .low, second .high⟩

end Timer

end ScratchOs
