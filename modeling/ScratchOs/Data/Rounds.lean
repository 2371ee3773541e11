import Mathlib.Data.Finset.Card

namespace ScratchOs.Data

/-! Rounds of a loop.

`roundAt step first count` is what the loop works on when its round `count`
begins, and nothing once it has stopped. A loop that goes on for as long as a
label of its state says stops at most once for every label, and never when a
label comes back.
-/

variable {σ α : Type*}

def roundAt (step : σ → Option σ) (first : σ) : Nat → Option σ
  | 0 => some first
  | count + 1 => (roundAt step first count).bind step

variable {step : σ → Option σ} {first state : σ} {label : σ → α} {next : α → Option α} {count bound : Nat}

theorem roundAt_succ (here : roundAt step first count = some state) : roundAt step first (count + 1) = step state := by
  rw [roundAt, here, Option.bind_some]

theorem roundAt_isSome_of_le {later : Nat} (before : count ≤ later) (some : (roundAt step first later).isSome) :
    (roundAt step first count).isSome := by
  induction before with
  | refl => exact some
  | step _ ih =>
      rw [roundAt] at some
      exact ih (Option.isSome_of_isSome_bind some)

theorem roundAt_eq_none_of_le {later : Nat} (before : count ≤ later) (stopped : roundAt step first count = none) :
    roundAt step first later = none := by
  by_contra goesOn
  have running := roundAt_isSome_of_le before (Option.isSome_iff_ne_none.mpr goesOn)
  rw [stopped] at running
  cases running

theorem exists_last (stops : roundAt step first bound = none) :
    ∃ count < bound, ∃ state, roundAt step first count = some state ∧ step state = none := by
  induction bound with
  | zero => cases stops
  | succ bound ih =>
      cases here : roundAt step first bound with
      | none =>
          obtain ⟨count, below, state, found⟩ := ih here
          exact ⟨count, Nat.lt_succ_of_lt below, state, found⟩
      | some state => exact ⟨bound, Nat.lt_succ_self _, state, here, (roundAt_succ here).symm.trans stops⟩

def VisitsOnce (step : σ → Option σ) (first : σ) (label : σ → α) : Prop :=
  ∀ left right leftState rightState, roundAt step first left = some leftState →
    roundAt step first right = some rightState → label leftState = label rightState → left = right

/-- The labels decide how the loop goes on. -/
def Tracks (step : σ → Option σ) (first : σ) (label : σ → α) (next : α → Option α) : Prop :=
  ∀ count state, roundAt step first count = some state → (step state).map label = next (label state)

theorem Tracks.label_roundAt (tracks : Tracks step first label next) (count : Nat) :
    (roundAt step first count).map label = roundAt next (label first) count := by
  induction count with
  | zero => rfl
  | succ count ih =>
      rw [roundAt, roundAt, ← ih]
      cases here : roundAt step first count with
      | none => rfl
      | some state => exact tracks count state here

/-- Beginning later is beginning with another state. -/
theorem roundAt_add (here : roundAt step first count = some state) (more : Nat) :
    roundAt step first (count + more) = roundAt step state more := by
  induction more with
  | zero => exact here
  | succ more ih =>
      rw [← Nat.add_assoc, roundAt, roundAt, ih]

/-- A state that comes back comes back for ever. -/
theorem roundAt_isSome_of_repeat {period : Nat} (positive : 0 < period)
    (here : roundAt step first count = some state) (again : roundAt step first (count + period) = some state)
    (later : Nat) : (roundAt step first later).isSome := by
  have often : ∀ times, roundAt step first (count + times * period) = some state := by
    intro times
    induction times with
    | zero => rwa [Nat.zero_mul]
    | succ times ih =>
        rw [Nat.succ_mul, ← Nat.add_assoc, roundAt_add ih, ← roundAt_add here, again]
  have reaches : later ≤ count + later * period :=
    Nat.le_trans (Nat.le_mul_of_pos_right later positive) (Nat.le_add_left _ _)
  exact roundAt_isSome_of_le reaches (by rw [often later]; rfl)

theorem Tracks.isSome_iff (tracks : Tracks step first label next) (count : Nat) :
    (roundAt step first count).isSome ↔ (roundAt next (label first) count).isSome := by
  rw [← tracks.label_roundAt count, Option.isSome_map]

/-- A loop that stops has met no label twice. -/
theorem Tracks.visitsOnce_of_stops (tracks : Tracks step first label next)
    (stops : roundAt step first bound = none) : VisitsOnce step first label := by
  -- The label that comes back is a repeated state of the walk over the labels.
  have endless : ∀ left right leftState rightState, left < right → roundAt step first left = some leftState →
      roundAt step first right = some rightState → label leftState ≠ label rightState := by
    intro left right leftState rightState before leftAt rightAt same
    have leftLabel := tracks.label_roundAt left
    have rightLabel := tracks.label_roundAt right
    rw [leftAt, Option.map_some, same] at leftLabel
    rw [rightAt, Option.map_some, ← Nat.add_sub_cancel' (Nat.le_of_lt before)] at rightLabel
    have forever := roundAt_isSome_of_repeat (Nat.sub_pos_of_lt before) leftLabel.symm rightLabel.symm bound
    rw [← tracks.isSome_iff, stops] at forever
    cases forever
  intro left right leftState rightState leftAt rightAt same
  rcases Nat.lt_trichotomy left right with before | here | after
  · exact absurd same (endless left right leftState rightState before leftAt rightAt)
  · exact here
  · exact absurd same.symm (endless right left rightState leftState after rightAt leftAt)

/-- With few labels behind the first one there are few rounds before one comes back. -/
theorem VisitsOnce.stops (once : VisitsOnce step first label) {labels : Finset α}
    (later : ∀ count state, roundAt step first (count + 1) = some state → label state ∈ labels) :
    roundAt step first (labels.card + 1) = none := by
  by_contra goesOn
  have everywhere : ∀ count ∈ Finset.range (labels.card + 1), ∃ state, roundAt step first (count + 1) = some state := by
    intro count inside
    have below := Finset.mem_range.mp inside
    exact Option.isSome_iff_exists.mp
      (roundAt_isSome_of_le (Nat.succ_le_succ (Nat.le_of_lt_succ below)) (Option.isSome_iff_ne_none.mpr goesOn))
  have : Nonempty σ := ⟨first⟩
  choose! visited visitedAt using everywhere
  have crowded : labels.card < (Finset.range (labels.card + 1)).card := by
    rw [Finset.card_range]
    exact Nat.lt_succ_self _
  obtain ⟨left, leftIn, right, rightIn, apart, same⟩ :=
    Finset.exists_ne_map_eq_of_card_lt_of_maps_to crowded (f := fun count => label (visited count))
      fun count inside => later count _ (visitedAt count inside)
  exact apart (Nat.succ.inj (once _ _ _ _ (visitedAt left leftIn) (visitedAt right rightIn) same))

end ScratchOs.Data
