import Mathlib.Algebra.BigOperators.Group.List.Basic
import Mathlib.Algebra.Order.Group.Nat
import Mathlib.Algebra.Ring.Nat

namespace ScratchOs.Data

/-! Intervals cut into consecutive pieces.

`Tiles position length start pieces finish` says that the pieces, in list
order, cover `[start, finish)` without gap or overlap.
-/

variable {α : Type*}

def Tiles (position length : α → Nat) : Nat → List α → Nat → Prop
  | start, [], finish => start = finish
  | start, piece :: rest, finish =>
      position piece = start ∧ Tiles position length (start + length piece) rest finish

namespace Tiles

variable {position position' length length' : α → Nat} {start finish : Nat}
  {pieces before after : List α} {piece other : α}

theorem append : Tiles position length start (before ++ after) finish ↔
    ∃ middle, Tiles position length start before middle ∧ Tiles position length middle after finish := by
  induction before generalizing start with
  | nil => simp [Tiles]
  | cons first rest ih =>
      simp only [List.cons_append, Tiles, ih]
      constructor
      · rintro ⟨placed, middle, front, back⟩
        exact ⟨middle, ⟨placed, front⟩, back⟩
      · rintro ⟨middle, ⟨placed, front⟩, back⟩
        exact ⟨placed, middle, front, back⟩

theorem congr (samePosition : ∀ piece ∈ pieces, position' piece = position piece)
    (sameLength : ∀ piece ∈ pieces, length' piece = length piece)
    (tiles : Tiles position length start pieces finish) : Tiles position' length' start pieces finish := by
  induction pieces generalizing start with
  | nil => exact tiles
  | cons first rest ih =>
      obtain ⟨placed, following⟩ := tiles
      refine ⟨(samePosition first (by simp)).trans placed, ?_⟩
      rw [sameLength first (by simp)]
      exact ih (fun piece member => samePosition piece (by simp [member]))
        (fun piece member => sameLength piece (by simp [member])) following

theorem start_le (tiles : Tiles position length start pieces finish) : start ≤ finish := by
  induction pieces generalizing start with
  | nil => exact Nat.le_of_eq tiles
  | cons first rest ih => exact Nat.le_trans (Nat.le_add_right ..) (ih tiles.2)

theorem bounds (tiles : Tiles position length start pieces finish) (member : piece ∈ pieces) :
    start ≤ position piece ∧ position piece + length piece ≤ finish := by
  induction pieces generalizing start with
  | nil => simp at member
  | cons first rest ih =>
      obtain ⟨placed, following⟩ := tiles
      have reaches := start_le following
      rcases List.mem_cons.mp member with rfl | member
      · omega
      · have inner := ih following member
        omega

/-- Pieces stand in the order of their positions and never overlap. -/
theorem pairwise (tiles : Tiles position length start pieces finish) :
    pieces.Pairwise fun left right => position left + length left ≤ position right := by
  induction pieces generalizing start with
  | nil => exact .nil
  | cons first rest ih =>
      obtain ⟨placed, following⟩ := tiles
      refine List.pairwise_cons.mpr ⟨?_, ih following⟩
      intro piece member
      have inner := bounds following member
      omega

theorem apart (tiles : Tiles position length start pieces finish) (member : piece ∈ pieces)
    (otherMember : other ∈ pieces) (different : piece ≠ other) :
    position piece + length piece ≤ position other ∨ position other + length other ≤ position piece := by
  have ordered := tiles.pairwise
  clear tiles
  induction pieces with
  | nil => simp at member
  | cons first rest ih =>
      obtain ⟨head, tail⟩ := List.pairwise_cons.mp ordered
      rcases List.mem_cons.mp member with rfl | inRest
      · rcases List.mem_cons.mp otherMember with rfl | otherInRest
        · exact absurd rfl different
        · exact .inl (head other otherInRest)
      · rcases List.mem_cons.mp otherMember with rfl | otherInRest
        · exact .inr (head piece inRest)
        · exact ih inRest otherInRest tail

theorem nodup (tiles : Tiles position length start pieces finish)
    (positive : ∀ piece ∈ pieces, 0 < length piece) : pieces.Nodup := by
  refine List.Pairwise.imp_of_mem ?_ tiles.pairwise
  rintro left right member _ ordered rfl
  have inhabited := positive left member
  omega

/-- Replacing a stretch of pieces by others that cover the same stretch. -/
theorem replace {old new : List α} (tiles : Tiles position length start (before ++ old ++ after) finish)
    (samePosition : ∀ other ∈ before ++ after, position' other = position other)
    (sameLength : ∀ other ∈ before ++ after, length' other = length other)
    (cover : ∀ left right, Tiles position length left old right → Tiles position' length' left new right) :
    Tiles position' length' start (before ++ new ++ after) finish := by
  obtain ⟨right, front, back⟩ := append.mp tiles
  obtain ⟨left, front, middle⟩ := append.mp front
  have front' := front.congr (fun other member => samePosition other (by simp [member]))
    (fun other member => sameLength other (by simp [member]))
  have back' := back.congr (fun other member => samePosition other (by simp [member]))
    (fun other member => sameLength other (by simp [member]))
  exact append.mpr ⟨_, append.mpr ⟨_, front', cover _ _ middle⟩, back'⟩

/-- Adding pieces behind the last one. -/
theorem extend {pieces' : List α} {finish' : Nat} (tiles : Tiles position length start pieces finish)
    (samePosition : ∀ other ∈ pieces, position' other = position other)
    (sameLength : ∀ other ∈ pieces, length' other = length other)
    (added : Tiles position' length' finish pieces' finish') :
    Tiles position' length' start (pieces ++ pieces') finish' :=
  append.mpr ⟨finish, tiles.congr samePosition sameLength, added⟩

/-- Pieces of whole units stand at whole units. -/
theorem position_mod {unit : Nat} (tiles : Tiles position length start pieces finish)
    (whole : ∀ piece ∈ pieces, length piece % unit = 0) (member : piece ∈ pieces) :
    position piece % unit = start % unit := by
  induction pieces generalizing start with
  | nil => simp at member
  | cons first rest ih =>
      obtain ⟨placed, following⟩ := tiles
      rcases List.mem_cons.mp member with rfl | member
      · rw [placed]
      · rw [ih following (fun piece member => whole piece (by simp [member])) member, Nat.add_mod,
          whole first (by simp), Nat.add_zero, Nat.mod_mod]

theorem sum_length (tiles : Tiles position length start pieces finish) :
    start + (pieces.map length).sum = finish := by
  induction pieces generalizing start with
  | nil => exact tiles
  | cons first rest ih =>
      have following := ih tiles.2
      rw [List.map_cons, List.sum_cons, ← Nat.add_assoc]
      exact following

/-- Pieces of a minimal length are few. -/
theorem length_mul_le {least : Nat} (tiles : Tiles position length start pieces finish)
    (atLeast : ∀ piece ∈ pieces, least ≤ length piece) : start + least * pieces.length ≤ finish := by
  induction pieces generalizing start with
  | nil => exact Nat.le_of_eq tiles
  | cons first rest ih =>
      have following := ih tiles.2 fun piece member => atLeast piece (by simp [member])
      have head := atLeast first (by simp)
      rw [List.length_cons, Nat.mul_succ]
      omega

end Tiles

end ScratchOs.Data
