import Mathlib.Data.List.Perm.Basic
import Mathlib.Data.Set.Lattice
import Mathlib.Order.CompletePartialOrder

namespace ScratchOs.Data

/-! Exclusive ownership of a pool of resources.

A pool is described by the resources in use, the part of it that was in use
before anybody asked (`base`), and the list of current owners, each with the
region it holds. `Owned` is the whole bookkeeping law; taking a region nobody
uses and giving a region back are the only two moves that keep it.
-/

variable {ι α : Type*}

structure Owned (region : ι → Set α) (base used : Set α) (owners : List ι) : Prop where
  used_iff : ∀ x, x ∈ used ↔ x ∈ base ∨ ∃ owner ∈ owners, x ∈ region owner
  disjoint : owners.Pairwise fun left right => Disjoint (region left) (region right)
  fresh : ∀ owner ∈ owners, Disjoint (region owner) base

namespace Owned

variable {region : ι → Set α} {base used : Set α} {owners : List ι} {owner : ι}

theorem start (region : ι → Set α) (base : Set α) : Owned region base base [] where
  used_iff := by simp
  disjoint := .nil
  fresh := by simp

theorem region_subset (owned : Owned region base used owners) (member : owner ∈ owners) :
    region owner ⊆ used :=
  fun x inside => (owned.used_iff x).mpr (.inr ⟨owner, member, inside⟩)

theorem take (owned : Owned region base used owners) (free : Disjoint (region owner) used) :
    Owned region base (used ∪ region owner) (owner :: owners) where
  used_iff x := by
    simp only [Set.mem_union, owned.used_iff x, List.mem_cons, exists_eq_or_imp, or_assoc]
    rw [or_comm (b := x ∈ region owner)]
  disjoint := by
    refine List.pairwise_cons.mpr ⟨?_, owned.disjoint⟩
    intro other member
    exact free.mono_right (owned.region_subset member)
  fresh := by
    intro other member
    rcases List.mem_cons.mp member with rfl | member
    · exact free.mono_right fun x inside => (owned.used_iff x).mpr (.inl inside)
    · exact owned.fresh other member

variable [DecidableEq ι]

/-- An owner's region meets no region that survives its release, also when
several owners are listed with the same name. -/
theorem disjoint_of_mem_erase (owned : Owned region base used owners) (member : owner ∈ owners)
    {other : ι} (remains : other ∈ owners.erase owner) : Disjoint (region other) (region owner) := by
  have reordered : (owner :: owners.erase owner).Pairwise
      fun left right => Disjoint (region left) (region right) :=
    (List.perm_cons_erase member).pairwise_iff (fun apart => apart.symm) |>.mp owned.disjoint
  exact ((List.pairwise_cons.mp reordered).1 other remains).symm

theorem release (owned : Owned region base used owners) (member : owner ∈ owners) :
    Owned region base (used \ region owner) (owners.erase owner) where
  used_iff x := by
    rw [Set.mem_sdiff, owned.used_iff x]
    constructor
    · rintro ⟨inBase | ⟨other, otherMember, inside⟩, outside⟩
      · exact .inl inBase
      · have different : other ≠ owner := fun same => outside (same ▸ inside)
        exact .inr ⟨other, (List.mem_erase_of_ne different).mpr otherMember, inside⟩
    · rintro (inBase | ⟨other, remains, inside⟩)
      · exact ⟨.inl inBase, fun inside => Set.disjoint_left.mp (owned.fresh owner member) inside inBase⟩
      · exact ⟨.inr ⟨other, List.mem_of_mem_erase remains, inside⟩,
          Set.disjoint_left.mp (owned.disjoint_of_mem_erase member remains) inside⟩
  disjoint := owned.disjoint.sublist List.erase_sublist
  fresh other remains := owned.fresh other (List.mem_of_mem_erase remains)

omit [DecidableEq ι] in
theorem countP_eq_one (disjoint : owners.Pairwise fun left right => Disjoint (region left) (region right))
    {x : α} {holds : ι → Bool} (reads : ∀ owner, holds owner = true ↔ x ∈ region owner) :
    owners.countP holds = 1 ↔ ∃ owner ∈ owners, x ∈ region owner := by
  induction owners with
  | nil => simp
  | cons first rest ih =>
      obtain ⟨headApart, restApart⟩ := List.pairwise_cons.mp disjoint
      by_cases inside : x ∈ region first
      · have absent : rest.countP holds = 0 := by
          refine List.countP_eq_zero.mpr fun other member holdsOther => ?_
          exact Set.disjoint_left.mp (headApart other member) inside ((reads other).mp holdsOther)
        simp [(reads first).mpr inside, absent, inside]
      · have skipped : ¬ holds first = true := fun held => inside ((reads first).mp held)
        rw [List.countP_cons_of_neg skipped, ih restApart]
        simp [inside]

end Owned

/-! The same law where owners come and go by themselves: who owns what is a
relation, read off the state, and an owner may have nothing. -/

structure SoleOwners (owns : ι → α → Prop) (used : Set α) : Prop where
  used : ∀ owner x, owns owner x → x ∈ used
  unique : ∀ left right x, owns left x → owns right x → left = right

namespace SoleOwners

variable {owns owns' : ι → α → Prop} {used used' : Set α} {owner giver : ι} {x : α}

theorem mono (sole : SoleOwners owns used) (fewer : ∀ other y, owns' other y → owns other y)
    (more : used ⊆ used') : SoleOwners owns' used' where
  used other y held := more (sole.used other y (fewer other y held))
  unique left right y leftHeld rightHeld := sole.unique left right y (fewer left y leftHeld) (fewer right y rightHeld)

theorem take (sole : SoleOwners owns used) (free : x ∉ used)
    (changed : ∀ other y, owns' other y → owns other y ∨ other = owner ∧ y = x) (more : insert x used ⊆ used') :
    SoleOwners owns' used' where
  used other y held := by
    rcases changed other y held with old | ⟨_, rfl⟩
    · exact more (.inr (sole.used other y old))
    · exact more (.inl rfl)
  unique left right y leftHeld rightHeld := by
    rcases changed left y leftHeld with leftOld | ⟨leftNew, rfl⟩
    · rcases changed right y rightHeld with rightOld | ⟨_, rfl⟩
      · exact sole.unique left right y leftOld rightOld
      · exact absurd (sole.used left y leftOld) free
    · rcases changed right y rightHeld with rightOld | ⟨rightNew, _⟩
      · exact absurd (sole.used right y rightOld) free
      · rw [leftNew, rightNew]

/-- What one owner has passes to another. -/
theorem pass (sole : SoleOwners owns used) (given : owns giver x)
    (changed : ∀ other y, owns' other y → (owns other y ∧ (y = x → other ≠ giver)) ∨ other = owner ∧ y = x) :
    SoleOwners owns' used where
  used other y held := by
    rcases changed other y held with ⟨old, _⟩ | ⟨_, rfl⟩
    · exact sole.used other y old
    · exact sole.used giver y given
  unique left right y leftHeld rightHeld := by
    rcases changed left y leftHeld with ⟨leftOld, leftKeeps⟩ | ⟨leftNew, rfl⟩
    · rcases changed right y rightHeld with ⟨rightOld, _⟩ | ⟨_, rfl⟩
      · exact sole.unique left right y leftOld rightOld
      · exact absurd (sole.unique left giver y leftOld given) (leftKeeps rfl)
    · rcases changed right y rightHeld with ⟨rightOld, rightKeeps⟩ | ⟨rightNew, _⟩
      · exact absurd (sole.unique right giver y rightOld given) (rightKeeps rfl)
      · rw [leftNew, rightNew]

theorem give (sole : SoleOwners owns used) (given : owns giver x)
    (changed : ∀ other y, owns' other y → owns other y ∧ (y = x → other ≠ giver))
    (more : ∀ y ∈ used, y ≠ x → y ∈ used') : SoleOwners owns' used' where
  used other y held := by
    obtain ⟨old, keeps⟩ := changed other y held
    refine more y (sole.used other y old) ?_
    rintro rfl
    exact keeps rfl (sole.unique other giver y old given)
  unique left right y leftHeld rightHeld :=
    sole.unique left right y (changed left y leftHeld).1 (changed right y rightHeld).1

end SoleOwners

end ScratchOs.Data
