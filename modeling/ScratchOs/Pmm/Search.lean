import ScratchOs.Pmm.Bitmap

namespace ScratchOs.Pmm

open Data

/-! The searches of `pmm.c` in the source's own integers: the indices are of type
`size_t` and the results are `int`s. -/

/-- The loop of `find_first_free_sequence` with its index and its counter. -/
def sequenceLoop (pmm : Pmm) (numBlocks : Word) : Nat → Word → Word → Word
  | 0, _, _ => -1
  | left + 1, i, consecutiveFree =>
      if pmm.isBlockUsed i.toNat then sequenceLoop pmm numBlocks left (i + 1) 0
      else if consecutiveFree + 1 = numBlocks then i - numBlocks + 1
      else sequenceLoop pmm numBlocks left (i + 1) (consecutiveFree + 1)

def findFirstFreeSequenceInt (pmm : Pmm) (numBlocks : Word) : Word :=
  sequenceLoop pmm numBlocks pmm.gBitmapSize 0 0

def blockLoop (pmm : Pmm) : Nat → Word → Word
  | 0, _ => -1
  | left + 1, i => if pmm.isBlockUsed i.toNat then blockLoop pmm left (i + 1) else i

def findFirstFreeBlockInt (pmm : Pmm) : Word := blockLoop pmm pmm.gBitmapSize 0

/-- A block number, or nothing, as an `int`. -/
def intOf : Option Nat → Word
  | none => -1
  | some block => BitVec.ofNat 32 block

variable {pmm : Pmm} {numBlocks i consecutiveFree : Word} {left : Nat}

/-- Below 2^20 blocks no index and no counter wraps. -/
theorem sequenceLoop_eq (small : i.toNat + left < 2 ^ 20) (within : consecutiveFree.toNat ≤ i.toNat) :
    pmm.sequenceLoop numBlocks left i consecutiveFree =
      intOf (pmm.findFirstFreeSequenceFrom numBlocks.toNat left i.toNat consecutiveFree.toNat) := by
  induction left generalizing i consecutiveFree with
  | zero => rfl
  | succ left ih =>
      have next : (i + 1).toNat = i.toNat + 1 := by bv_omega
      have counted : (consecutiveFree + 1).toNat = consecutiveFree.toNat + 1 := by bv_omega
      rw [sequenceLoop, findFirstFreeSequenceFrom]
      by_cases used : pmm.isBlockUsed i.toNat = true
      · rw [if_pos used, if_pos used, ih (by omega) (Nat.zero_le _), next]
        rfl
      · rw [if_neg used, if_neg used]
        by_cases complete : consecutiveFree + 1 = numBlocks
        · have completeNat : consecutiveFree.toNat + 1 = numBlocks.toNat := by rw [← complete, counted]
          rw [if_pos complete, if_pos completeNat, intOf]
          apply BitVec.eq_of_toNat_eq
          rw [BitVec.toNat_ofNat]
          bv_omega
        · have incomplete : ¬ consecutiveFree.toNat + 1 = numBlocks.toNat := by
            rw [← counted]
            exact fun same => complete (BitVec.eq_of_toNat_eq same)
          rw [if_neg complete, if_neg incomplete, ih (by omega) (by omega), next, counted]

theorem findFirstFreeSequenceInt_eq (pmm : Pmm) (numBlocks : Word) :
    pmm.findFirstFreeSequenceInt numBlocks = intOf (pmm.findFirstFreeSequence numBlocks.toNat) := by
  have bound := pmm.gBitmapSize_le
  have start : (0 : Word).toNat = 0 := rfl
  rw [findFirstFreeSequenceInt, sequenceLoop_eq (by omega) (Nat.le_refl _), start, findFirstFreeSequence]

theorem sequenceLoop_one (pmm : Pmm) (left : Nat) (i : Word) : pmm.sequenceLoop 1 left i 0 = pmm.blockLoop left i := by
  induction left generalizing i with
  | zero => rfl
  | succ left ih =>
      rw [sequenceLoop, blockLoop, ih, if_pos (show (0 : Word) + 1 = 1 from rfl), BitVec.sub_add_cancel]

theorem freeRun_one {start : Nat} : pmm.FreeRun start 1 ↔ pmm.isBlockUsed start = false := by
  refine ⟨fun run => run start (Nat.le_refl _) (Nat.lt_succ_self _), fun unused block lower upper => ?_⟩
  rwa [show block = start by omega]

/-- The search for one block is the search for a run of one block. -/
theorem findFirstFreeBlock_eq (pmm : Pmm) : pmm.findFirstFreeBlock = pmm.findFirstFreeSequence 1 := by
  cases found : pmm.findFirstFreeSequence 1 with
  | none =>
      rw [findFirstFreeBlock, List.find?_eq_none]
      intro block inside unused
      have below := List.mem_range.mp inside
      refine findFirstFreeSequence_none Nat.one_pos found block below (freeRun_one.mpr ?_)
      simpa using unused
  | some start =>
      obtain ⟨room, free, lowest⟩ := findFirstFreeSequence_some Nat.one_pos found
      rw [findFirstFreeBlock, List.find?_range_eq_some]
      refine ⟨by simpa using freeRun_one.mp free, List.mem_range.mpr room, fun lower before => ?_⟩
      have used := lowest lower before
      rw [freeRun_one] at used
      simpa using used

theorem findFirstFreeBlockInt_eq (pmm : Pmm) : pmm.findFirstFreeBlockInt = intOf pmm.findFirstFreeBlock := by
  have one : (1 : Word).toNat = 1 := rfl
  rw [findFirstFreeBlockInt, ← sequenceLoop_one, ← findFirstFreeSequenceInt, findFirstFreeSequenceInt_eq, one,
    findFirstFreeBlock_eq]

/-- The result of a first-fit search: the lowest run of free blocks, or `-1` if
there is none. -/
structure FirstFit (pmm : Pmm) (numBlocks : Nat) (result : Int) : Prop where
  found : 0 ≤ result ↔ ∃ start, start + numBlocks ≤ pmm.gBitmapSize ∧ pmm.FreeRun start numBlocks
  lowest : 0 ≤ result → LowestRun pmm pmm.gBitmapSize numBlocks result.toNat
  missed : ¬ 0 ≤ result → result = -1

theorem toInt_intOf {block : Nat} (below : block ≤ pmm.gBitmapSize) : (intOf (some block)).toInt = block := by
  have bound := pmm.gBitmapSize_le
  rw [intOf, BitVec.toInt_eq_toNat_of_lt (by rw [BitVec.toNat_ofNat]; omega), BitVec.toNat_ofNat,
    Nat.mod_eq_of_lt (by omega)]

theorem firstFit_findFirstFreeSequence {numBlocks : Nat} (positive : 0 < numBlocks) :
    FirstFit pmm numBlocks (intOf (pmm.findFirstFreeSequence numBlocks)).toInt := by
  cases searched : pmm.findFirstFreeSequence numBlocks with
  | none =>
      have negative : ¬ 0 ≤ (intOf none).toInt := by decide
      refine ⟨iff_of_false negative ?_, fun nonnegative => absurd nonnegative negative, fun _ => rfl⟩
      rintro ⟨start, room, free⟩
      exact findFirstFreeSequence_none positive searched start room free
  | some start =>
      have lowest := findFirstFreeSequence_some positive searched
      have value := @toInt_intOf pmm start (Nat.le_of_add_right_le lowest.room)
      have nonnegative : 0 ≤ (intOf (some start)).toInt := value ▸ Int.natCast_nonneg start
      refine ⟨iff_of_true nonnegative ⟨start, lowest.room, lowest.free⟩, fun _ => ?_,
        fun negative => absurd nonnegative negative⟩
      rwa [value]

/-- `find_first_free_sequence` is a first-fit search for every request, and for one
block it is `find_first_free_block`. -/
theorem findFirstFreeSequenceInt_firstFit (pmm : Pmm) (numBlocks : Word) (positive : 1 ≤ numBlocks.toNat) :
    FirstFit pmm numBlocks.toNat (pmm.findFirstFreeSequenceInt numBlocks).toInt ∧
      (numBlocks = 1 → pmm.findFirstFreeSequenceInt numBlocks = pmm.findFirstFreeBlockInt) := by
  refine ⟨?_, ?_⟩
  · rw [findFirstFreeSequenceInt_eq]
    exact firstFit_findFirstFreeSequence positive
  · rintro rfl
    exact sequenceLoop_one pmm pmm.gBitmapSize 0

/-- Four blocks, of which block 1 is used. -/
def fourBlocks : Pmm := ⟨fun _ => 2, 4, by decide⟩

theorem findFirstFreeSequenceInt_firstFit_fourBlocks :
    FirstFit fourBlocks 2 (fourBlocks.findFirstFreeSequenceInt 2).toInt :=
  (findFirstFreeSequenceInt_firstFit fourBlocks 2 (by decide)).1

example : (fourBlocks.findFirstFreeSequenceInt 2).toInt = 2 := by decide

end ScratchOs.Pmm
