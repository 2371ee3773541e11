import ScratchOs.Boot.Fat

namespace ScratchOs.Boot

open Data

/-! The layout of a FAT12 table: two entries in three bytes, the even one in
the low twelve bits. -/

/-- The table an odd number of entries makes ends inside its last byte. -/
def packEntries : List (BitVec 12) → List Byte
  | [] => []
  | [last] => [last.setWidth 8, (last >>> 8).setWidth 8]
  | even :: odd :: rest =>
      even.setWidth 8 :: ((even >>> 8).setWidth 8 ||| (odd.setWidth 8 <<< 4)) :: (odd >>> 4).setWidth 8 ::
        packEntries rest

def Holds (memory : ByteMemory) (address : Word) (bytes : List Byte) : Prop :=
  ∀ place byte, bytes[place]? = some byte → memory (address + BitVec.ofNat 32 place) = byte

variable {memory other : ByteMemory} {fat : Word} {entries : List (BitVec 12)} {index : Nat}

theorem length_packEntries (entries : List (BitVec 12)) : (packEntries entries).length = (entries.length * 3 + 1) / 2 := by
  fun_induction packEntries entries with
  | case1 => rfl
  | case2 last => simp
  | case3 even odd rest ih =>
      simp only [List.length_cons, ih]
      omega

/-- What an entry is, from the two bytes it reaches into. -/
def entryOf (index : Nat) (first second : Byte) : Nat :=
  if index % 2 = 0 then first.toNat + 256 * (second.toNat % 16) else first.toNat / 16 + 16 * second.toNat

theorem lowByte_toNat (entry : BitVec 12) : (entry.setWidth 8).toNat = entry.toNat % 256 := BitVec.toNat_setWidth ..

theorem shiftedByte_toNat (entry : BitVec 12) (count : Nat) :
    ((entry >>> count).setWidth 8).toNat = entry.toNat / 2 ^ count % 256 := by
  rw [BitVec.toNat_setWidth, BitVec.toNat_ushiftRight, Nat.shiftRight_eq_div_pow]

/-- The byte in the middle: the high nibble of one entry below the low nibble of the next. -/
theorem sharedByte_toNat (even odd : BitVec 12) :
    ((even >>> 8).setWidth 8 ||| ((odd.setWidth 8 : Byte) <<< 4)).toNat =
      even.toNat / 256 + 16 * (odd.toNat % 16) := by
  have evenLt := even.isLt
  have high : ((odd.setWidth 8 : Byte) <<< 4).toNat = (odd.toNat % 16) <<< 4 := by
    rw [BitVec.toNat_shiftLeft, lowByte_toNat, Nat.shiftLeft_eq, Nat.shiftLeft_eq]
    omega
  have low : ((even >>> 8).setWidth 8).toNat = even.toNat / 256 := by
    rw [shiftedByte_toNat]
    omega
  have nibble : even.toNat / 256 < 2 ^ 4 := by omega
  rw [BitVec.toNat_or, high, low, Nat.or_comm, ← Nat.shiftLeft_add_eq_or_of_lt nibble, Nat.shiftLeft_eq]
  omega

/-- Every entry is found at its place, whatever its neighbours are. -/
theorem packEntries_entry (inside : index < entries.length) :
    ∃ first second, (packEntries entries)[index * 3 / 2]? = some first ∧
      (packEntries entries)[index * 3 / 2 + 1]? = some second ∧ entryOf index first second = entries[index].toNat := by
  fun_induction packEntries entries generalizing index with
  | case1 => simp at inside
  | case2 last =>
      obtain rfl : index = 0 := by simpa using inside
      refine ⟨_, _, rfl, rfl, ?_⟩
      have bound := last.isLt
      rw [entryOf, if_pos rfl, lowByte_toNat, shiftedByte_toNat, List.getElem_cons_zero]
      omega
  | case3 even odd rest ih =>
      have evenLt := even.isLt
      have oddLt := odd.isLt
      match index, inside with
      | 0, _ =>
          refine ⟨_, _, rfl, rfl, ?_⟩
          rw [entryOf, if_pos rfl, lowByte_toNat, sharedByte_toNat, List.getElem_cons_zero]
          omega
      | 1, _ =>
          refine ⟨_, _, rfl, rfl, ?_⟩
          rw [entryOf, if_neg (by decide), sharedByte_toNat, shiftedByte_toNat, List.getElem_cons_succ,
            List.getElem_cons_zero]
          omega
      | index + 2, inside =>
          obtain ⟨first, second, firstAt, secondAt, value⟩ := ih (show index < rest.length by simpa using inside)
          have place : (index + 2) * 3 / 2 = index * 3 / 2 + 3 := by omega
          refine ⟨first, second, by simpa [place] using firstAt, by simpa [place] using secondAt, ?_⟩
          rw [entryOf, Nat.add_mod_right]
          exact value

theorem fatEntry_packed (packed : Holds memory fat (packEntries entries)) (inside : index < entries.length) :
    fatEntry memory fat index = entries[index].toNat := by
  obtain ⟨first, second, firstAt, secondAt, value⟩ := packEntries_entry inside
  rw [← value, entryOf, ← packed _ _ firstAt, ← packed _ _ secondAt]
  rfl

theorem getNextCluster_packed (few : entries.length < 2 ^ 30) (packed : Holds memory fat (packEntries entries))
    (inside : index < entries.length) :
    getNextCluster memory fat (BitVec.ofNat 32 index) = entries[index].setWidth 32 := by
  have bound := entries[index].isLt
  apply BitVec.eq_of_toNat_eq
  rw [getNextCluster_eq memory fat (by omega), fatEntry_packed packed inside, BitVec.toNat_setWidth,
    Nat.mod_eq_of_lt (by omega)]

theorem getNextCluster_congr (small : index < 2 ^ 30) (same : ∀ place ∈ entryBytes fat index, other place = memory place) :
    getNextCluster other fat (BitVec.ofNat 32 index) = getNextCluster memory fat (BitVec.ofNat 32 index) := by
  apply BitVec.eq_of_toNat_eq
  rw [getNextCluster_eq _ _ small, getNextCluster_eq _ _ small]
  exact fatEntry_congr (same _ (.inl rfl)) (same _ (.inr rfl))

/-- The two bytes an entry is read from belong to the table, also for the last
entry of an odd number. -/
theorem entryBytes_inside (inside : index < entries.length) :
    ∀ place ∈ entryBytes fat index, ∃ offset < (packEntries entries).length, place = fat + BitVec.ofNat 32 offset := by
  rw [length_packEntries]
  rintro place (rfl | rfl)
  · exact ⟨_, by omega, rfl⟩
  · exact ⟨_, by omega, rfl⟩

/-- `get_next_cluster` inverts the packing, reads nothing but the table, and
changes with the entry it is asked for only. -/
theorem getNextCluster_unpacks (entries : List (BitVec 12)) (few : entries.length < 2 ^ 30) (memory : ByteMemory)
    (fat : Word) (packed : Holds memory fat (packEntries entries)) (index : Nat) (inside : index < entries.length) :
    getNextCluster memory fat (BitVec.ofNat 32 index) = entries[index].setWidth 32 ∧
    (∀ place ∈ entryBytes fat index, ∃ offset < (packEntries entries).length,
      place = fat + BitVec.ofNat 32 offset) ∧
    (∀ other : ByteMemory, (∀ place ∈ entryBytes fat index, other place = memory place) →
      getNextCluster other fat (BitVec.ofNat 32 index) = getNextCluster memory fat (BitVec.ofNat 32 index)) ∧
    ∀ (changed : Nat) (value : BitVec 12) (rewritten : ByteMemory),
      Holds rewritten fat (packEntries (entries.set changed value)) →
      getNextCluster rewritten fat (BitVec.ofNat 32 index) =
        if index = changed then value.setWidth 32 else getNextCluster memory fat (BitVec.ofNat 32 index) := by
  have decoded := getNextCluster_packed few packed inside
  refine ⟨decoded, entryBytes_inside inside, fun other same => getNextCluster_congr (by omega) same,
    fun changed value rewritten packed' => ?_⟩
  have again := @getNextCluster_packed rewritten fat (entries.set changed value) index (by simpa using few) packed'
    (by simpa using inside)
  rw [again, List.getElem_set, decoded]
  by_cases same : changed = index
  · rw [if_pos same, if_pos same.symm]
  · rw [if_neg same, if_neg (Ne.symm same)]

def memoryWith (address : Word) (bytes : List Byte) : ByteMemory := fun place =>
  (bytes[(place - address).toNat]?).getD 0

theorem holds_memoryWith (address : Word) {bytes : List Byte} (few : bytes.length ≤ 2 ^ 32) :
    Holds (memoryWith address bytes) address bytes := by
  intro place byte found
  have below := (List.getElem?_eq_some_iff.mp found).1
  have offset : (address + BitVec.ofNat 32 place - address).toNat = place := by bv_omega
  rw [memoryWith, offset, found, Option.getD_some]

/-- Three entries in five bytes. -/
theorem getNextCluster_unpacks_threeEntries : ∃ memory : ByteMemory,
    Holds memory 0x9b4c (packEntries [0xFF0, 0xFFF, 0x003]) ∧
      getNextCluster memory 0x9b4c 2 = 3 := by
  have packed := holds_memoryWith 0x9b4c (show (packEntries [0xFF0, 0xFFF, 0x003]).length ≤ 2 ^ 32 by decide)
  exact ⟨_, packed, (getNextCluster_unpacks _ (by decide) _ _ packed 2 (by decide)).1⟩

end ScratchOs.Boot
