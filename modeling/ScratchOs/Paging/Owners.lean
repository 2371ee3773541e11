import ScratchOs.Data.Ownership
import ScratchOs.Paging.Boot

namespace ScratchOs.Machine

open Data

/-! Who uses which frame, also after `map_address` has run out of frames.

Several slots may then have a table on frame 0, so that two pages share an
entry. Frame 0 is left out of the account, and a page owns its frame through
the place of its entry. -/

inductive Owner where
  | directory
  | table (slot : Word)
  | page (place : Word)
  | client

/-- Where the entry of a page is in memory. -/
def place (machine : Machine) (virtualAddr : Word) : Word :=
  entryAddress (machine.tableFrame (getPageDirIndex virtualAddr)) (getPageTableIndex virtualAddr)

/-- The machine, the pages its clients have mapped and the frames they hold. -/
structure Shared where
  machine : Machine
  pages : Set Word
  held : Set Word

namespace Shared

def Owns (state : Shared) (owner : Owner) (frame : Word) : Prop :=
  frame ≠ 0 ∧ match owner with
    | .directory => frame = state.machine.directory
    | .table slot => slot.toNat < 1023 ∧ state.machine.Present slot ∧ state.machine.tableFrame slot = frame
    | .page place => ∃ virtualAddr ∈ state.pages, state.machine.frameOf virtualAddr = some frame ∧
        state.machine.place virtualAddr = place
    | .client => frame ∈ state.held

/-- The frames the bitmap marks as used, without the one at 0. -/
def usedFrames (state : Shared) : Set Word :=
  { frame | frame ≠ 0 ∧ frame.toNat % 4096 = 0 ∧ state.machine.pmm.isBlockUsed (frame.toNat / 4096) = true }

/-- The law of the paging code and its clients. -/
structure Accounted (state : Shared) : Prop where
  self : state.machine.SelfMapped
  nonnull : state.machine.directory ≠ 0
  outside : ∀ virtualAddr ∈ state.pages, (getPageDirIndex virtualAddr).toNat < 1023
  sole : SoleOwners state.Owns state.usedFrames

end Shared

variable {machine : Machine} {pdi pti slot index value virtualAddr other frame : Word}

theorem entryAddress_inj {left right : Word} (leftAligned : left.toNat % 4096 = 0) (rightAligned : right.toNat % 4096 = 0)
    (within : pti.toNat < 1024) (indexWithin : index.toNat < 1024)
    (same : entryAddress left pti = entryAddress right index) : left = right ∧ pti = index := by
  unfold entryAddress at same
  constructor
  · bv_omega
  · bv_omega

/-- Writing an entry changes what is read at its place and nothing else. -/
theorem setEntry_entry (apart : machine.tableFrame pdi ≠ machine.directory) (within : pti.toNat < 1024)
    (inside : slot.toNat < 1024) (indexWithin : index.toNat < 1024) :
    (machine.setEntry pdi pti value).entry slot index =
      if entryAddress (machine.tableFrame slot) index = entryAddress (machine.tableFrame pdi) pti then value
      else machine.entry slot index := by
  by_cases same : machine.tableFrame slot = machine.tableFrame pdi
  · have read := @read_entry_write machine.memory (machine.tableFrame pdi) pti index value (machine.tableFrame_mod pdi)
      within indexWithin
    have written : (machine.setEntry pdi pti value).tableEntry (machine.directoryEntry slot) index =
        (machine.memory.write32 (entryAddress (machine.tableFrame pdi) pti) value).read32
          (entryAddress (machine.tableFrame slot) index) := rfl
    rw [entry, setEntry_directoryEntry apart within inside, written, same, read]
    by_cases equal : index = pti
    · rw [if_pos equal, if_pos (congrArg _ equal)]
    · rw [if_neg equal, if_neg fun address => equal ?_]
      · rw [← same]
        rfl
      · exact (entryAddress_inj (machine.tableFrame_mod pdi) (machine.tableFrame_mod pdi) indexWithin within address).2
  · rw [setEntry_entry_apart apart within inside indexWithin (Ne.symm same), if_neg fun equal => same ?_]
    exact (entryAddress_inj (machine.tableFrame_mod slot) (machine.tableFrame_mod pdi) indexWithin within equal).1

theorem setEntry_present (apart : machine.tableFrame pdi ≠ machine.directory) (within : pti.toNat < 1024)
    (inside : slot.toNat < 1024) : (machine.setEntry pdi pti value).Present slot ↔ machine.Present slot := by
  rw [Present, setEntry_directoryEntry apart within inside]

theorem setEntry_place (apart : machine.tableFrame pdi ≠ machine.directory) (within : pti.toNat < 1024) :
    (machine.setEntry pdi pti value).place other = machine.place other := by
  rw [place, place, tableFrame, setEntry_directoryEntry apart within (getPageDirIndex_lt other), tableFrame]

theorem setEntry_walk_elsewhere (apart : machine.tableFrame pdi ≠ machine.directory) (within : pti.toNat < 1024)
    (elsewhere : machine.place other ≠ entryAddress (machine.tableFrame pdi) pti) :
    (machine.setEntry pdi pti value).walk other = machine.walk other := by
  refine walk_congr (setEntry_directoryEntry apart within (getPageDirIndex_lt other)) fun _ => ?_
  rw [setEntry_entry apart within (getPageDirIndex_lt other) (getPageTableIndex_lt other)]
  exact if_neg elsewhere

/-- Every page whose entry is at this place goes through it. -/
theorem setEntry_walk_here (apart : machine.tableFrame pdi ≠ machine.directory) (within : pti.toNat < 1024)
    (present : machine.Present (getPageDirIndex other))
    (here : machine.place other = entryAddress (machine.tableFrame pdi) pti) :
    (machine.setEntry pdi pti value).walk other =
      if testFlag value ptePresent then some (machine.directoryEntry (getPageDirIndex other), value) else none := by
  have directory := @setEntry_directoryEntry machine pdi pti _ value apart within (getPageDirIndex_lt other)
  rw [walk_of_present ((setEntry_present apart within (getPageDirIndex_lt other)).mpr present), directory,
    setEntry_entry apart within (getPageDirIndex_lt other) (getPageTableIndex_lt other)]
  rw [place] at here
  rw [if_pos here]

/-- A page is on the frame of the new entry or where it was. -/
theorem setEntry_frameOf (apart : machine.tableFrame pdi ≠ machine.directory) (within : pti.toNat < 1024)
    (found : (machine.setEntry pdi pti value).frameOf other = some frame) :
    machine.place other = entryAddress (machine.tableFrame pdi) pti ∧ testFlag value ptePresent = true ∧
        frame = getAddr value ∨
      machine.place other ≠ entryAddress (machine.tableFrame pdi) pti ∧ machine.frameOf other = some frame := by
  by_cases here : machine.place other = entryAddress (machine.tableFrame pdi) pti
  · have present := (setEntry_present apart within (getPageDirIndex_lt other)).mp (present_of_frameOf found)
    rw [frameOf, setEntry_walk_here apart within present here] at found
    split at found
    · next set => exact .inl ⟨here, set, (Option.some.inj found).symm⟩
    · cases found
  · rw [frameOf, setEntry_walk_elsewhere apart within here] at found
    exact .inr ⟨here, found⟩

/-- Whatever was left in the entry, its address is the frame. -/
theorem getAddr_mappedEntry (aligned : frame.toNat % 4096 = 0) {flags : Word} (small : flags.toNat < 4096) (pte : Word) :
    getAddr (mappedEntry pte frame flags) = frame := by
  have low := present_flags_lt small
  rw [mappedEntry]
  generalize ptePresent ||| flags = bits at low ⊢
  conv_rhs => rw [← getAddr_of_aligned aligned]
  apply BitVec.eq_of_getLsbD_eq
  intro bit inside
  simp only [getAddr, setFlag, setAddr, BitVec.getLsbD_and, BitVec.getLsbD_or, BitVec.getLsbD_not,
    frameMask_getLsbD bit inside]
  by_cases high : 12 ≤ bit
  · simp [high, getLsbD_of_lt low high]
  · simp [high]

namespace Shared

variable {pages held : Set Word} {owner : Owner}

theorem Accounted.apart {state : Shared} (accounted : state.Accounted) (inside : slot.toNat < 1023)
    (present : state.machine.Present slot) : state.machine.tableFrame slot ≠ state.machine.directory := by
  intro same
  have table : state.Owns (.table slot) state.machine.directory := ⟨accounted.nonnull, inside, present, same⟩
  have directory : state.Owns .directory state.machine.directory := ⟨accounted.nonnull, rfl⟩
  cases accounted.sole.unique _ _ _ table directory

theorem Accounted.held_mod {state : Shared} (accounted : state.Accounted) (member : frame ∈ state.held ∨ frame = 0) :
    frame.toNat % 4096 = 0 := by
  by_cases null : frame = 0
  · rw [null]
    rfl
  · exact (accounted.sole.used .client frame ⟨null, member.resolve_right null⟩).2.1

theorem taken_unused (nonnull : machine.allocBlock.1 ≠ 0) : machine.allocBlock.1 ∉ usedFrames ⟨machine, pages, held⟩ :=
  fun member => Bool.noConfusion ((taken_of_nonnull nonnull).1.symm.trans member.2.2)

/-- Whoever gets the frame that `alloc_block` returns is its only owner. -/
theorem Accounted.sole_take {after : Shared} {taker : Owner} (accounted : Accounted ⟨machine, pages, held⟩)
    (bitmap : after.machine.pmm = machine.allocBlock.2.pmm)
    (changed : ∀ owner frame, after.Owns owner frame →
      Owns ⟨machine, pages, held⟩ owner frame ∨ owner = taker ∧ frame = machine.allocBlock.1) :
    SoleOwners after.Owns after.usedFrames := by
  have grown : ∀ frame ∈ usedFrames ⟨machine, pages, held⟩, frame ∈ after.usedFrames := by
    rintro frame ⟨nonnull, aligned, used⟩
    refine ⟨nonnull, aligned, ?_⟩
    rw [bitmap]
    exact Pmm.allocBlock_used used
  by_cases null : machine.allocBlock.1 = 0
  · refine accounted.sole.mono (fun owner frame owns => ?_) grown
    exact (changed owner frame owns).resolve_right fun taken => owns.1 (taken.2.trans null)
  · refine accounted.sole.take (taken_unused null) changed (Set.insert_subset ?_ grown)
    refine ⟨null, machine.pmm.allocBlock_mod, ?_⟩
    rw [bitmap]
    exact (taken_of_nonnull null).2

/-- The frame given back was its owner's, and no other is marked free: two
frames are different blocks. -/
theorem Accounted.sole_give {after : Shared} {giver : Owner} (accounted : Accounted ⟨machine, pages, held⟩)
    (bitmap : after.machine.pmm = machine.pmm.freeBlock frame) (aligned : frame.toNat % 4096 = 0)
    (given : frame ≠ 0 → Owns ⟨machine, pages, held⟩ giver frame)
    (changed : ∀ owner kept, after.Owns owner kept →
      Owns ⟨machine, pages, held⟩ owner kept ∧ (kept = frame → owner ≠ giver)) :
    SoleOwners after.Owns after.usedFrames := by
  have remains : ∀ kept ∈ usedFrames ⟨machine, pages, held⟩, kept ≠ frame → kept ∈ after.usedFrames := by
    rintro kept ⟨nonnull, keptAligned, used⟩ different
    refine ⟨nonnull, keptAligned, ?_⟩
    have apart : kept.toNat / 4096 ≠ frame.toNat / 4096 := fun same => different (BitVec.eq_of_toNat_eq (by omega))
    rw [bitmap, Pmm.freeBlock, Pmm.isBlockUsed_markBlockFree, used]
    simp only [bitmapBlockSize, apart, decide_false, Bool.not_false, Bool.and_self]
  by_cases null : frame = 0
  · refine accounted.sole.mono (fun owner kept owns => (changed owner kept owns).1) fun kept used => ?_
    exact remains kept used fun same => used.1 (same.trans null)
  · exact accounted.sole.give (given null) changed remains

theorem Accounted.allocBlock (accounted : Accounted ⟨machine, pages, held⟩) :
    Accounted ⟨machine.allocBlock.2, pages, insert machine.allocBlock.1 held⟩ := by
  have changed : ∀ owner frame, Owns ⟨machine.allocBlock.2, pages, insert machine.allocBlock.1 held⟩ owner frame →
      Owns ⟨machine, pages, held⟩ owner frame ∨ owner = .client ∧ frame = machine.allocBlock.1 := by
    rintro owner frame ⟨nonnull, owns⟩
    cases owner with
    | directory => exact .inl ⟨nonnull, owns⟩
    | table slot => exact .inl ⟨nonnull, owns⟩
    | page place => exact .inl ⟨nonnull, owns⟩
    | client =>
        rcases owns with taken | member
        · exact .inr ⟨rfl, taken⟩
        · exact .inl ⟨nonnull, member⟩
  exact ⟨accounted.self.congr fun _ _ => rfl, accounted.nonnull, accounted.outside, accounted.sole_take rfl changed⟩

theorem Accounted.freeBlock (accounted : Accounted ⟨machine, pages, held⟩) (member : frame ∈ held ∨ frame = 0) :
    Accounted ⟨machine.freeBlock frame, pages, held \ {frame}⟩ := by
  have changed : ∀ owner kept, Owns ⟨machine.freeBlock frame, pages, held \ {frame}⟩ owner kept →
      Owns ⟨machine, pages, held⟩ owner kept ∧ (kept = frame → owner ≠ .client) := by
    rintro owner kept ⟨nonnull, owns⟩
    cases owner with
    | directory => exact ⟨⟨nonnull, owns⟩, by simp⟩
    | table slot => exact ⟨⟨nonnull, owns⟩, by simp⟩
    | page place => exact ⟨⟨nonnull, owns⟩, by simp⟩
    | client => exact ⟨⟨nonnull, owns.1⟩, fun same => absurd same owns.2⟩
  have given : frame ≠ 0 → Owns ⟨machine, pages, held⟩ .client frame :=
    fun nonnull => ⟨nonnull, member.resolve_right nonnull⟩
  exact ⟨accounted.self.congr fun _ _ => rfl, accounted.nonnull, accounted.outside,
    accounted.sole_give rfl (accounted.held_mod member) given changed⟩

theorem Accounted.slotReady (accounted : Accounted ⟨machine, pages, held⟩) (inside : pdi.toNat < 1023) :
    machine.SlotReady pdi := by
  refine ⟨accounted.self, inside, accounted.apart inside, fun _ same => ?_⟩
  have directory : Owns ⟨machine, pages, held⟩ .directory machine.allocBlock.1 :=
    ⟨by rw [same]; exact accounted.nonnull, same⟩
  exact taken_unused directory.1 (accounted.sole.used _ _ directory)

/-- What is left of a page's entry once a new table has been cleared. -/
theorem Accounted.enterTable_frameOf (accounted : Accounted ⟨machine, pages, held⟩) (inside : pdi.toNat < 1023)
    (absent : ¬ machine.Present pdi) (otherInside : (getPageDirIndex other).toNat < 1023)
    (found : (machine.allocBlock.2.enterTable pdi machine.allocBlock.1).frameOf other = some frame) :
    machine.frameOf other = some frame ∧
      (machine.allocBlock.2.enterTable pdi machine.allocBlock.1).place other = machine.place other := by
  have aligned : machine.allocBlock.1.toNat % 4096 = 0 := machine.pmm.allocBlock_mod
  have apart : machine.allocBlock.1 ≠ machine.allocBlock.2.directory := (accounted.slotReady inside).absent absent
  have within := getPageTableIndex_lt other
  have present := present_of_frameOf found
  have empty : ∀ slot,
      (machine.allocBlock.2.enterTable pdi machine.allocBlock.1).entry slot (getPageTableIndex other) = 0 →
      getPageDirIndex other ≠ slot := by
    rintro slot zero rfl
    rw [frameOf, walk_of_present present, zero, testFlag_zero, if_neg (by simp)] at found
    cases found
  have different : getPageDirIndex other ≠ pdi :=
    empty pdi (enterTable_entry_self (by omega) within aligned apart)
  have kept := @enterTable_directoryEntry machine.allocBlock.2 pdi _ _ (by omega) (getPageDirIndex_lt other) aligned apart
  rw [if_neg different] at kept
  have clear : machine.allocBlock.1 ≠ machine.allocBlock.2.tableFrame (getPageDirIndex other) := by
    intro same
    refine empty _ ?_ rfl
    rw [entry, tableEntry, kept, ← tableFrame, ← same]
    exact read_entry_clearFrame aligned within
  rw [Present, kept] at present
  have entries := @enterTable_entry_apart machine.allocBlock.2 pdi _ _ _ (by omega) (getPageDirIndex_lt other) within
    aligned apart different clear (accounted.apart otherInside present)
  constructor
  · rw [frameOf, walk_congr kept fun _ => entries] at found
    exact found
  · rw [place, place, tableFrame, kept]
    rfl

theorem Accounted.withTable (accounted : Accounted ⟨machine, pages, held⟩) (inside : pdi.toNat < 1023) :
    Accounted ⟨machine.withTable pdi, pages, held⟩ := by
  by_cases present : machine.Present pdi
  · rwa [withTable_of_present present]
  have opened := (accounted.slotReady inside).withTable
  have apart : machine.allocBlock.1 ≠ machine.allocBlock.2.directory := (accounted.slotReady inside).absent present
  have aligned : machine.allocBlock.1.toNat % 4096 = 0 := machine.pmm.allocBlock_mod
  rw [withTable_of_absent present] at opened ⊢
  have changed : ∀ owner frame,
      Owns ⟨machine.allocBlock.2.enterTable pdi machine.allocBlock.1, pages, held⟩ owner frame →
      Owns ⟨machine, pages, held⟩ owner frame ∨ owner = .table pdi ∧ frame = machine.allocBlock.1 := by
    rintro owner frame ⟨nonnull, owns⟩
    cases owner with
    | directory => exact .inl ⟨nonnull, owns.trans (enterTable_directory _ _ _)⟩
    | table slot =>
        obtain ⟨slotInside, slotPresent, address⟩ := owns
        by_cases same : slot = pdi
        · subst same
          exact .inr ⟨rfl, address.symm.trans (enterTable_tableFrame (by omega) aligned apart)⟩
        · have kept := @enterTable_directoryEntry machine.allocBlock.2 pdi _ slot (by omega) (by omega) aligned apart
          rw [if_neg same] at kept
          rw [Present, kept] at slotPresent
          rw [tableFrame, kept] at address
          exact .inl ⟨nonnull, slotInside, slotPresent, address⟩
    | page place =>
        obtain ⟨other, member, found, entry⟩ := owns
        obtain ⟨before, placed⟩ := accounted.enterTable_frameOf inside present (accounted.outside other member) found
        exact .inl ⟨nonnull, other, member, before, placed.symm.trans entry⟩
    | client => exact .inl ⟨nonnull, owns⟩
  have nonnull : (machine.allocBlock.2.enterTable pdi machine.allocBlock.1).directory ≠ 0 := by
    rw [enterTable_directory]
    exact accounted.nonnull
  exact ⟨opened.self, nonnull, accounted.outside, accounted.sole_take rfl changed⟩

/-- Owners other than pages do not notice a change of an entry. -/
theorem Accounted.setEntry_owns (accounted : Accounted ⟨machine, pages, held⟩) {pages' held' : Set Word}
    (inside : pdi.toNat < 1023) (present : machine.Present pdi) (within : pti.toNat < 1024)
    (owns : Owns ⟨machine.setEntry pdi pti value, pages', held'⟩ owner frame) :
    (∃ virtualAddr ∈ pages', owner = .page (machine.place virtualAddr) ∧
        (machine.setEntry pdi pti value).frameOf virtualAddr = some frame) ∨
      (owner = .client ∧ frame ∈ held') ∨
      (Owns ⟨machine, pages, held⟩ owner frame ∧ owner ≠ .client ∧ ∀ place, owner ≠ .page place) := by
  have apart := accounted.apart inside present
  obtain ⟨nonnull, owns⟩ := owns
  cases owner with
  | directory => exact .inr (.inr ⟨⟨nonnull, owns⟩, by simp, by simp⟩)
  | table slot =>
      obtain ⟨slotInside, slotPresent, address⟩ := owns
      have kept := @setEntry_directoryEntry machine pdi pti slot value apart within (by omega)
      rw [Present, kept] at slotPresent
      rw [tableFrame, kept] at address
      exact .inr (.inr ⟨⟨nonnull, slotInside, slotPresent, address⟩, by simp, by simp⟩)
  | page place =>
      obtain ⟨virtualAddr, member, found, placed⟩ := owns
      rw [setEntry_place apart within] at placed
      exact .inl ⟨virtualAddr, member, by rw [placed], found⟩
  | client => exact .inr (.inl ⟨rfl, owns⟩)

theorem Accounted.setEntry_self (accounted : Accounted ⟨machine, pages, held⟩) (inside : pdi.toNat < 1023)
    (present : machine.Present pdi) (within : pti.toNat < 1024) : (machine.setEntry pdi pti value).SelfMapped := by
  have opened : machine.SlotOpen pdi := ⟨accounted.self, by omega, present, accounted.apart inside present⟩
  exact (opened.setEntry within value).self

/-- A client's frame goes to the page it is mapped at. -/
theorem Accounted.enter (accounted : Accounted ⟨machine, pages, held⟩)
    (inside : (getPageDirIndex virtualAddr).toNat < 1023) (present : machine.Present (getPageDirIndex virtualAddr))
    (member : frame ∈ held ∨ frame = 0) (address : getAddr value = frame) :
    Accounted ⟨machine.setEntry (getPageDirIndex virtualAddr) (getPageTableIndex virtualAddr) value,
      pages ∪ pageOf virtualAddr, held \ {frame}⟩ := by
  have apart := accounted.apart inside present
  have within := getPageTableIndex_lt virtualAddr
  have changed : ∀ owner kept, Owns ⟨machine.setEntry (getPageDirIndex virtualAddr) (getPageTableIndex virtualAddr) value,
      pages ∪ pageOf virtualAddr, held \ {frame}⟩ owner kept →
      (Owns ⟨machine, pages, held⟩ owner kept ∧ (kept = frame → owner ≠ .client)) ∨
        owner = .page (machine.place virtualAddr) ∧ kept = frame := by
    intro owner kept owns
    rcases accounted.setEntry_owns inside present within owns with ⟨other, otherMember, rfl, found⟩ | ⟨rfl, inHeld⟩ |
      ⟨old, notClient, _⟩
    · rcases setEntry_frameOf apart within found with ⟨here, _, same⟩ | ⟨elsewhere, before⟩
      · exact .inr ⟨congrArg Owner.page here, same.trans address⟩
      · have old : other ∈ pages := by
          refine otherMember.resolve_right fun page => elsewhere ?_
          obtain ⟨dir, table⟩ := samePage_iff.mp (mem_pageOf_iff.mp page)
          rw [place, dir, table]
        exact .inl ⟨⟨owns.1, other, old, before, rfl⟩, by simp⟩
    · exact .inl ⟨⟨owns.1, inHeld.1⟩, fun same => absurd same inHeld.2⟩
    · exact .inl ⟨old, fun _ => notClient⟩
  refine ⟨accounted.setEntry_self inside present within, accounted.nonnull, ?_, ?_⟩
  · rintro other (old | page)
    · exact accounted.outside other old
    · rw [(samePage_iff.mp (mem_pageOf_iff.mp page)).1]
      exact inside
  · by_cases null : frame = 0
    · refine accounted.sole.mono (fun owner kept owns => ?_) subset_rfl
      rcases changed owner kept owns with ⟨old, _⟩ | ⟨_, same⟩
      · exact old
      · exact absurd (same.trans null) owns.1
    · have given : Owns ⟨machine, pages, held⟩ .client frame := ⟨null, member.resolve_right null⟩
      exact accounted.sole.pass given changed

/-- The frame of a page goes back to the allocator. -/
theorem Accounted.erase (accounted : Accounted ⟨machine, pages, held⟩) (member : virtualAddr ∈ pages)
    (found : machine.frameOf virtualAddr = some frame) :
    Accounted ⟨(machine.setEntry (getPageDirIndex virtualAddr) (getPageTableIndex virtualAddr) 0).freeBlock frame,
      pages \ pageOf virtualAddr, held⟩ := by
  have inside := accounted.outside virtualAddr member
  have present := present_of_frameOf found
  have apart := accounted.apart inside present
  have within := getPageTableIndex_lt virtualAddr
  have changed : ∀ owner kept, Owns ⟨(machine.setEntry (getPageDirIndex virtualAddr) (getPageTableIndex virtualAddr)
      0).freeBlock frame, pages \ pageOf virtualAddr, held⟩ owner kept →
      Owns ⟨machine, pages, held⟩ owner kept ∧ (kept = frame → owner ≠ .page (machine.place virtualAddr)) := by
    intro owner kept owns
    have written : Owns ⟨machine.setEntry (getPageDirIndex virtualAddr) (getPageTableIndex virtualAddr) 0,
      pages \ pageOf virtualAddr, held⟩ owner kept := owns
    rcases accounted.setEntry_owns inside present within written with ⟨other, otherMember, rfl, lookup⟩ | ⟨rfl, inHeld⟩ |
      ⟨old, _, notPage⟩
    · rcases setEntry_frameOf apart within lookup with ⟨_, set, _⟩ | ⟨elsewhere, before⟩
      · rw [testFlag_zero] at set
        cases set
      · exact ⟨⟨owns.1, other, otherMember.1, before, rfl⟩, fun _ same => elsewhere (Owner.page.inj same)⟩
    · exact ⟨⟨owns.1, inHeld⟩, by simp⟩
    · exact ⟨old, fun _ => notPage _⟩
  have self := @Accounted.setEntry_self machine _ _ 0 pages held accounted inside present within
  have given : frame ≠ 0 → Owns ⟨machine, pages, held⟩ (.page (machine.place virtualAddr)) frame :=
    fun nonnull => ⟨nonnull, virtualAddr, member, found, rfl⟩
  exact ⟨self.congr fun _ _ => rfl, accounted.nonnull, fun other old => accounted.outside other old.1,
    accounted.sole_give rfl (frameOf_mod found) given changed⟩

theorem Accounted.fewer (accounted : Accounted ⟨machine, pages, held⟩) {kept : Set Word} (subset : kept ⊆ pages) :
    Accounted ⟨machine, kept, held⟩ := by
  refine ⟨accounted.self, accounted.nonnull, fun other member => accounted.outside other (subset member),
    accounted.sole.mono ?_ subset_rfl⟩
  rintro owner frame ⟨nonnull, owns⟩
  cases owner with
  | directory => exact ⟨nonnull, owns⟩
  | table slot => exact ⟨nonnull, owns⟩
  | page place =>
      obtain ⟨other, member, found⟩ := owns
      exact ⟨nonnull, other, subset member, found⟩
  | client => exact ⟨nonnull, owns⟩

/-- Kernel code that uses `map_address` takes and gives back frames as well. -/
inductive Call where
  | allocBlock
  | freeBlock (frame : Word)
  | mapAddress (virtualAddr frame flags : Word)
  | unmapAddress (virtualAddr : Word)

/-- Frames that are mapped or given back are held, or `NULL`; only pages that
were mapped in this way are unmapped. -/
def Call.Legal (state : Shared) : Call → Prop
  | .allocBlock => True
  | .freeBlock frame => frame ∈ state.held ∨ frame = 0
  | .mapAddress virtualAddr frame flags => (getPageDirIndex virtualAddr).toNat < 1023 ∧
      (frame ∈ state.held ∨ frame = 0) ∧ flags.toNat < 4096
  | .unmapAddress virtualAddr => virtualAddr ∈ state.pages

def Call.run (state : Shared) : Call → Option Shared
  | .allocBlock => some ⟨state.machine.allocBlock.2, state.pages, insert state.machine.allocBlock.1 state.held⟩
  | .freeBlock frame => some ⟨state.machine.freeBlock frame, state.pages, state.held \ {frame}⟩
  | .mapAddress virtualAddr frame flags =>
      (Machine.mapAddress virtualAddr frame flags state.machine).map fun result =>
        if result.1 then ⟨result.2, state.pages ∪ pageOf virtualAddr, state.held \ {frame}⟩
        else ⟨result.2, state.pages, state.held⟩
  | .unmapAddress virtualAddr =>
      (Machine.unmapAddress virtualAddr state.machine).map fun machine =>
        ⟨machine, state.pages \ pageOf virtualAddr, state.held⟩

/-- The states after `initialize_paging` and any legal calls, whether or not
`map_address` finds a frame for a table. -/
inductive Reachable (start : Machine) : Shared → Prop
  | boot {booted : Machine} : initializePaging start = some booted → Reachable start ⟨booted, ∅, ∅⟩
  | call {state after} (call : Call) : Reachable start state → call.Legal state → call.run state = some after →
      Reachable start after

theorem Accounted.call {state after : Shared} (accounted : state.Accounted) {call : Call} (legal : call.Legal state)
    (run : call.run state = some after) : after.Accounted := by
  obtain ⟨machine, pages, held⟩ := state
  cases call with
  | allocBlock =>
      cases run
      exact accounted.allocBlock
  | freeBlock frame =>
      cases run
      exact accounted.freeBlock legal
  | mapAddress virtualAddr frame flags =>
      obtain ⟨inside, member, small⟩ := legal
      have ready := accounted.slotReady inside
      have table := accounted.withTable inside
      have address := getAddr_mappedEntry (accounted.held_mod member) small
      obtain ⟨⟨mapped, result⟩, entered, rfl⟩ := Option.map_eq_some_iff.mp run
      rw [mapAddress_eq ready] at entered
      dsimp only at entered
      split at entered
      · cases entered
        exact table
      · cases entered
        exact table.enter inside ready.withTable.present member (address _)
  | unmapAddress virtualAddr =>
      obtain ⟨result, erased, rfl⟩ := Option.map_eq_some_iff.mp run
      rw [unmapAddress_eq accounted.self (accounted.apart (accounted.outside virtualAddr legal))] at erased
      cases found : machine.frameOf virtualAddr with
      | none =>
          rw [found] at erased
          cases erased
          exact accounted.fewer Set.sdiff_subset
      | some frame =>
          rw [found] at erased
          cases erased
          exact accounted.erase legal found

theorem Accounted.start (inv : machine.PagingInv ∅) : Accounted ⟨machine, ∅, ∅⟩ := by
  have nonnull : machine.directory ≠ 0 := by
    rw [← inv.tables.self.address]
    exact inv.nonnull 1023 (by decide) inv.tables.self.present
  -- The directory is the table of the last slot.
  have tables : ∀ owner frame, Owns ⟨machine, ∅, ∅⟩ owner frame → ∃ slot : Word, slot.toNat < 1024 ∧
      machine.Present slot ∧ machine.tableFrame slot = frame ∧
      owner = if slot = 1023 then .directory else .table slot := by
    rintro owner frame ⟨_, owns⟩
    cases owner with
    | directory => exact ⟨1023, by decide, inv.tables.self.present, inv.tables.self.address.trans owns.symm, rfl⟩
    | table slot =>
        obtain ⟨inside, present, address⟩ := owns
        have different : slot ≠ 1023 := by
          rintro rfl
          exact absurd inside (by decide)
        exact ⟨slot, by omega, present, address, by rw [if_neg different]⟩
    | page place =>
        obtain ⟨_, absent, _⟩ := owns
        exact absent.elim
    | client => exact owns.elim
  refine ⟨inv.tables.self, nonnull, by simp, ⟨fun owner frame owns => ?_, fun left right frame leftOwns rightOwns => ?_⟩⟩
  · obtain ⟨slot, inside, present, rfl, _⟩ := tables owner frame owns
    exact ⟨owns.1, machine.tableFrame_mod slot, inv.tables.used slot inside present⟩
  · obtain ⟨leftSlot, leftInside, leftPresent, leftAddress, rfl⟩ := tables left frame leftOwns
    obtain ⟨rightSlot, rightInside, rightPresent, rightAddress, rfl⟩ := tables right frame rightOwns
    rw [inv.tables.distinct leftSlot rightSlot leftInside rightInside leftPresent rightPresent
      (leftAddress.trans rightAddress.symm)]

/-- Whatever runs out, every frame in use has one owner and the allocator knows it. -/
theorem Reachable.accounted {memory : ByteMemory} {pmm : Pmm} (reserved : ∀ block < 1024, pmm.isBlockUsed block = true)
    (two : 2 ≤ pmm.getNumFreeBlocks) {state : Shared} (reached : Reachable (Stage2.machine memory pmm) state) :
    state.Accounted := by
  induction reached with
  | boot run =>
      obtain ⟨after, result, inv, _⟩ := initializePaging_spec reserved two
      cases run.symm.trans result
      exact .start inv
  | call call _ legal run ih => exact ih.call legal run

end Shared

end ScratchOs.Machine
