import Mathlib.Data.List.Nodup
import Mathlib.Logic.Function.Basic

/-!
# Items placed in slots, recorded on both sides

A table of slots records which item each slot holds, and a table of items
records the slot each item is held in.  `Exclusive` says that no item is in
two slots and that the items with a home are those in some slot; `Consistent`
says that, moreover, the two records describe one partial bijection.  Placing
an item in a free slot, releasing a slot, and moving an item to a free slot
keep both; a move that leaves the item's home behind keeps the first only.
-/

namespace SlotAssignment

open Function

variable {Slot Item : Type} [DecidableEq Slot] [DecidableEq Item]

/-- The slot record and the item record describe the same assignment. -/
structure Consistent
    (occupant : Slot → Option Item)
    (home : Item → Option Slot) : Prop where
  homeOfOccupant :
    ∀ {slot item}, occupant slot = some item → home item = some slot
  occupantOfHome :
    ∀ {slot item}, home item = some slot → occupant slot = some item

/-- No item is in two slots, and exactly the items in a slot have a home. -/
structure Exclusive
    (occupant : Slot → Option Item)
    (home : Item → Option Slot) : Prop where
  slotUnique :
    ∀ {first second item},
      occupant first = some item → occupant second = some item →
        first = second
  home_iff : ∀ {item}, home item ≠ none ↔ ∃ slot, occupant slot = some item

namespace Exclusive

variable
  {occupant : Slot → Option Item}
  {home : Item → Option Slot}

omit [DecidableEq Slot] [DecidableEq Item] in
/-- Nothing is placed anywhere. -/
theorem empty :
    Exclusive (fun _ : Slot => (none : Option Item)) (fun _ => none) where
  slotUnique := nofun
  home_iff := by simp

/-- Placing an unplaced item in a free slot. -/
theorem place
    (exclusive : Exclusive occupant home)
    {slot : Slot}
    {item : Item}
    (free : occupant slot = none)
    (unplaced : home item = none)
    (recorded : Slot) :
    Exclusive
      (update occupant slot (some item))
      (update home item (some recorded)) := by
  have nowhere : ∀ query, occupant query ≠ some item := by
    intro query held
    exact exclusive.home_iff.mpr ⟨query, held⟩ unplaced
  constructor
  · intro first second found inFirst inSecond
    by_cases isFirst : first = slot
    · subst first
      simp only [update_self, Option.some.injEq] at inFirst
      subst found
      by_contra differs
      rw [update_of_ne (Ne.symm differs)] at inSecond
      exact nowhere second inSecond
    · rw [update_of_ne isFirst] at inFirst
      by_cases isSecond : second = slot
      · subst second
        simp only [update_self, Option.some.injEq] at inSecond
        subst found
        exact absurd inFirst (nowhere first)
      · rw [update_of_ne isSecond] at inSecond
        exact exclusive.slotUnique inFirst inSecond
  · intro found
    by_cases sameItem : found = item
    · subst found
      simp only [update_self, ne_eq, reduceCtorEq, not_false_eq_true,
        true_iff]
      exact ⟨slot, update_self ..⟩
    · rw [update_of_ne sameItem, exclusive.home_iff]
      constructor
      · rintro ⟨query, held⟩
        refine ⟨query, ?_⟩
        rw [update_of_ne, held]
        rintro rfl
        simp [free] at held
      · rintro ⟨query, held⟩
        refine ⟨query, ?_⟩
        rwa [update_of_ne] at held
        rintro rfl
        simp only [update_self, Option.some.injEq] at held
        exact sameItem held.symm

/-- Releasing the slot that holds an item. -/
theorem release
    (exclusive : Exclusive occupant home)
    {slot : Slot}
    {item : Item}
    (held : occupant slot = some item) :
    Exclusive
      (update occupant slot none)
      (update home item none) := by
  have stays :
      ∀ {query found}, update occupant slot none query = some found →
        query ≠ slot ∧ occupant query = some found := by
    intro query found heldAfter
    by_cases sameSlot : query = slot
    · subst query
      simp at heldAfter
    · exact ⟨sameSlot, by rwa [update_of_ne sameSlot] at heldAfter⟩
  constructor
  · intro first second found inFirst inSecond
    exact exclusive.slotUnique (stays inFirst).2 (stays inSecond).2
  · intro found
    by_cases sameItem : found = item
    · subst found
      simp only [update_self, ne_eq, not_true_eq_false, false_iff,
        not_exists]
      intro query heldAfter
      obtain ⟨differs, heldBefore⟩ := stays heldAfter
      exact differs (exclusive.slotUnique heldBefore held)
    · rw [update_of_ne sameItem, exclusive.home_iff]
      constructor
      · rintro ⟨query, heldBefore⟩
        refine ⟨query, ?_⟩
        rw [update_of_ne, heldBefore]
        rintro rfl
        exact sameItem (Option.some.inj (heldBefore.symm.trans held))
      · rintro ⟨query, heldAfter⟩
        exact ⟨query, (stays heldAfter).2⟩

/-- Moving an item from its slot to a free one. -/
theorem move
    (exclusive : Exclusive occupant home)
    {source target : Slot}
    {item : Item}
    (held : occupant source = some item)
    (free : occupant target = none)
    (recorded : Slot) :
    Exclusive
      (update (update occupant source none) target (some item))
      (update home item (some recorded)) := by
  have differs : target ≠ source := by
    rintro rfl
    simp [held] at free
  have released := exclusive.release held
  have freeAfter : update occupant source none target = none := by
    rw [update_of_ne differs, free]
  have unplaced : update home item none item = none := update_self ..
  simpa using released.place freeAfter unplaced recorded

/-- Moving an item to a free slot without recording its new home. -/
theorem moveOnly
    (exclusive : Exclusive occupant home)
    {source target : Slot}
    {item : Item}
    (held : occupant source = some item)
    (free : occupant target = none) :
    Exclusive
      (update (update occupant source none) target (some item)) home := by
  obtain ⟨recorded, atHome⟩ :=
    Option.ne_none_iff_exists'.mp (exclusive.home_iff.mpr ⟨source, held⟩)
  have moved := exclusive.move held free recorded
  rwa [← atHome, update_eq_self] at moved

omit [DecidableEq Slot] [DecidableEq Item] in
/-- The slots hold the items that have a home, each of them once. -/
theorem occupants_perm
    (exclusive : Exclusive occupant home)
    {slots : List Slot} {items : List Item}
    (slotsOnce : slots.Nodup) (itemsOnce : items.Nodup)
    (allSlots : ∀ slot item, occupant slot = some item → slot ∈ slots)
    (allItems : ∀ slot item, occupant slot = some item → item ∈ items) :
    (slots.filterMap occupant).Perm
      (items.filter fun item => (home item).isSome) := by
  have occupantsOnce : (slots.filterMap occupant).Nodup :=
    slotsOnce.filterMap fun _ _ _ inFirst inSecond =>
      exclusive.slotUnique inFirst inSecond
  rw [List.perm_ext_iff_of_nodup occupantsOnce (itemsOnce.filter _)]
  intro item
  rw [List.mem_filterMap, List.mem_filter, Option.isSome_iff_ne_none,
    exclusive.home_iff]
  constructor
  · rintro ⟨slot, _, held⟩
    exact ⟨allItems slot item held, slot, held⟩
  · rintro ⟨_, slot, held⟩
    exact ⟨slot, allSlots slot item held, held⟩

end Exclusive

namespace Consistent

variable
  {occupant : Slot → Option Item}
  {home : Item → Option Slot}

omit [DecidableEq Slot] [DecidableEq Item] in
/-- An item is held in at most one slot. -/
theorem slot_unique
    (consistent : Consistent occupant home)
    {first second : Slot}
    {item : Item}
    (inFirst : occupant first = some item)
    (inSecond : occupant second = some item) :
    first = second :=
  Option.some.inj
    ((consistent.homeOfOccupant inFirst).symm.trans
      (consistent.homeOfOccupant inSecond))

omit [DecidableEq Slot] [DecidableEq Item] in
/-- Nothing is placed anywhere. -/
theorem empty :
    Consistent (fun _ : Slot => (none : Option Item)) (fun _ => none) where
  homeOfOccupant := nofun
  occupantOfHome := nofun

omit [DecidableEq Slot] [DecidableEq Item] in
/-- An item with a home is held, so that consistent records are exclusive. -/
theorem exclusive
    (consistent : Consistent occupant home) :
    Exclusive occupant home where
  slotUnique := consistent.slot_unique
  home_iff := by
    intro item
    constructor
    · intro placed
      obtain ⟨slot, atHome⟩ := Option.ne_none_iff_exists'.mp placed
      exact ⟨slot, consistent.occupantOfHome atHome⟩
    · rintro ⟨slot, held⟩
      rw [consistent.homeOfOccupant held]
      exact nofun

/-- Placing an unplaced item in a free slot. -/
theorem place
    (consistent : Consistent occupant home)
    {slot : Slot}
    {item : Item}
    (free : occupant slot = none)
    (unplaced : home item = none) :
    Consistent
      (update occupant slot (some item))
      (update home item (some slot)) where
  homeOfOccupant := by
    intro query found held
    by_cases sameSlot : query = slot
    · subst query
      simp only [update_self, Option.some.injEq] at held
      subst found
      simp
    · rw [update_of_ne sameSlot] at held
      have placed := consistent.homeOfOccupant held
      have differs : found ≠ item := by
        rintro rfl
        simp [unplaced] at placed
      rw [update_of_ne differs, placed]
  occupantOfHome := by
    intro query found placed
    by_cases sameItem : found = item
    · subst found
      simp only [update_self, Option.some.injEq] at placed
      subst query
      simp
    · rw [update_of_ne sameItem] at placed
      have held := consistent.occupantOfHome placed
      have differs : query ≠ slot := by
        rintro rfl
        simp [free] at held
      rw [update_of_ne differs, held]

/-- Releasing the slot that holds an item. -/
theorem release
    (consistent : Consistent occupant home)
    {slot : Slot}
    {item : Item}
    (held : occupant slot = some item) :
    Consistent
      (update occupant slot none)
      (update home item none) where
  homeOfOccupant := by
    intro query found heldAfter
    by_cases sameSlot : query = slot
    · subst query
      simp at heldAfter
    · rw [update_of_ne sameSlot] at heldAfter
      have differs : found ≠ item := by
        rintro rfl
        exact sameSlot (consistent.slot_unique heldAfter held)
      rw [update_of_ne differs]
      exact consistent.homeOfOccupant heldAfter
  occupantOfHome := by
    intro query found placed
    by_cases sameItem : found = item
    · subst found
      simp at placed
    · rw [update_of_ne sameItem] at placed
      have heldBefore := consistent.occupantOfHome placed
      have differs : query ≠ slot := by
        rintro rfl
        exact sameItem
          (Option.some.inj (heldBefore.symm.trans held))
      rw [update_of_ne differs]
      exact heldBefore

/-- Moving an item from its slot to a free one. -/
theorem move
    (consistent : Consistent occupant home)
    {source target : Slot}
    {item : Item}
    (held : occupant source = some item)
    (free : occupant target = none) :
    Consistent
      (update (update occupant source none) target (some item))
      (update home item (some target)) := by
  have differs : target ≠ source := by
    rintro rfl
    simp [held] at free
  have released := consistent.release held
  have freeAfter : update occupant source none target = none := by
    rw [update_of_ne differs, free]
  have unplaced : update home item none item = none := update_self ..
  simpa using released.place freeAfter unplaced

end Consistent

end SlotAssignment
