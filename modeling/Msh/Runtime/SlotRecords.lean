import Mathlib.Logic.Relation
import Msh.Library.SlotAssignment
import Msh.Runtime.Machine

namespace Msh

open Function BoundedSearch SlotAssignment Config

/-!
# The records of where scavengers run

Three records say where a scavenger runs: `idx_list` of the hosting thread,
the back pointer `SCAV_TABLE[i].yc`, and `normal_next` of the slot, which is
`-1` when the slot is free.  `Owned` states that they agree: the first two are
the two sides of one slot assignment, and the third marks the free slots.
`Hosting` asks of the back pointers only that exactly the scavengers in some
list have one; it survives the rollback of `realloc_scav`, which puts a
scavenger into another position of its list and touches neither of the other
two records.
-/

namespace Tables

/-- The scavenger that `idx_list` records at a thread's position. -/
def occupant (tables : Tables) (slot : Tid × Nat) : Option Int :=
  if ScavPos slot.2 ∧ (tables.primTable slot.1).idxList slot.2 ≠ -1 then
    some ((tables.primTable slot.1).idxList slot.2)
  else none

/-- Is an `int` the index of an entry of `SCAV_TABLE`? -/
def ScavIdx (idx : Int) : Prop :=
  0 ≤ idx ∧ idx < maxActiveCrtNum

instance (idx : Int) : Decidable (ScavIdx idx) :=
  inferInstanceAs (Decidable (_ ∧ _))

/-- The sentinel of the lists is not an index of `SCAV_TABLE`. -/
theorem ScavIdx.ne_sentinel {idx : Int} (isIdx : ScavIdx idx) :
    idx ≠ -1 := by
  have := isIdx.1
  omega

/-- The slot that an entry of `SCAV_TABLE` points back at. -/
def home (tables : Tables) (idx : Int) : Option (Tid × Nat) :=
  if ScavIdx idx then (tables.scavTable idx).yc else none

/-- Each scavenger is in one slot at most, and those in one are recorded. -/
structure Hosting (tables : Tables) : Prop where
  assignment : Exclusive tables.occupant tables.home
  unfinished :
    ∀ {slot idx}, tables.occupant slot = some idx →
      (tables.scavTable idx).finished = false
  primarySlot : ∀ tid, (tables.primTable tid).idxList 0 = -1

/-- The three records of where scavengers run agree. -/
structure Owned (tables : Tables) : Prop where
  assignment : Consistent tables.occupant tables.home
  unfinished :
    ∀ {slot idx}, tables.occupant slot = some idx →
      (tables.scavTable idx).finished = false
  freeSlot :
    ∀ tid pos, ScavPos pos →
      ((tables.primTable tid).idxList pos = -1 ↔
        ((tables.primTable tid).ycs pos).normalNext = -1)
  primarySlot : ∀ tid, (tables.primTable tid).idxList 0 = -1

theorem Owned.hosting {tables : Tables} (owned : tables.Owned) :
    tables.Hosting where
  assignment := owned.assignment.exclusive
  unfinished := owned.unfinished
  primarySlot := owned.primarySlot

/-- `after` has the lists, back pointers and finished marks of `before`. -/
structure SameHosts (before after : Tables) : Prop where
  idxList :
    ∀ tid, (after.primTable tid).idxList = (before.primTable tid).idxList
  yc : ∀ idx, (after.scavTable idx).yc = (before.scavTable idx).yc
  finished :
    ∀ idx, (after.scavTable idx).finished = (before.scavTable idx).finished

/--
`after` differs from `before` in nothing that the ownership records consist
of: lists, back pointers, finished marks, and which slots are free.
-/
structure SameSlots (before after : Tables) : Prop
    extends SameHosts before after where
  freeSlot :
    ∀ tid pos, ScavPos pos →
      (((after.primTable tid).ycs pos).normalNext = -1 ↔
        ((before.primTable tid).ycs pos).normalNext = -1)

theorem occupant_eq_some_iff
    {tables : Tables} {tid : Tid} {pos : Nat} {idx : Int} :
    tables.occupant (tid, pos) = some idx ↔
      ScavPos pos ∧ (tables.primTable tid).idxList pos = idx ∧ idx ≠ -1 := by
  unfold occupant
  split
  · next held =>
      simp only [Option.some.injEq]
      constructor
      · rintro rfl
        exact ⟨held.1, rfl, held.2⟩
      · exact fun found => found.2.1
  · next notHeld =>
      simp only [reduceCtorEq, false_iff, not_and]
      rintro isPos rfl isSentinel
      exact notHeld ⟨isPos, isSentinel⟩

theorem occupant_eq_none_iff
    {tables : Tables} {tid : Tid} {pos : Nat}
    (isPos : ScavPos pos) :
    tables.occupant (tid, pos) = none ↔
      (tables.primTable tid).idxList pos = -1 := by
  simp [occupant, isPos]

/-- Writing one back pointer rewrites the item record at that index. -/
theorem home_of_yc
    {before after : Tables} {idx : Int} {slot : Option (Tid × Nat)}
    (inTable : ScavIdx idx)
    (yc :
      ∀ item, 0 ≤ item → (after.scavTable item).yc =
        if item = idx then slot else (before.scavTable item).yc) :
    after.home = update before.home idx slot := by
  funext item
  by_cases same : item = idx
  · subst item
    simp [home, inTable, yc idx inTable.1]
  · by_cases range : ScavIdx item
    · simp [home, range, yc item range.1, same]
    · simp [home, range, same]

namespace SameHosts

variable {before after : Tables}

theorem occupant (same : SameHosts before after) :
    after.occupant = before.occupant := by
  funext slot
  simp only [Tables.occupant, same.idxList]

theorem home (same : SameHosts before after) :
    after.home = before.home := by
  funext idx
  simp only [Tables.home, same.yc]

/-- Who is hosted where does not depend on anything else. -/
theorem hosting
    (same : SameHosts before after) (hosting : before.Hosting) :
    after.Hosting where
  assignment := by
    rw [same.occupant, same.home]
    exact hosting.assignment
  unfinished held := by
    rw [same.occupant] at held
    rw [same.finished]
    exact hosting.unfinished held
  primarySlot tid := by
    rw [same.idxList]
    exact hosting.primarySlot tid

end SameHosts

namespace SameSlots

/-- Two frame steps compose. -/
theorem trans
    {first second third : Tables}
    (earlier : SameSlots first second)
    (later : SameSlots second third) :
    SameSlots first third where
  idxList tid := (later.idxList tid).trans (earlier.idxList tid)
  freeSlot tid pos isPos :=
    (later.freeSlot tid pos isPos).trans (earlier.freeSlot tid pos isPos)
  yc idx := (later.yc idx).trans (earlier.yc idx)
  finished idx := (later.finished idx).trans (earlier.finished idx)

theorem refl (tables : Tables) : SameSlots tables tables :=
  ⟨⟨fun _ => rfl, fun _ => rfl, fun _ => rfl⟩, fun _ _ _ => Iff.rfl⟩

/-- Ownership does not depend on anything that `SameSlots` lets change. -/
theorem owned
    {before after : Tables}
    (same : SameSlots before after)
    (owned : before.Owned) :
    after.Owned where
  assignment := by
    rw [same.occupant, same.home]
    exact owned.assignment
  unfinished held := by
    rw [same.occupant] at held
    rw [same.finished]
    exact owned.unfinished held
  freeSlot tid pos isPos := by
    rw [same.idxList, same.freeSlot tid pos isPos]
    exact owned.freeSlot tid pos isPos
  primarySlot tid := by
    rw [same.idxList]
    exact owned.primarySlot tid

/-- Rewriting one thread's entry without touching its list or free marks. -/
theorem updatePrim
    (tables : Tables) (tid : Tid)
    {f : PrimaryThreadCtx → PrimaryThreadCtx}
    (idxList :
      (f (tables.primTable tid)).idxList = (tables.primTable tid).idxList)
    (freeSlot :
      ∀ pos, ScavPos pos →
        (((f (tables.primTable tid)).ycs pos).normalNext = -1 ↔
          ((tables.primTable tid).ycs pos).normalNext = -1)) :
    SameSlots tables (tables.updatePrim tid f) where
  idxList other := by
    by_cases same : other = tid
    · subst other
      simpa using idxList
    · rw [updatePrim_of_ne _ _ same]
  freeSlot other pos isPos := by
    by_cases same : other = tid
    · subst other
      simpa using freeSlot pos isPos
    · rw [updatePrim_of_ne _ _ same]
  yc _ := rfl
  finished _ := rfl

/-- Rewriting a scavenger's entry without its back pointer or mark. -/
theorem updateScav
    (tables : Tables) (idx : Int)
    {f : CoroutineCtx → CoroutineCtx}
    (yc : (f (tables.scavTable idx)).yc = (tables.scavTable idx).yc)
    (finished :
      (f (tables.scavTable idx)).finished =
        (tables.scavTable idx).finished) :
    SameSlots tables (tables.updateScav idx f) where
  idxList _ := rfl
  freeSlot _ _ _ := Iff.rfl
  yc other := by
    by_cases same : other = idx
    · subst other
      simpa using yc
    · rw [updateScav_of_ne _ _ same]
  finished other := by
    by_cases same : other = idx
    · subst other
      simpa using finished
    · rw [updateScav_of_ne _ _ same]

theorem updateLib
    (tables : Tables) (handle : Handle) (f : LibSymbols → LibSymbols) :
    SameSlots tables (tables.updateLib handle f) :=
  ⟨⟨fun _ => rfl, fun _ => rfl, fun _ => rfl⟩, fun _ _ _ => Iff.rfl⟩

theorem writeCrtPos (tables : Tables) (idx : Int) (val : Nat) :
    SameSlots tables (tables.writeCrtPos idx val) := by
  unfold Tables.writeCrtPos
  split
  · exact .refl tables
  · exact .updateLib tables _ _

theorem setScavSymbol
    (tables : Tables) (tid : Tid) (idx : Int) (pos : Nat) :
    SameSlots tables (tables.setScavSymbol tid idx pos) := by
  simp only [Tables.setScavSymbol]
  split
  · exact .refl tables
  · split
    · exact .updateLib tables _ _
    · exact
        ((SameSlots.updateLib _ _ _).trans (.updateLib _ _ _)).trans
          (.updatePrim _ _ rfl (fun _ _ => Iff.rfl))

theorem setSpecialNext (tables : Tables) (tid : Tid) :
    SameSlots tables (tables.updatePrim tid (·.setSpecialNext)) := by
  apply SameSlots.updatePrim
  · rfl
  · intro pos isPos
    have inLoop : 1 ≤ pos ∧ pos < maxCrtPerThread + 1 :=
      ⟨isPos.1, Nat.lt_succ_of_le isPos.2⟩
    simp only [PrimaryThreadCtx.setSpecialNext, inLoop, and_self,
      ↓reduceIte, PrimaryThreadCtx.specialNextAt]
    split <;> split <;> rfl

theorem tlUpdateNextMap (tables : Tables) (tid : Tid) :
    SameSlots tables (tables.updatePrim tid (·.tlUpdateNextMap)) := by
  apply SameSlots.updatePrim
  · unfold PrimaryThreadCtx.tlUpdateNextMap
    split <;> rfl
  · intro pos isPos
    have notPrimary : pos ≠ 0 := by
      have := isPos.1
      omega
    unfold PrimaryThreadCtx.tlUpdateNextMap
    split
    · rfl
    · simp [PrimaryThreadCtx.updateYc, notPrimary]

theorem initPrimaryCtx (tables : Tables) (tid : Tid) (counts : Nat) :
    SameSlots tables (tables.updatePrim tid (·.initPrimaryCtx counts)) := by
  apply SameSlots.updatePrim
  · rfl
  · intro pos isPos
    have notPrimary : pos ≠ 0 := by
      have := isPos.1
      omega
    simp [PrimaryThreadCtx.initPrimaryCtx, notPrimary]

theorem resumeWith
    (tables : Tables) (tid : Tid) (ret : Nat) (resume : Resume) :
    SameSlots tables (tables.resumeWith tid ret resume) := by
  cases resume with
  | initPrimary =>
      exact .initPrimaryCtx tables tid ret
  | sched =>
      exact .tlUpdateNextMap tables tid
  | exitCall =>
      have mapped := SameSlots.tlUpdateNextMap tables tid
      unfold Tables.resumeWith
      apply SameSlots.updatePrim
      · simpa using mapped.idxList tid
      · intro pos isPos
        simpa using mapped.freeSlot tid pos isPos

theorem setReallocatable (tables : Tables) (tid : Tid) (flag : Bool) :
    SameSlots tables
      (tables.updatePrim tid fun ctx =>
        { ctx with reallocatable := flag }) :=
  .updatePrim tables tid rfl (fun _ _ => Iff.rfl)

theorem writeCounter
    (tables : Tables) (tid : Tid) (area : Nat)
    (byte : Fin loopCounterBytes) (val : BitVec 8) :
    SameSlots tables (tables.writeCounter tid area byte val) :=
  .updatePrim tables tid rfl (fun _ _ => Iff.rfl)

theorem callInitForNewScav (tables : Tables) (tid : Tid) :
    SameSlots tables (tables.callInitForNewScav tid) := by
  unfold Tables.callInitForNewScav
  generalize List.range' 1 maxCrtPerThread = positions
  induction positions generalizing tables with
  | nil =>
      exact .refl tables
  | cons pos rest inductionHypothesis =>
      rw [List.foldl_cons]
      refine SameSlots.trans ?_ (inductionHypothesis _)
      simp only
      split
      · exact .refl tables
      · exact .updateScav tables _ rfl rfl

theorem initNewScavs (tables : Tables) (tid : Tid) :
    SameSlots tables (tables.initNewScavs tid) :=
  (SameSlots.callInitForNewScav tables tid).trans
    (SameSlots.setSpecialNext _ tid)

theorem linkToSelf (tables : Tables) (tid : Tid) :
    SameSlots tables (tables.updatePrim tid (·.linkToSelf)) := by
  apply SameSlots.updatePrim
  · rfl
  · intro pos isPos
    unfold PrimaryThreadCtx.linkToSelf
    simp only
    split
    · next linked =>
        have positive : (0 : Int) ≤ pos * sizeofYieldCtx :=
          Int.mul_nonneg (Int.natCast_nonneg _) (Int.natCast_nonneg _)
        have selfLinked : (pos * sizeofYieldCtx : Int) ≠ -1 := by omega
        exact iff_of_false selfLinked linked.2.2
    · exact Iff.rfl

theorem resetPrimaryNext (tables : Tables) (tid : Tid) :
    SameSlots tables (tables.updatePrim tid (·.resetPrimaryNext)) := by
  apply SameSlots.updatePrim
  · rfl
  · intro pos isPos
    have notPrimary : pos ≠ 0 := by
      have := isPos.1
      omega
    simp [PrimaryThreadCtx.resetPrimaryNext, PrimaryThreadCtx.updateYc,
      notPrimary]

end SameSlots

/-- `after` hosts the unplaced scavenger `idx` at a free slot of `before`. -/
structure Placed
    (before after : Tables) (tid : Tid) (pos : Nat) (idx : Int) : Prop where
  idxList :
    ∀ other query, (after.primTable other).idxList query =
      if other = tid ∧ query = pos then idx
      else (before.primTable other).idxList query
  freeSlot :
    ∀ other query, ScavPos query →
      (((after.primTable other).ycs query).normalNext = -1 ↔
        ¬(other = tid ∧ query = pos) ∧
          ((before.primTable other).ycs query).normalNext = -1)
  yc :
    ∀ item, 0 ≤ item → (after.scavTable item).yc =
      if item = idx then some (tid, pos) else (before.scavTable item).yc
  finished :
    ∀ item, 0 ≤ item → (after.scavTable item).finished =
      (before.scavTable item).finished

/-- `after` has freed the slot of `idx` and marked the scavenger finished. -/
structure Released
    (before after : Tables) (tid : Tid) (pos : Nat) (idx : Int) : Prop where
  idxList :
    ∀ other query, (after.primTable other).idxList query =
      if other = tid ∧ query = pos then -1
      else (before.primTable other).idxList query
  freeSlot :
    ∀ other query, ScavPos query →
      (((after.primTable other).ycs query).normalNext = -1 ↔
        (other = tid ∧ query = pos) ∨
          ((before.primTable other).ycs query).normalNext = -1)
  yc :
    ∀ item, 0 ≤ item → (after.scavTable item).yc =
      if item = idx then none else (before.scavTable item).yc
  finished :
    ∀ item, 0 ≤ item → (after.scavTable item).finished =
      if item = idx then true else (before.scavTable item).finished

/-- In `after`, `idx` is no more in the first slot but in the second. -/
structure Shifted
    (before after : Tables) (source : Tid) (fromPos : Nat)
    (target : Tid) (toPos : Nat) (idx : Int) : Prop where
  idxList :
    ∀ other query, (after.primTable other).idxList query =
      if other = target ∧ query = toPos then idx
      else if other = source ∧ query = fromPos then -1
      else (before.primTable other).idxList query
  finished :
    ∀ item, 0 ≤ item → (after.scavTable item).finished =
      (before.scavTable item).finished

/-- `after` has moved `idx` from one slot to a slot that was free. -/
structure Moved
    (before after : Tables) (source : Tid) (fromPos : Nat)
    (target : Tid) (toPos : Nat) (idx : Int) : Prop
    extends Shifted before after source fromPos target toPos idx where
  yc :
    ∀ item, 0 ≤ item → (after.scavTable item).yc =
      if item = idx then some (target, toPos)
      else (before.scavTable item).yc

/-- The marks of the two slots follow the move of their scavenger. -/
def MovedMarks (before after : Tables) (source : Tid) (fromPos : Nat)
    (target : Tid) (toPos : Nat) : Prop :=
  ∀ other query, ScavPos query →
    (((after.primTable other).ycs query).normalNext = -1 ↔
      ¬(other = target ∧ query = toPos) ∧
        ((other = source ∧ query = fromPos) ∨
          ((before.primTable other).ycs query).normalNext = -1))

/-- `after` has put `idx` back into its list, but at another position. -/
structure RolledBack
    (before after : Tables) (tid : Tid) (fromPos toPos : Nat)
    (idx : Int) : Prop
    extends Shifted before after tid fromPos tid toPos idx where
  yc :
    ∀ item, 0 ≤ item → (after.scavTable item).yc =
      (before.scavTable item).yc

section Changes

variable {before after : Tables} {tid source target : Tid}
  {pos fromPos toPos : Nat} {idx : Int}

theorem Placed.occupant
    (change : Placed before after tid pos idx)
    (isPos : ScavPos pos) (notSentinel : idx ≠ -1) :
    after.occupant = update before.occupant (tid, pos) (some idx) := by
  funext ⟨other, query⟩
  by_cases here : other = tid ∧ query = pos
  · obtain ⟨rfl, rfl⟩ := here
    simp [Tables.occupant, change.idxList, isPos, notSentinel]
  · have elsewhere : (other, query) ≠ (tid, pos) := by
      simpa using here
    simp [Tables.occupant, change.idxList, here, elsewhere]

theorem Released.occupant
    (change : Released before after tid pos idx) :
    after.occupant = update before.occupant (tid, pos) none := by
  funext ⟨other, query⟩
  by_cases here : other = tid ∧ query = pos
  · obtain ⟨rfl, rfl⟩ := here
    simp [Tables.occupant, change.idxList]
  · have elsewhere : (other, query) ≠ (tid, pos) := by
      simpa using here
    simp [Tables.occupant, change.idxList, here, elsewhere]

theorem Shifted.occupant
    (change : Shifted before after source fromPos target toPos idx)
    (isPos : ScavPos toPos) (notSentinel : idx ≠ -1) :
    after.occupant =
      update (update before.occupant (source, fromPos) none)
        (target, toPos) (some idx) := by
  funext ⟨other, query⟩
  by_cases atTarget : other = target ∧ query = toPos
  · obtain ⟨rfl, rfl⟩ := atTarget
    simp [Tables.occupant, change.idxList, isPos, notSentinel]
  · have notTarget : (other, query) ≠ (target, toPos) := by
      simpa using atTarget
    rw [update_of_ne notTarget]
    by_cases atSource : other = source ∧ query = fromPos
    · obtain ⟨rfl, rfl⟩ := atSource
      simp [Tables.occupant, change.idxList, atTarget]
    · have notSource : (other, query) ≠ (source, fromPos) := by
        simpa using atSource
      simp [Tables.occupant, change.idxList, atTarget, atSource,
        notSource]

/-- What is in a slot after the change was in some slot before it. -/
theorem Shifted.held_before
    (change : Shifted before after source fromPos target toPos idx)
    (held : before.occupant (source, fromPos) = some idx)
    (isPos : ScavPos toPos)
    {slot : Tid × Nat} {item : Int}
    (heldAfter : after.occupant slot = some item) :
    ∃ earlier, before.occupant earlier = some item := by
  have notSentinel := (occupant_eq_some_iff.mp held).2.2
  rw [change.occupant isPos notSentinel] at heldAfter
  by_cases atTarget : slot = (target, toPos)
  · subst slot
    rw [update_self] at heldAfter
    exact ⟨_, held.trans heldAfter⟩
  · rw [update_of_ne atTarget] at heldAfter
    by_cases atSource : slot = (source, fromPos)
    · subst slot
      simp at heldAfter
    · rw [update_of_ne atSource] at heldAfter
      exact ⟨slot, heldAfter⟩

/-- The other scavengers were where they are. -/
theorem Shifted.occupant_of_ne
    (change : Shifted before after source fromPos target toPos idx)
    {slot : Tid × Nat} {item : Int}
    (differs : item ≠ idx)
    (held : after.occupant slot = some item) :
    before.occupant slot = some item := by
  obtain ⟨isPos, atPos, notSentinel⟩ := occupant_eq_some_iff.mp held
  rw [change.idxList] at atPos
  split at atPos
  · exact absurd atPos.symm differs
  · split at atPos
    · exact absurd atPos.symm notSentinel
    · exact occupant_eq_some_iff.mpr ⟨isPos, atPos, notSentinel⟩

/-- Where a scavenger that was not moved was, it still is. -/
theorem Shifted.occupant_keeps
    (change : Shifted before after source fromPos target toPos idx)
    (held : before.occupant (source, fromPos) = some idx)
    (free : (before.primTable target).idxList toPos = -1)
    {slot : Tid × Nat} {item : Int}
    (differs : item ≠ idx)
    (heldItem : before.occupant slot = some item) :
    after.occupant slot = some item := by
  obtain ⟨tid, pos⟩ := slot
  obtain ⟨isPos, atPos, notSentinel⟩ := occupant_eq_some_iff.mp heldItem
  have notTo : ¬ (tid = target ∧ pos = toPos) := by
    rintro ⟨rfl, rfl⟩
    exact notSentinel (atPos.symm.trans free)
  have notFrom : ¬ (tid = source ∧ pos = fromPos) := by
    rintro ⟨rfl, rfl⟩
    exact differs (Option.some.inj (heldItem.symm.trans held))
  refine occupant_eq_some_iff.mpr ⟨isPos, ?_, notSentinel⟩
  rw [change.idxList, if_neg notTo, if_neg notFrom, atPos]

/-- The moved scavenger is at the slot it was moved to. -/
theorem Shifted.occupant_self
    (change : Shifted before after source fromPos target toPos idx)
    (held : before.occupant (source, fromPos) = some idx)
    (isPos : ScavPos toPos) :
    after.occupant (target, toPos) = some idx := by
  have notSentinel := (occupant_eq_some_iff.mp held).2.2
  rw [change.occupant isPos notSentinel, update_self]

theorem Shifted.primarySlot
    (change : Shifted before after source fromPos target toPos idx)
    (isPos : ScavPos toPos)
    (primarySlot : ∀ tid, (before.primTable tid).idxList 0 = -1)
    (tid : Tid) :
    (after.primTable tid).idxList 0 = -1 := by
  have notTarget : ¬(tid = target ∧ 0 = toPos) := by
    rintro ⟨_, rfl⟩
    exact absurd isPos.1 (by omega)
  rw [change.idxList, if_neg notTarget]
  split
  · rfl
  · exact primarySlot tid

end Changes

namespace Hosting

/-- An occupant is an index of `SCAV_TABLE`. -/
theorem inTable
    {tables : Tables} (hosting : tables.Hosting)
    {slot : Tid × Nat} {idx : Int}
    (held : tables.occupant slot = some idx) :
    ScavIdx idx := by
  have placed := hosting.assignment.home_iff.mpr ⟨slot, held⟩
  unfold home at placed
  split at placed
  · assumption
  · exact absurd rfl placed

/-- Exactly the scavengers in some slot have a back pointer. -/
theorem yc_ne_none_iff
    {tables : Tables} (hosting : tables.Hosting)
    {idx : Int} (isIdx : ScavIdx idx) :
    (tables.scavTable idx).yc ≠ none ↔
      ∃ slot, tables.occupant slot = some idx := by
  rw [← hosting.assignment.home_iff, home, if_pos isIdx]

variable {before after : Tables} {tid source target : Tid}
  {pos fromPos toPos : Nat} {idx : Int}

/-- Hosting an idle scavenger at a free slot. -/
theorem placed
    (hosting : before.Hosting)
    (change : Placed before after tid pos idx)
    (isPos : ScavPos pos)
    (free : (before.primTable tid).idxList pos = -1)
    (inTable : ScavIdx idx)
    (unplaced : (before.scavTable idx).yc = none)
    (unfinished : (before.scavTable idx).finished = false) :
    after.Hosting := by
  have occupantAfter := change.occupant isPos inTable.ne_sentinel
  refine ⟨?_, ?_, ?_⟩
  · rw [occupantAfter, home_of_yc inTable change.yc]
    exact hosting.assignment.place
      ((occupant_eq_none_iff isPos).mpr free)
      (by simp [home, unplaced]) _
  · intro slot item held
    rw [occupantAfter] at held
    by_cases here : slot = (tid, pos)
    · subst slot
      simp only [update_self, Option.some.injEq] at held
      subst item
      rw [change.finished idx inTable.1, unfinished]
    · rw [update_of_ne here] at held
      rw [change.finished item (hosting.inTable held).1]
      exact hosting.unfinished held
  · intro other
    have notHere : ¬(other = tid ∧ 0 = pos) := by
      rintro ⟨_, rfl⟩
      exact absurd isPos.1 (by omega)
    rw [change.idxList, if_neg notHere]
    exact hosting.primarySlot other

/-- Finishing a hosted scavenger. -/
theorem released
    (hosting : before.Hosting)
    (change : Released before after tid pos idx)
    (held : before.occupant (tid, pos) = some idx) :
    after.Hosting := by
  have inTable := hosting.inTable held
  have occupantAfter := change.occupant
  refine ⟨?_, ?_, ?_⟩
  · rw [occupantAfter, home_of_yc inTable change.yc]
    exact hosting.assignment.release held
  · intro slot item heldAfter
    rw [occupantAfter] at heldAfter
    by_cases here : slot = (tid, pos)
    · subst slot
      simp at heldAfter
    · rw [update_of_ne here] at heldAfter
      have differs : item ≠ idx := by
        rintro rfl
        exact here (hosting.assignment.slotUnique heldAfter held)
      rw [change.finished item (hosting.inTable heldAfter).1,
        if_neg differs]
      exact hosting.unfinished heldAfter
  · intro other
    rw [change.idxList]
    split
    · rfl
    · exact hosting.primarySlot other

/-- Both kinds of shifts keep what does not concern the back pointers. -/
theorem shifted
    (hosting : before.Hosting)
    (change : Shifted before after source fromPos target toPos idx)
    (held : before.occupant (source, fromPos) = some idx)
    (isPos : ScavPos toPos)
    (assignment : Exclusive after.occupant after.home) :
    after.Hosting := by
  refine ⟨assignment, ?_, change.primarySlot isPos hosting.primarySlot⟩
  intro slot item heldAfter
  obtain ⟨earlier, heldBefore⟩ :=
    change.held_before held isPos heldAfter
  rw [change.finished item (hosting.inTable heldBefore).1]
  exact hosting.unfinished heldBefore

/-- Moving a hosted scavenger to a free slot. -/
theorem moved
    (hosting : before.Hosting)
    (change : Moved before after source fromPos target toPos idx)
    (held : before.occupant (source, fromPos) = some idx)
    (isPos : ScavPos toPos)
    (free : (before.primTable target).idxList toPos = -1) :
    after.Hosting := by
  have inTable := hosting.inTable held
  refine hosting.shifted change.toShifted held isPos ?_
  rw [change.occupant isPos inTable.ne_sentinel,
    home_of_yc inTable change.yc]
  exact hosting.assignment.move held
    ((occupant_eq_none_iff isPos).mpr free) _

/-- Putting a scavenger back at another position of its list. -/
theorem rolledBack
    (hosting : before.Hosting)
    (change : RolledBack before after tid fromPos toPos idx)
    (held : before.occupant (tid, fromPos) = some idx)
    (isPos : ScavPos toPos)
    (free : (before.primTable tid).idxList toPos = -1) :
    after.Hosting := by
  have inTable := hosting.inTable held
  have sameHome : after.home = before.home := by
    funext item
    by_cases isIdx : ScavIdx item
    · simp [home, isIdx, change.yc item isIdx.1]
    · simp [home, isIdx]
  refine hosting.shifted change.toShifted held isPos ?_
  rw [change.occupant isPos inTable.ne_sentinel, sameHome]
  exact hosting.assignment.moveOnly held
    ((occupant_eq_none_iff isPos).mpr free)

end Hosting

namespace Owned

/-- An occupant of an owned table is an index of `SCAV_TABLE`. -/
theorem inTable
    {tables : Tables} (owned : tables.Owned)
    {slot : Tid × Nat} {idx : Int}
    (held : tables.occupant slot = some idx) :
    ScavIdx idx :=
  owned.hosting.inTable held

/-- The back pointer of an occupant names its slot. -/
theorem yc_of_occupant
    {tables : Tables} (owned : tables.Owned)
    {slot : Tid × Nat} {idx : Int}
    (held : tables.occupant slot = some idx) :
    (tables.scavTable idx).yc = some slot := by
  have placed := owned.assignment.homeOfOccupant held
  rwa [home, if_pos (owned.inTable held)] at placed

/-- Ownership survives hosting an idle scavenger at a free slot. -/
theorem placed
    {before after : Tables} (owned : before.Owned)
    {tid : Tid} {pos : Nat} {idx : Int}
    (change : Placed before after tid pos idx)
    (isPos : ScavPos pos)
    (free : (before.primTable tid).idxList pos = -1)
    (inTable : ScavIdx idx)
    (unplaced : (before.scavTable idx).yc = none)
    (unfinished : (before.scavTable idx).finished = false) :
    after.Owned := by
  have notSentinel := inTable.ne_sentinel
  have hosting :=
    owned.hosting.placed change isPos free inTable unplaced unfinished
  refine ⟨?_, hosting.unfinished, ?_, hosting.primarySlot⟩
  · rw [change.occupant isPos notSentinel, home_of_yc inTable change.yc]
    exact owned.assignment.place
      ((occupant_eq_none_iff isPos).mpr free)
      (by simp [home, unplaced])
  · intro other query isQuery
    rw [change.idxList, change.freeSlot other query isQuery]
    by_cases here : other = tid ∧ query = pos
    · simp [here, notSentinel]
    · simp only [here, ↓reduceIte, not_false_eq_true, true_and]
      exact owned.freeSlot other query isQuery

/-- Ownership survives finishing a hosted scavenger. -/
theorem released
    {before after : Tables} (owned : before.Owned)
    {tid : Tid} {pos : Nat} {idx : Int}
    (change : Released before after tid pos idx)
    (held : before.occupant (tid, pos) = some idx) :
    after.Owned := by
  have hosting := owned.hosting.released change held
  refine ⟨?_, hosting.unfinished, ?_, hosting.primarySlot⟩
  · rw [change.occupant, home_of_yc (owned.inTable held) change.yc]
    exact owned.assignment.release held
  · intro other query isQuery
    rw [change.idxList, change.freeSlot other query isQuery]
    by_cases here : other = tid ∧ query = pos
    · simp [here]
    · simp only [here, ↓reduceIte, false_or]
      exact owned.freeSlot other query isQuery

/-- Ownership survives moving a hosted scavenger to a free slot. -/
theorem moved
    {before after : Tables} (owned : before.Owned)
    {source target : Tid} {fromPos toPos : Nat} {idx : Int}
    (change : Moved before after source fromPos target toPos idx)
    (marks : MovedMarks before after source fromPos target toPos)
    (held : before.occupant (source, fromPos) = some idx)
    (isPos : ScavPos toPos)
    (free : (before.primTable target).idxList toPos = -1) :
    after.Owned := by
  have inTable := owned.inTable held
  have notSentinel := inTable.ne_sentinel
  have hosting := owned.hosting.moved change held isPos free
  refine ⟨?_, hosting.unfinished, ?_, hosting.primarySlot⟩
  · rw [change.occupant isPos notSentinel, home_of_yc inTable change.yc]
    exact owned.assignment.move held
      ((occupant_eq_none_iff isPos).mpr free)
  · intro other query isQuery
    rw [change.idxList, marks other query isQuery]
    by_cases atTarget : other = target ∧ query = toPos
    · simp [atTarget, notSentinel]
    · by_cases atSource : other = source ∧ query = fromPos
      · rw [if_neg atTarget, if_pos atSource]
        exact iff_of_true rfl ⟨atTarget, .inl atSource⟩
      · simp only [atTarget, atSource, ↓reduceIte, not_false_eq_true,
          false_or, true_and]
        exact owned.freeSlot other query isQuery

end Owned

/--
The changes that the records go through: none, hosting an idle scavenger at a
free slot, finishing a hosted one, moving a hosted one to a free slot, and
putting one back into its list at another position.
-/
inductive SlotStep (before after : Tables) : Prop where
  | same :
      SameHosts before after →
      SlotStep before after
  | placed {tid : Tid} {pos : Nat} {idx : Int} :
      Placed before after tid pos idx →
      ScavPos pos →
      (before.primTable tid).idxList pos = -1 →
      ScavIdx idx →
      (before.scavTable idx).yc = none →
      (before.scavTable idx).finished = false →
      SlotStep before after
  | released {tid : Tid} {pos : Nat} {idx : Int} :
      Released before after tid pos idx →
      before.occupant (tid, pos) = some idx →
      SlotStep before after
  | moved {source target : Tid} {fromPos toPos : Nat} {idx : Int} :
      Moved before after source fromPos target toPos idx →
      before.occupant (source, fromPos) = some idx →
      ScavPos toPos →
      (before.primTable target).idxList toPos = -1 →
      SlotStep before after
  | rolledBack {tid : Tid} {fromPos toPos : Nat} {idx : Int} :
      RolledBack before after tid fromPos toPos idx →
      before.occupant (tid, fromPos) = some idx →
      ScavPos toPos →
      (before.primTable tid).idxList toPos = -1 →
      SlotStep before after

/-- Any number of changes of the records. -/
abbrev SlotRun : Tables → Tables → Prop :=
  Relation.ReflTransGen SlotStep

namespace SlotStep

variable {before after : Tables}

theorem of_sameSlots (same : SameSlots before after) :
    SlotStep before after :=
  .same same.toSameHosts

theorem hosting
    (taken : SlotStep before after)
    (hosting : before.Hosting) :
    after.Hosting := by
  cases taken with
  | same change =>
      exact change.hosting hosting
  | placed change isPos free inTable unplaced unfinished =>
      exact hosting.placed change isPos free inTable unplaced unfinished
  | released change held =>
      exact hosting.released change held
  | moved change held isPos free =>
      exact hosting.moved change held isPos free
  | rolledBack change held isPos free =>
      exact hosting.rolledBack change held isPos free

/-- A finished scavenger stays finished. -/
theorem finished
    (taken : SlotStep before after)
    {idx : Int} (nonneg : 0 ≤ idx)
    (isFinished : (before.scavTable idx).finished = true) :
    (after.scavTable idx).finished = true := by
  cases taken with
  | same change =>
      rw [change.finished, isFinished]
  | placed change =>
      rw [change.finished idx nonneg, isFinished]
  | released change =>
      rw [change.finished idx nonneg]
      split
      · rfl
      · exact isFinished
  | moved change =>
      rw [change.finished idx nonneg, isFinished]
  | rolledBack change =>
      rw [change.finished idx nonneg, isFinished]

end SlotStep

namespace SlotRun

variable {before after : Tables}

theorem hosting
    (run : SlotRun before after)
    (hosting : before.Hosting) :
    after.Hosting := by
  induction run with
  | refl =>
      exact hosting
  | tail _ taken inductionHypothesis =>
      exact taken.hosting inductionHypothesis

theorem finished
    (run : SlotRun before after)
    {idx : Int} (nonneg : 0 ≤ idx)
    (isFinished : (before.scavTable idx).finished = true) :
    (after.scavTable idx).finished = true := by
  induction run with
  | refl =>
      exact isFinished
  | tail _ taken inductionHypothesis =>
      exact taken.finished nonneg inductionHypothesis

end SlotRun

section Operations

variable (tables : Tables) (tid : Tid)

/-- Renaming a position keeps the mark of a finished coroutine. -/
theorem renameNext_eq_neg_one_iff {aPos bPos : Nat} {next : Int} :
    renameNext aPos bPos next = -1 ↔ next = -1 := by
  unfold renameNext
  split
  · omega
  · split <;> omega

theorem tlGetCrtIdxAt_of_le
    (ctx : PrimaryThreadCtx) {pos : Nat} (inRange : pos ≤ maxCrtPerThread) :
    ctx.tlGetCrtIdxAt pos = ctx.idxList pos :=
  if_pos inRange

@[simp] theorem setScavSymbol_scavTable (idx : Int) (pos : Nat) :
    (tables.setScavSymbol tid idx pos).scavTable = tables.scavTable := by
  simp only [setScavSymbol]
  split
  · rfl
  · split <;> rfl

/-- Only the calling thread's entry of `PRIM_TABLE` takes part in a swap. -/
theorem tlSwapCrts_primTable (aPos bPos : Nat) :
    (tables.tlSwapCrts tid aPos bPos).primTable =
      (tables.updatePrim tid fun ctx =>
        swapSlots ctx aPos bPos).primTable := by
  simp only [tlSwapCrts]
  split <;> split <;> simp

/-- Swapping a free position with an occupied one moves the occupant. -/
theorem tlSwapCrts_moved
    {tables : Tables} {aPos bPos : Nat} {idx : Int}
    (isA : ScavPos aPos)
    (free : (tables.primTable tid).idxList aPos = -1)
    (held : tables.occupant (tid, bPos) = some idx) :
    Moved tables (tables.tlSwapCrts tid aPos bPos) tid bPos tid aPos idx := by
  obtain ⟨isB, atB, notSentinel⟩ := occupant_eq_some_iff.mp held
  have differs : aPos ≠ bPos := by
    rintro rfl
    exact notSentinel (atB.symm.trans free)
  have scavTable :
      (tables.tlSwapCrts tid aPos bPos).scavTable =
        update
          (update tables.scavTable (-1)
            { tables.scavTable (-1) with yc := some (tid, bPos) })
          idx { tables.scavTable idx with yc := some (tid, aPos) } := by
    simp only [tlSwapCrts, tlGetCrtIdxAt_of_le _ isA.2,
      tlGetCrtIdxAt_of_le _ isB.2, free, atB]
    simp [notSentinel, updateScav]
  refine ⟨⟨?_, ?_⟩, ?_⟩
  · intro other query
    rw [tlSwapCrts_primTable]
    by_cases sameTid : other = tid
    · subst other
      simp only [updatePrim_self, swapSlots, PrimaryThreadCtx.tlSetCrtIdAt,
        tlGetCrtIdxAt_of_le _ isA.2, tlGetCrtIdxAt_of_le _ isB.2, free, atB,
        update_apply, true_and]
      grind
    · simp [updatePrim_of_ne, sameTid]
  · intro item nonneg
    rw [scavTable]
    by_cases same : item = idx
    · simp [same]
    · have notNeg : item ≠ -1 := by omega
      simp [same, notNeg]
  · intro item nonneg
    rw [scavTable]
    by_cases same : item = idx
    · simp [same]
    · have notNeg : item ≠ -1 := by omega
      simp [same, notNeg]

/-- When the marks of the two slots are right, the swap moves them along. -/
theorem tlSwapCrts_movedMarks
    {tables : Tables} (owned : tables.Owned)
    {aPos bPos : Nat} {idx : Int}
    (isA : ScavPos aPos)
    (free : (tables.primTable tid).idxList aPos = -1)
    (held : tables.occupant (tid, bPos) = some idx) :
    MovedMarks tables (tables.tlSwapCrts tid aPos bPos) tid bPos tid
      aPos := by
  obtain ⟨isB, atB, notSentinel⟩ := occupant_eq_some_iff.mp held
  have nextA := (owned.freeSlot tid aPos isA).mp free
  have nextB : ((tables.primTable tid).ycs bPos).normalNext ≠ -1 := by
    rw [Ne, ← owned.freeSlot tid bPos isB, atB]
    exact notSentinel
  intro other query isQuery
  rw [tlSwapCrts_primTable]
  by_cases sameTid : other = tid
  · subst other
    have inLoop : query < maxCrtPerThread + 1 :=
      Nat.lt_succ_of_le isQuery.2
    simp only [updatePrim_self, swapSlots, inLoop, ↓reduceIte,
      renameNext_eq_neg_one_iff, update_apply, true_and]
    grind
  · simp [updatePrim_of_ne, sameTid]

/-- Finishing the coroutine of an occupied position releases its slot. -/
theorem tlFinishCrt_released
    {tables : Tables} {pos : Nat} {idx : Int}
    (held : tables.occupant (tid, pos) = some idx) :
    Released tables (tables.tlFinishCrt tid pos) tid pos idx := by
  obtain ⟨isPos, atPos, notSentinel⟩ := occupant_eq_some_iff.mp held
  have unfolded :
      tables.tlFinishCrt tid pos =
        ((tables.updatePrim tid fun ctx =>
            (ctx.updateYc pos fun yc =>
              { yc with normalNext := -1 }).tlSetCrtIdAt pos (-1)).updateScav
          idx fun crt => { crt with yc := none, finished := true }) := by
    simp only [tlFinishCrt, tlGetCrtIdxAt_of_le _ isPos.2, atPos,
      notSentinel, ↓reduceIte]
    simp [updatePrim, updateScav]
  rw [unfolded]
  refine ⟨?_, ?_, ?_, ?_⟩
  · intro other query
    by_cases sameTid : other = tid
    · subst other
      simp [PrimaryThreadCtx.updateYc, PrimaryThreadCtx.tlSetCrtIdAt,
        update_apply]
    · simp [updatePrim_of_ne, sameTid]
  · intro other query _
    by_cases sameTid : other = tid
    · subst other
      simp only [updateScav_primTable, updatePrim_self,
        PrimaryThreadCtx.updateYc, PrimaryThreadCtx.tlSetCrtIdAt,
        update_apply, true_and]
      grind
    · simp [updatePrim_of_ne, sameTid]
  · intro item _
    by_cases same : item = idx
    · simp [same]
    · simp [updateScav_of_ne, same]
  · intro item _
    by_cases same : item = idx
    · simp [same]
    · simp [updateScav_of_ne, same]

/-- Finishing at a position that hosts nothing only marks that position. -/
theorem tlFinishCrt_of_free
    {pos : Nat}
    (inRange : pos ≤ maxCrtPerThread)
    (free : (tables.primTable tid).idxList pos = -1) :
    tables.tlFinishCrt tid pos =
      tables.updatePrim tid fun ctx =>
        ctx.updateYc pos fun yc => { yc with normalNext := -1 } := by
  simp [tlFinishCrt, tlGetCrtIdxAt_of_le _ inRange, free]

/-- Hosting a scavenger of the pool at a free position places it there. -/
theorem hostScav_placed
    (tables : Tables) (tid : Tid) (idx : Int) (pos : Nat) :
    Placed tables (tables.hostScav tid idx pos) tid pos idx := by
  let placed :=
    tables.updatePrim tid fun ctx =>
      (ctx.tlSetCrtIdAt pos idx).updateYc pos fun yc =>
        { yc with
          sp := (tables.scavTable idx).retToSched
          ip := (tables.scavTable idx).entry
          normalNext := 0 }
  have named := SameSlots.setScavSymbol placed tid idx pos
  have unfolded :
      tables.hostScav tid idx pos =
        (placed.setScavSymbol tid idx pos).updateScav idx
          fun crt => { crt with yc := some (tid, pos) } :=
    rfl
  rw [unfolded]
  refine ⟨?_, ?_, ?_, ?_⟩
  · intro other query
    rw [updateScav_primTable, named.idxList]
    by_cases sameTid : other = tid
    · subst other
      simp [placed, PrimaryThreadCtx.updateYc,
        PrimaryThreadCtx.tlSetCrtIdAt, update_apply]
    · simp [placed, updatePrim_of_ne, sameTid]
  · intro other query isQuery
    rw [updateScav_primTable, named.freeSlot other query isQuery]
    by_cases sameTid : other = tid
    · subst other
      simp only [placed, updatePrim_self, PrimaryThreadCtx.updateYc,
        PrimaryThreadCtx.tlSetCrtIdAt, update_apply, true_and]
      grind
    · simp [placed, updatePrim_of_ne, sameTid]
  · intro item _
    by_cases same : item = idx
    · simp [same]
    · simp [updateScav_of_ne, same, placed]
  · intro item _
    by_cases same : item = idx
    · simp [same, placed]
    · simp [updateScav_of_ne, same, placed]

end Operations

end Tables

end Msh
