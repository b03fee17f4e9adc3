import Msh.Library.SlotContents
import Msh.Runtime.Compaction

namespace Msh

open Function BoundedSearch SlotContents Config

/-!
# Packing keeps order and contexts

`tl_pack_crts` moves scavengers to lower positions one by one.  What the slots
record of the scavengers, read in the order of positions, stays the same with
each swap.
-/

/-- What a slot records of the scavenger that it hosts. -/
structure HostedScav where
  idx : Int
  sp : BitVec 64
  ip : BitVec 64
  normalNext : Int
  regs : Nat → X86Registers

namespace PrimaryThreadCtx

/-- The scavenger at a position with its context. -/
def hostedScav (ctx : PrimaryThreadCtx) (pos : Nat) : Option HostedScav :=
  if ctx.idxList pos = -1 then none
  else
    some
      { idx := ctx.idxList pos
        sp := (ctx.ycs pos).sp
        ip := (ctx.ycs pos).ip
        normalNext := (ctx.ycs pos).normalNext
        regs := ctx.regs pos }

/-- The hosted scavengers in the order of their positions. -/
def hostedScavs (ctx : PrimaryThreadCtx) : List HostedScav :=
  contents ctx.hostedScav 1 maxCrtPerThread

theorem hostedScav_eq_none_iff {ctx : PrimaryThreadCtx} {pos : Nat} :
    ctx.hostedScav pos = none ↔ ctx.idxList pos = -1 := by
  unfold hostedScav
  split <;> simp_all

/-- `set_special_next` writes no other field of the slots. -/
theorem setSpecialNext_context (ctx : PrimaryThreadCtx) (pos : Nat) :
    (ctx.setSpecialNext.ycs pos).sp = (ctx.ycs pos).sp ∧
      (ctx.setSpecialNext.ycs pos).ip = (ctx.ycs pos).ip ∧
      (ctx.setSpecialNext.ycs pos).normalNext =
        (ctx.ycs pos).normalNext := by
  simp only [setSpecialNext, specialNextAt]
  split
  · split <;> split <;> exact ⟨rfl, rfl, rfl⟩
  · exact ⟨rfl, rfl, rfl⟩

theorem hostedScav_setSpecialNext (ctx : PrimaryThreadCtx) :
    ctx.setSpecialNext.hostedScav = ctx.hostedScav := by
  funext pos
  obtain ⟨sp, ip, normalNext⟩ := ctx.setSpecialNext_context pos
  unfold hostedScav
  rw [sp, ip, normalNext]
  rfl

theorem hostedScavs_length (ctx : PrimaryThreadCtx) :
    ctx.hostedScavs.length = ctx.hostedCount := by
  unfold hostedScavs contents hostedCount
  rw [List.length_filterMap_eq_countP]
  apply List.countP_congr
  intro pos _
  unfold hostedScav
  split <;> simp_all

end PrimaryThreadCtx

namespace Tables

/-- An unfinished primary with slots as the scheduler leaves them. -/
structure Packable (tables : Tables) (tid : Tid) : Prop where
  unfinished : ((tables.primTable tid).ycs 0).normalNext ≠ -1
  occupied :
    ∀ {pos}, ScavPos pos → (tables.primTable tid).idxList pos ≠ -1 →
      ((tables.primTable tid).ycs pos).normalNext = 0
  empty :
    ∀ {pos}, ScavPos pos → (tables.primTable tid).idxList pos = -1 →
      ((tables.primTable tid).ycs pos).normalNext = -1
  /-- A scavenger is hosted at one position only. -/
  once :
    ∀ {first second}, ScavPos first → ScavPos second →
      (tables.primTable tid).idxList first ≠ -1 →
        (tables.primTable tid).idxList first =
          (tables.primTable tid).idxList second →
            first = second

section Swap

variable {tables : Tables} {tid : Tid} {aPos bPos : Nat}

/-- The list after a swap of a free position with an occupied one. -/
theorem swapSlots_idxList {ctx : PrimaryThreadCtx}
    (isA : ScavPos aPos) (isB : ScavPos bPos) (different : aPos ≠ bPos)
    (free : ctx.idxList aPos = -1) (pos : Nat) :
    (swapSlots ctx aPos bPos).idxList pos =
      if pos = aPos then ctx.idxList bPos
      else if pos = bPos then -1 else ctx.idxList pos := by
  simp only [swapSlots, PrimaryThreadCtx.tlSetCrtIdAt,
    tlGetCrtIdxAt_of_le _ isA.2, tlGetCrtIdxAt_of_le _ isB.2, free,
    update_apply]
  grind

/-- A link to the primary and the mark of a free slot are not renamed. -/
theorem renameNext_of_unlinked {next : Int}
    (isA : ScavPos aPos) (isB : ScavPos bPos)
    (unlinked : next = 0 ∨ next = -1) :
    renameNext aPos bPos next = next := by
  have aPositive := isA.1
  have bPositive := isB.1
  unfold renameNext
  rw [if_neg (by omega), if_neg (by omega)]

/-- The contexts after a swap of slots that are not linked to each other. -/
theorem swapSlots_slot {ctx : PrimaryThreadCtx}
    (isA : ScavPos aPos) (isB : ScavPos bPos)
    (unlinked :
      ∀ {pos}, ScavPos pos →
        (ctx.ycs pos).normalNext = 0 ∨ (ctx.ycs pos).normalNext = -1)
    {pos : Nat} (isPos : ScavPos pos) :
    (swapSlots ctx aPos bPos).ycs pos =
        (if pos = bPos then ctx.ycs aPos
          else if pos = aPos then ctx.ycs bPos else ctx.ycs pos) ∧
      (swapSlots ctx aPos bPos).regs pos =
        (if pos = bPos then ctx.regs aPos
          else if pos = aPos then ctx.regs bPos else ctx.regs pos) := by
  have inLoop : pos < maxCrtPerThread + 1 := Nat.lt_succ_of_le isPos.2
  constructor
  · simp only [swapSlots, inLoop, ↓reduceIte, update_apply]
    split
    · rw [renameNext_of_unlinked isA isB (unlinked isA)]
    · split
      · rw [renameNext_of_unlinked isA isB (unlinked isB)]
      · rw [renameNext_of_unlinked isA isB (unlinked isPos)]
  · simp only [swapSlots, update_apply]

/-- A swap does not touch the primary's context, but for its link. -/
theorem swapSlots_primary (ctx : PrimaryThreadCtx)
    (isA : ScavPos aPos) (isB : ScavPos bPos) :
    ((swapSlots ctx aPos bPos).ycs 0).sp = (ctx.ycs 0).sp ∧
      ((swapSlots ctx aPos bPos).ycs 0).ip = (ctx.ycs 0).ip ∧
      (swapSlots ctx aPos bPos).regs 0 = ctx.regs 0 := by
  have notA : 0 ≠ aPos := Nat.ne_of_lt isA.1
  have notB : 0 ≠ bPos := Nat.ne_of_lt isB.1
  simp [swapSlots, update_apply, notA, notB]

/-- The back pointers of the scavengers after a swap with a free position. -/
theorem tlSwapCrts_yc
    (isA : ScavPos aPos) (isB : ScavPos bPos)
    (free : (tables.primTable tid).idxList aPos = -1)
    (held : (tables.primTable tid).idxList bPos ≠ -1)
    {idx : Int} (notSentinel : idx ≠ -1) :
    ((tables.tlSwapCrts tid aPos bPos).scavTable idx).yc =
      if idx = (tables.primTable tid).idxList bPos then some (tid, aPos)
      else (tables.scavTable idx).yc := by
  simp only [tlSwapCrts, tlGetCrtIdxAt_of_le _ isA.2,
    tlGetCrtIdxAt_of_le _ isB.2, free, held, ne_eq, not_true_eq_false,
    not_false_eq_true, ↓reduceIte, writeCrtPos_scavTable]
  split
  · next same =>
      subst same
      simp
  · next differs =>
      rw [updateScav_of_ne _ _ differs, updateScav_of_ne _ _ notSentinel]
      rfl

end Swap

namespace Packable

variable {tables : Tables} {tid : Tid} {pos nextPos : Nat}

theorem unlinked (packable : tables.Packable tid) (isPos : ScavPos pos) :
    ((tables.primTable tid).ycs pos).normalNext = 0 ∨
      ((tables.primTable tid).ycs pos).normalNext = -1 := by
  by_cases empty : (tables.primTable tid).idxList pos = -1
  · exact .inr (packable.empty isPos empty)
  · exact .inl (packable.occupied isPos empty)

/-- A swap keeps the shape of the slots. -/
theorem swap
    (packable : tables.Packable tid)
    (isPos : ScavPos pos) (isNext : ScavPos nextPos)
    (different : pos ≠ nextPos)
    (free : (tables.primTable tid).idxList pos = -1)
    (held : (tables.primTable tid).idxList nextPos ≠ -1) :
    (tables.tlSwapCrts tid pos nextPos).Packable tid := by
  have lists := swapSlots_idxList isPos isNext different free
  have slots := @swapSlots_slot pos nextPos _ isPos isNext packable.unlinked
  have primarySlot :=
    @renameNext_eq_neg_one_iff pos nextPos
      ((tables.primTable tid).ycs 0).normalNext
  have notPos : 0 ≠ pos := Nat.ne_of_lt isPos.1
  have notNext : 0 ≠ nextPos := Nat.ne_of_lt isNext.1
  constructor
  all_goals rw [tlSwapCrts_primTable, updatePrim_self]
  · simpa [swapSlots, update_apply, notPos, notNext, primarySlot] using
      packable.unfinished
  · intro query isQuery occupied
    rw [lists] at occupied
    rw [(slots isQuery).1]
    by_cases atNext : query = nextPos
    · rw [if_neg (by omega), if_pos atNext] at occupied
      exact absurd rfl occupied
    · rw [if_neg atNext]
      by_cases atPos : query = pos
      · rw [if_pos atPos]
        exact packable.occupied isNext held
      · rw [if_neg atPos, if_neg atNext] at occupied
        rw [if_neg atPos]
        exact packable.occupied isQuery occupied
  · intro query isQuery empty
    rw [lists] at empty
    rw [(slots isQuery).1]
    by_cases atNext : query = nextPos
    · rw [if_pos atNext]
      exact packable.empty isPos free
    · rw [if_neg atNext]
      by_cases atPos : query = pos
      · rw [if_pos atPos] at empty
        exact absurd empty held
      · rw [if_neg atPos, if_neg atNext] at empty
        rw [if_neg atPos]
        exact packable.empty isQuery empty
  · intro first second isFirst isSecond occupied same
    have once := @packable.once
    rw [lists] at occupied
    rw [lists, lists] at same
    grind

/-- A swap with the next occupied position keeps the order. -/
theorem hostedScavs_swap
    (packable : tables.Packable tid)
    (isPos : ScavPos pos) (inRange : nextPos ≤ maxCrtPerThread)
    (later : pos < nextPos)
    (free : (tables.primTable tid).idxList pos = -1)
    (held : (tables.primTable tid).idxList nextPos ≠ -1)
    (between :
      ∀ query, pos < query → query < nextPos →
        (tables.primTable tid).idxList query = -1) :
    ((tables.tlSwapCrts tid pos nextPos).primTable tid).hostedScavs =
      (tables.primTable tid).hostedScavs := by
  have isNext : ScavPos nextPos := ⟨by omega, inRange⟩
  have different : pos ≠ nextPos := Nat.ne_of_lt later
  have lists := swapSlots_idxList isPos isNext different free
  rw [tlSwapCrts_primTable, updatePrim_self]
  refine contents_move isPos.1 later (by omega) ?_ ?_
  · intro query fromPos beforeNext
    rw [PrimaryThreadCtx.hostedScav_eq_none_iff]
    rcases Nat.eq_or_lt_of_le fromPos with atPos | afterPos
    · rw [← atPos]
      exact free
    · exact between query afterPos beforeNext
  · intro query lower upper
    have isQuery : ScavPos query := ⟨lower, by omega⟩
    obtain ⟨context, regs⟩ :=
      swapSlots_slot isPos isNext packable.unlinked isQuery
    unfold PrimaryThreadCtx.hostedScav
    rw [lists, context, regs]
    by_cases atPos : query = pos
    · subst atPos
      simp [held, different]
    · by_cases atNext : query = nextPos
      · subst atNext
        simp [atPos]
      · simp [atPos, atNext]

end Packable

/-- What holds of the tables when the positions before `pos` are packed. -/
structure PackedTo (before now : Tables) (tid : Tid) (pos : Nat) :
    Prop where
  packable : now.Packable tid
  inOrder :
    (now.primTable tid).hostedScavs = (before.primTable tid).hostedScavs
  packed : PackedBelow (now.primTable tid).idxList pos
  pointed :
    ∀ {query}, ScavPos query → (now.primTable tid).idxList query ≠ -1 →
      (before.primTable tid).idxList query =
          (now.primTable tid).idxList query ∨
        (now.scavTable ((now.primTable tid).idxList query)).yc =
          some (tid, query)
  primary :
    ((now.primTable tid).ycs 0).sp = ((before.primTable tid).ycs 0).sp ∧
      ((now.primTable tid).ycs 0).ip = ((before.primTable tid).ycs 0).ip ∧
      (now.primTable tid).regs 0 = (before.primTable tid).regs 0

namespace PackedTo

variable {before now : Tables} {tid : Tid} {pos nextPos : Nat}

theorem start (packable : before.Packable tid) :
    PackedTo before before tid 1 where
  packable := packable
  inOrder := rfl
  packed := .start _
  pointed _ _ := .inl rfl
  primary := ⟨rfl, rfl, rfl⟩

/-- A swap with the next occupied position packs a free one. -/
theorem swap
    (so : PackedTo before now tid pos)
    (isPos : ScavPos pos)
    (free : (now.primTable tid).idxList pos = -1)
    (later : pos < nextPos) (inRange : nextPos ≤ maxCrtPerThread)
    (held : (now.primTable tid).idxList nextPos ≠ -1)
    (between :
      ∀ query, pos < query → query < nextPos →
        (now.primTable tid).idxList query = -1) :
    PackedTo before (now.tlSwapCrts tid pos nextPos) tid (pos + 1) := by
  have isNext : ScavPos nextPos := ⟨by omega, inRange⟩
  have different : pos ≠ nextPos := Nat.ne_of_lt later
  have lists := swapSlots_idxList isPos isNext different free
  have primary := swapSlots_primary (now.primTable tid) isPos isNext
  refine
    { packable := so.packable.swap isPos isNext different free held
      inOrder :=
        (so.packable.hostedScavs_swap isPos inRange later free held
          between).trans so.inOrder
      packed := so.packed.succ_of_moved later inRange held held ?_
      pointed := ?_
      primary := ?_ }
  all_goals rw [tlSwapCrts_primTable, updatePrim_self]
  · exact lists
  · intro query isQuery occupied
    rw [lists] at occupied ⊢
    by_cases atPos : query = pos
    · rw [if_pos atPos]
      right
      rw [tlSwapCrts_yc isPos isNext free held held, if_pos rfl, atPos]
    · rw [if_neg atPos] at occupied ⊢
      by_cases atNext : query = nextPos
      · rw [if_pos atNext] at occupied
        exact absurd rfl occupied
      · rw [if_neg atNext] at occupied ⊢
        have notMoved :
            (now.primTable tid).idxList query ≠
              (now.primTable tid).idxList nextPos := by
          intro same
          exact atNext (so.packable.once isQuery isNext occupied same)
        rw [tlSwapCrts_yc isPos isNext free held occupied, if_neg notMoved]
        exact so.pointed isQuery occupied
  · obtain ⟨sp, ip, regs⟩ := so.primary
    exact ⟨primary.1.trans sp, primary.2.1.trans ip, primary.2.2.trans regs⟩

/-- One iteration of `tl_pack_crts` packs one more position. -/
theorem packAt
    (so : PackedTo before now tid pos) (isPos : ScavPos pos) :
    PackedTo before (now.packAt tid pos) tid (pos + 1) := by
  rcases now.packAt_cases tid isPos with
    ⟨unchanged, occupied | nothingLater⟩ |
      ⟨nextPos, swaps, free, later, inRange, held, between⟩
  · rw [unchanged]
    exact { so with packed := so.packed.succ_of_occupied occupied }
  · rw [unchanged]
    exact { so with packed := so.packed.succ_of_last nothingLater }
  · rw [swaps]
    exact so.swap isPos free later inRange held between

/-- The loop of `tl_pack_crts` packs all positions. -/
theorem packAll
    (packable : before.Packable tid) {count : Nat}
    (inRange : count ≤ maxCrtPerThread) :
    PackedTo before
      ((List.range' 1 count).foldl (fun packed pos => packed.packAt tid pos)
        before)
      tid (count + 1) := by
  induction count with
  | zero =>
      exact .start packable
  | succ count inductionHypothesis =>
      have so := inductionHypothesis (Nat.le_of_succ_le inRange)
      rw [List.range'_concat, List.foldl_append, Nat.one_mul,
        Nat.add_comm 1 count]
      exact so.packAt ⟨Nat.succ_pos count, inRange⟩

end PackedTo

/-- `after` has the scavengers of `before` in the first positions. -/
structure StablyCompacted (before after : Tables) (tid : Tid) : Prop where
  /-- In their former order, each with its context. -/
  inOrder :
    (List.range' 1 (before.primTable tid).hostedCount).map
        (after.primTable tid).hostedScav =
      (before.primTable tid).hostedScavs.map some
  free :
    ∀ pos, (before.primTable tid).hostedCount < pos →
      pos ≤ maxCrtPerThread →
        (after.primTable tid).idxList pos = -1 ∧
          ((after.primTable tid).ycs pos).normalNext = -1
  pointed :
    ∀ fromPos toPos, ScavPos fromPos → ScavPos toPos → fromPos ≠ toPos →
      (before.primTable tid).idxList fromPos ≠ -1 →
      (after.primTable tid).idxList toPos =
        (before.primTable tid).idxList fromPos →
        (after.scavTable ((before.primTable tid).idxList fromPos)).yc =
          some (tid, toPos)
  primary :
    ((after.primTable tid).ycs 0).sp = ((before.primTable tid).ycs 0).sp ∧
      ((after.primTable tid).ycs 0).ip =
        ((before.primTable tid).ycs 0).ip ∧
      (after.primTable tid).regs 0 = (before.primTable tid).regs 0

/-- Packed tables have the scavengers in the first positions. -/
theorem PackedTo.stablyCompacted
    {before now : Tables} {tid : Tid}
    (packable : before.Packable tid)
    (so : PackedTo before now tid (maxCrtPerThread + 1)) :
    StablyCompacted before now tid := by
  obtain ⟨hosted, compact⟩ := so.packed.compact
  have bound := compact.bound
  have filled :
      (now.primTable tid).hostedScavs.map some =
        (List.range' 1 hosted).map (now.primTable tid).hostedScav := by
    apply map_some_contents bound
    · intro pos lower upper empty
      exact compact.occupied lower (by omega)
        (PrimaryThreadCtx.hostedScav_eq_none_iff.mp empty)
    · intro pos lower upper
      exact PrimaryThreadCtx.hostedScav_eq_none_iff.mpr
        (compact.free (by omega) (by omega))
  have sameCount : (before.primTable tid).hostedCount = hosted := by
    rw [← PrimaryThreadCtx.hostedScavs_length, ← so.inOrder,
      PrimaryThreadCtx.hostedScavs_length, compact.hostedCount_eq]
  refine ⟨?_, ?_, ?_, so.primary⟩
  · rw [sameCount, ← filled, so.inOrder]
  · intro pos behind inRange
    rw [sameCount] at behind
    have empty := compact.free behind inRange
    exact ⟨empty, so.packable.empty ⟨by omega, inRange⟩ empty⟩
  · intro fromPos toPos isFrom isTo different occupied moved
    have pointed := so.pointed isTo (by rwa [moved])
    rw [moved] at pointed
    rcases pointed with same | pointed
    · exact absurd (packable.once isFrom isTo occupied same.symm) different
    · exact pointed

/--
`tl_pack_crts` brings the scavengers to the first positions in their order,
each with its context and its register sets, and points them at their new
slots.
-/
theorem tlPackCrts_stablyCompacted
    {tables : Tables} {tid : Tid} (packable : tables.Packable tid) :
    StablyCompacted tables (tables.tlPackCrts tid) tid := by
  have so := PackedTo.packAll packable (Nat.le_refl maxCrtPerThread)
  have compacted := so.stablyCompacted packable
  unfold tlPackCrts
  rw [if_neg packable.unfinished]
  generalize (List.range' 1 maxCrtPerThread).foldl _ tables = packed
    at compacted ⊢
  have context := (packed.primTable tid).setSpecialNext_context
  constructor
  all_goals rw [updatePrim_self]
  · rw [PrimaryThreadCtx.hostedScav_setSpecialNext]
    exact compacted.inOrder
  · intro pos behind inRange
    rw [(context pos).2.2]
    exact compacted.free pos behind inRange
  · exact compacted.pointed
  · rw [(context 0).1, (context 0).2.1]
    exact compacted.primary

/-- A thread with scavengers at the positions 2 and 4. -/
def twoHoles : Tables :=
  zeroed.updatePrim 0 fun ctx =>
    { ctx with
      idxList := fun pos =>
        if pos = 2 then 7 else if pos = 4 then 5 else -1
      ycs := fun pos =>
        if pos = 0 then ⟨9, 9, 0, 40⟩
        else if pos = 2 then ⟨1, 1, 0, 0⟩
        else if pos = 4 then ⟨2, 2, 0, 0⟩ else ⟨0, 0, 0, -1⟩ }

theorem twoHoles_packable : twoHoles.Packable 0 := by
  have positive : ∀ {pos}, ScavPos pos → pos ≠ 0 :=
    fun isPos => Nat.ne_of_gt isPos.1
  constructor
  · simp [twoHoles]
  · intro pos isPos
    simp only [twoHoles, updatePrim_self, positive isPos, ↓reduceIte]
    grind
  · intro pos isPos
    simp only [twoHoles, updatePrim_self, positive isPos, ↓reduceIte]
    grind
  · intro first second _ _
    simp only [twoHoles, updatePrim_self]
    grind

/-- Two scavengers move to the positions 1 and 2. -/
theorem tlPackCrts_stablyCompacted_twoHoles :
    StablyCompacted twoHoles (twoHoles.tlPackCrts 0) 0 :=
  tlPackCrts_stablyCompacted twoHoles_packable

end Tables

end Msh
