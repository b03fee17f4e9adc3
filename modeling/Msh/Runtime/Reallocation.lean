import Msh.Runtime.Compaction

namespace Msh

open Function BoundedSearch SlotAssignment Config

/-!
# Reallocation

One iteration of `realloc_scav` stops because the donor has no scavenger left,
has the effect `moveScav`, or pops a scavenger that finds no place and has the
effect `putBack`.  The last pushes the scavenger to the donor's first free
position, which in a compact list is the one it was taken from: between
compact lists the whole loop is a number of moves.
-/

namespace Tables

/-- The entry of a donor after its scavenger at `fromPos` was taken. -/
def donorAfter (ctx : PrimaryThreadCtx) (fromPos : Nat) :
    PrimaryThreadCtx :=
  { ctx with
    idxList := update ctx.idxList fromPos (-1)
    ycs :=
      update ctx.ycs fromPos { ctx.ycs fromPos with normalNext := -1 }
    reallocated := true }

/-- The entry of a taker after it received the scavenger `idx`. -/
def takerAfter
    (ctx : PrimaryThreadCtx) (toPos : Nat) (idx : Int)
    (fromYc : YieldCtx) (fromRegs : Nat → X86Registers) :
    PrimaryThreadCtx :=
  { ctx with
    idxList := update ctx.idxList toPos idx
    ycs :=
      update
        (update ctx.ycs toPos
          { ctx.ycs toPos with
            sp := fromYc.sp, ip := fromYc.ip, normalNext := 0 })
        0 { ctx.ycs 0 with normalNext := sizeofYieldCtx }
    regs := update ctx.regs toPos fromRegs }

/-- The effect of one iteration of `realloc_scav` that moves a scavenger. -/
def moveScav
    (tables : Tables) (source : Tid) (fromPos : Nat)
    (target : Tid) (toPos : Nat) : Tables :=
  let donor := tables.primTable source
  let idx := donor.idxList fromPos
  let named := tables.writeCrtPos idx toPos
  { primTable :=
      update
        (update tables.primTable source (donorAfter donor fromPos))
        target
        (takerAfter (tables.primTable target) toPos idx
          (donor.ycs fromPos) (donor.regs fromPos))
    scavTable :=
      update tables.scavTable idx
        { tables.scavTable idx with yc := some (target, toPos) }
    libs := named.libs }

/--
The effect of one iteration of `realloc_scav` that rolls back: the scavenger
is in the list again, at the position that was then the first free one.
-/
def putBack
    (tables : Tables) (source : Tid) (fromPos toPos : Nat) : Tables :=
  tables.updatePrim source fun ctx =>
    { ctx with
      idxList :=
        update (update ctx.idxList fromPos (-1)) toPos
          (ctx.idxList fromPos) }

/-- Put back where it was, the scavenger leaves no trace. -/
theorem putBack_self (tables : Tables) (source : Tid) (fromPos : Nat) :
    tables.putBack source fromPos fromPos = tables := by
  simp [putBack, updatePrim]

section ReallocOne

variable {tables : Tables} {source target : Tid} {fromPos toPos : Nat}

/-- A donor without scavengers ends the loop at once. -/
theorem reallocOne_of_none
    (noneLeft :
      PrimaryThreadCtx.lastOccupied (tables.primTable source).idxList =
        none) :
    tables.reallocOne source target = (tables, false) := by
  simp [reallocOne, noneLeft]

/-- When the taker is full, the popped scavenger is put back. -/
theorem reallocOne_of_full
    (different : source ≠ target)
    (isLast :
      PrimaryThreadCtx.lastOccupied (tables.primTable source).idxList =
        some fromPos)
    (full :
      PrimaryThreadCtx.firstFree (tables.primTable target).idxList = none)
    (back :
      PrimaryThreadCtx.firstFree
          (update (tables.primTable source).idxList fromPos (-1)) =
        some toPos) :
    tables.reallocOne source target =
      (tables.putBack source fromPos toPos, false) := by
  simp only [reallocOne, isLast, updatePrim_of_ne _ _ different.symm, full,
    updatePrim_self, PrimaryThreadCtx.tlSetCrtIdAt, back]
  simp [updatePrim, putBack]

/-- When the taker has room, the donor's last scavenger is moved. -/
theorem reallocOne_of_room
    (different : source ≠ target)
    (isLast :
      PrimaryThreadCtx.lastOccupied (tables.primTable source).idxList =
        some fromPos)
    (room :
      PrimaryThreadCtx.firstFree (tables.primTable target).idxList =
        some toPos) :
    tables.reallocOne source target =
      (tables.moveScav source fromPos target toPos, true) := by
  have notPrimary : 0 ≠ toPos := by
    have := (PrimaryThreadCtx.firstFree_eq_some_iff.mp room).1.1
    omega
  simp only [reallocOne, isLast, updatePrim_of_ne _ _ different.symm, room]
  refine Prod.ext (Tables.ext ?_ ?_ ?_) rfl
  · funext other
    by_cases isTarget : other = target
    · subst other
      simp only [updatePrim_of_ne _ _ different,
        updatePrim_of_ne _ _ different.symm, updatePrim_self,
        updateScav_primTable, writeCrtPos_primTable,
        PrimaryThreadCtx.updateYc_tlUpdateNextMap]
      simp [moveScav, takerAfter, PrimaryThreadCtx.tlSetCrtIdAt,
        PrimaryThreadCtx.updateYc, notPrimary]
    · by_cases isSource : other = source
      · subst other
        simp [moveScav, donorAfter, updatePrim_of_ne, different,
          PrimaryThreadCtx.tlSetCrtIdAt, PrimaryThreadCtx.updateYc]
      · simp [moveScav, updatePrim_of_ne, isTarget, isSource]
  · simp [moveScav, updateScav]
  · simp only [updatePrim_libs, moveScav]
    apply writeCrtPos_libs_congr
    · rfl
    · rfl

/-- A popped scavenger always finds a place in the list it comes from. -/
theorem exists_backPos
    (isLast :
      PrimaryThreadCtx.lastOccupied (tables.primTable source).idxList =
        some fromPos) :
    ∃ toPos,
      PrimaryThreadCtx.firstFree
          (update (tables.primTable source).idxList fromPos (-1)) =
        some toPos := by
  have isPos := (PrimaryThreadCtx.lastOccupied_eq_some_iff.mp isLast).1
  refine Option.ne_none_iff_exists'.mp ?_
  unfold PrimaryThreadCtx.firstFree
  rw [Ne, findUp_eq_none_iff]
  intro allHeld
  have upper := isPos.2
  have held := allHeld fromPos isPos.1 (by omega)
  simp at held

/-- It is the position it was taken from when the list had no gap. -/
theorem backPos_eq_iff
    (isLast :
      PrimaryThreadCtx.lastOccupied (tables.primTable source).idxList =
        some fromPos)
    (back :
      PrimaryThreadCtx.firstFree
          (update (tables.primTable source).idxList fromPos (-1)) =
        some toPos) :
    (toPos = fromPos ↔
      (tables.primTable source).hostedCount = fromPos) ∧
      toPos ≤ fromPos ∧ 1 ≤ toPos := by
  have isPos := (PrimaryThreadCtx.lastOccupied_eq_some_iff.mp isLast).1
  unfold PrimaryThreadCtx.firstFree at back
  rw [findUp_eq_some_iff] at back
  obtain ⟨free, lower, _, held⟩ := back
  have atMost : toPos ≤ fromPos := by
    by_contra beyond
    have := held fromPos isPos.1 (by omega)
    simp at this
  refine ⟨?_, atMost, lower⟩
  rw [PrimaryThreadCtx.hostedCount_eq_last_iff isLast]
  constructor
  · rintro rfl pos posLower below
    have := held pos posLower below
    rw [update_of_ne (Nat.ne_of_lt below)] at this
    simpa using this
  · intro allHeld
    by_contra differs
    rw [update_of_ne differs] at free
    exact allHeld toPos lower (by omega) (by simpa using free)

end ReallocOne

/-- Repeated moves: the donor's last `count` scavengers, last one first. -/
def moveTail
    (tables : Tables) (source : Tid) (donated : Nat)
    (target : Tid) (hosted : Nat) : Nat → Tables
  | 0 => tables
  | count + 1 =>
      (tables.moveScav source donated target (hosted + 1)).moveTail
        source (donated - 1) target (hosted + 1) count

section MoveScav

variable
  {tables : Tables} {source target : Tid} {fromPos toPos : Nat}

theorem moveScav_source
    (different : source ≠ target) :
    (tables.moveScav source fromPos target toPos).primTable source =
      donorAfter (tables.primTable source) fromPos := by
  simp [moveScav, different]

theorem moveScav_target :
    (tables.moveScav source fromPos target toPos).primTable target =
      takerAfter (tables.primTable target) toPos
        ((tables.primTable source).idxList fromPos)
        ((tables.primTable source).ycs fromPos)
        ((tables.primTable source).regs fromPos) := by
  simp [moveScav]

theorem moveScav_other
    {other : Tid}
    (notSource : other ≠ source) (notTarget : other ≠ target) :
    (tables.moveScav source fromPos target toPos).primTable other =
      tables.primTable other := by
  simp [moveScav, notSource, notTarget]

/-- The flag that the stealer holds is not touched by a move. -/
theorem moveScav_reallocatable (different : source ≠ target) (tid : Tid) :
    ((tables.moveScav source fromPos target toPos).primTable
        tid).reallocatable =
      (tables.primTable tid).reallocatable := by
  by_cases isTarget : tid = target
  · subst tid
    rw [moveScav_target]
    rfl
  · by_cases isSource : tid = source
    · subst tid
      rw [moveScav_source different]
      rfl
    · rw [moveScav_other isSource isTarget]

/-- A move of `realloc_scav` is a move of the slot records. -/
theorem moveScav_moved (different : source ≠ target) :
    Moved tables (tables.moveScav source fromPos target toPos)
      source fromPos target toPos
      ((tables.primTable source).idxList fromPos) := by
  refine ⟨⟨?_, ?_⟩, ?_⟩
  · intro other query
    by_cases isTarget : other = target
    · subst other
      simp [moveScav_target, takerAfter, update_apply, different.symm]
    · by_cases isSource : other = source
      · subst other
        simp [moveScav_source different, donorAfter, update_apply,
          different]
      · simp [moveScav_other isSource isTarget, isTarget, isSource]
  · intro item _
    by_cases same : item = (tables.primTable source).idxList fromPos
    · simp [moveScav, same]
    · simp [moveScav, same]
  · intro item _
    by_cases same : item = (tables.primTable source).idxList fromPos
    · simp [moveScav, same]
    · simp [moveScav, same]

theorem moveScav_movedMarks
    (different : source ≠ target) (isTo : ScavPos toPos) :
    MovedMarks tables (tables.moveScav source fromPos target toPos)
      source fromPos target toPos := by
  have notPrimary : toPos ≠ 0 := by
    have := isTo.1
    omega
  intro other query isQuery
  have queryNe : query ≠ 0 := by
    have := isQuery.1
    omega
  by_cases isTarget : other = target
  · subst other
    by_cases here : query = toPos
    · simp [moveScav_target, takerAfter, here, notPrimary]
    · simp [moveScav_target, takerAfter, here, queryNe, different.symm]
  · by_cases isSource : other = source
    · subst other
      by_cases here : query = fromPos
      · simp [moveScav_source different, donorAfter, here, different]
      · simp [moveScav_source different, donorAfter, here, different]
    · simp [moveScav_other isSource isTarget, isTarget, isSource]

/-- A rollback to another position is one of the slot records. -/
theorem putBack_rolledBack :
    RolledBack tables (tables.putBack source fromPos toPos) source fromPos
      toPos ((tables.primTable source).idxList fromPos) := by
  refine ⟨⟨?_, fun _ _ => rfl⟩, fun _ _ => rfl⟩
  intro other query
  by_cases isSource : other = source
  · subst other
    simp [putBack, update_apply]
  · simp [putBack, updatePrim_of_ne, isSource]

/-- Holding a donor's flag commutes with moving its scavengers. -/
theorem moveScav_setFlag (different : source ≠ target) (flag : Bool) :
    (tables.updatePrim source fun ctx =>
        { ctx with reallocatable := flag }).moveScav
          source fromPos target toPos =
      (tables.moveScav source fromPos target toPos).updatePrim
        source fun ctx => { ctx with reallocatable := flag } := by
  refine Tables.ext ?_ ?_ ?_
  · funext other
    by_cases isTarget : other = target
    · subst other
      simp [moveScav_target, updatePrim_of_ne, different.symm]
    · by_cases isSource : other = source
      · subst other
        simp [moveScav_source different, donorAfter]
      · simp [moveScav_other isSource isTarget, updatePrim_of_ne,
          isSource]
  · simp [moveScav]
  · simp only [moveScav, updatePrim_self, updatePrim_libs]
    apply writeCrtPos_libs_congr
    · rfl
    · rfl

/-- Holding a donor's flag commutes with a rollback. -/
theorem putBack_setFlag (flag : Bool) :
    (tables.updatePrim source fun ctx =>
        { ctx with reallocatable := flag }).putBack source fromPos toPos =
      (tables.putBack source fromPos toPos).updatePrim
        source fun ctx => { ctx with reallocatable := flag } := by
  simp [putBack, updatePrim]

/-- The donor's list after one move. -/
theorem moveScav_donor_compact
    {donated : Nat} (toPos : Nat)
    (different : source ≠ target)
    (donor : Compact (tables.primTable source).idxList (donated + 1)) :
    Compact
      ((tables.moveScav source (donated + 1) target toPos).primTable
        source).idxList donated := by
  rw [moveScav_source different]
  exact donor.pop

/-- The taker's list after one move. -/
theorem moveScav_taker_compact
    {hosted : Nat}
    (taker : Compact (tables.primTable target).idxList hosted)
    (room : hosted < maxCrtPerThread)
    (held : (tables.primTable source).idxList fromPos ≠ -1) :
    Compact
      ((tables.moveScav source fromPos target (hosted + 1)).primTable
        target).idxList (hosted + 1) := by
  rw [moveScav_target]
  exact taker.push room held

end MoveScav

section Flag

variable {tables : Tables} {source target : Tid}

/-- Holding a donor's flag commutes with an iteration of the loop. -/
theorem reallocOne_setFlag (different : source ≠ target) (flag : Bool) :
    (tables.updatePrim source fun ctx =>
        { ctx with reallocatable := flag }).reallocOne source target =
      ((tables.reallocOne source target).1.updatePrim source fun ctx =>
          { ctx with reallocatable := flag },
        (tables.reallocOne source target).2) := by
  have sourceList :
      ((tables.updatePrim source fun ctx =>
        { ctx with reallocatable := flag }).primTable source).idxList =
          (tables.primTable source).idxList := by
    simp
  have targetList :
      ((tables.updatePrim source fun ctx =>
        { ctx with reallocatable := flag }).primTable target).idxList =
          (tables.primTable target).idxList := by
    rw [updatePrim_of_ne _ _ different.symm]
  cases last :
    PrimaryThreadCtx.lastOccupied (tables.primTable source).idxList with
  | none =>
      rw [reallocOne_of_none last, reallocOne_of_none (by rwa [sourceList])]
  | some fromPos =>
      cases room :
        PrimaryThreadCtx.firstFree (tables.primTable target).idxList with
      | none =>
          obtain ⟨toPos, back⟩ := exists_backPos last
          rw [reallocOne_of_full different last room back,
            reallocOne_of_full different (by rwa [sourceList])
              (by rwa [targetList]) (by rwa [sourceList]),
            putBack_setFlag]
      | some toPos =>
          rw [reallocOne_of_room different last room,
            reallocOne_of_room different (by rwa [sourceList])
              (by rwa [targetList]),
            moveScav_setFlag different]

/-- Holding a donor's flag commutes with the whole loop. -/
theorem reallocScav_setFlag
    (different : source ≠ target) (flag : Bool) (demands : Nat) :
    (tables.updatePrim source fun ctx =>
        { ctx with reallocatable := flag }).reallocScav source target
          demands =
      ((tables.reallocScav source target demands).1.updatePrim source
          fun ctx => { ctx with reallocatable := flag },
        (tables.reallocScav source target demands).2) := by
  induction demands generalizing tables with
  | zero =>
      rfl
  | succ demands inductionHypothesis =>
      simp only [reallocScav, reallocOne_setFlag different]
      split
      · next moved goesOn =>
          rw [Prod.mk.injEq] at goesOn
          obtain ⟨rfl, goesOn⟩ := goesOn
          rw [inductionHypothesis]
          split
          · next again isAgain =>
              rw [isAgain]
          · next stopped isStopped =>
              rw [isStopped] at goesOn
              cases goesOn
      · next stopped stops =>
          rw [Prod.mk.injEq] at stops
          obtain ⟨rfl, stops⟩ := stops
          split
          · next again isAgain =>
              rw [isAgain] at stops
              cases stops
          · next other isOther =>
              rw [isOther]

end Flag

section CompactLists

variable {tables : Tables} {source target : Tid} {donated hosted : Nat}

/--
Between compact lists, a scavenger that finds no place is put back to where it
was: the iteration ends the loop and changes nothing.
-/
theorem reallocOne_of_compact_full
    (different : source ≠ target)
    (donor : Compact (tables.primTable source).idxList (donated + 1))
    (taker : Compact (tables.primTable target).idxList maxCrtPerThread) :
    tables.reallocOne source target = (tables, false) := by
  have room : donated < maxCrtPerThread :=
    Nat.lt_of_succ_le donor.bound
  rw [reallocOne_of_full different donor.lastOccupied_eq_some
    taker.firstFree_eq_none (donor.pop.firstFree_eq_some room),
    putBack_self]

/--
Between compact lists, `realloc_scav` moves as many scavengers as are
demanded, as the donor has, and as the taker has room for.
-/
theorem reallocScav_eq
    (different : source ≠ target)
    (donor : Compact (tables.primTable source).idxList donated)
    (taker : Compact (tables.primTable target).idxList hosted)
    (demands : Nat) :
    tables.reallocScav source target demands =
      (tables.moveTail source donated target hosted
          (min demands (min donated (maxCrtPerThread - hosted))),
        min demands (min donated (maxCrtPerThread - hosted))) := by
  induction demands generalizing tables donated hosted with
  | zero =>
      simp [reallocScav, moveTail]
  | succ demands inductionHypothesis =>
      cases donated with
      | zero =>
          simp [reallocScav, reallocOne_of_none donor.lastOccupied_eq_none,
            moveTail]
      | succ donated =>
          rcases Nat.lt_or_ge hosted maxCrtPerThread with room | full
          · have held :
                (tables.primTable source).idxList (donated + 1) ≠ -1 :=
              donor.occupied (by omega) (Nat.le_refl _)
            have donorNext :=
              moveScav_donor_compact (hosted + 1) different donor
            have takerNext :=
              moveScav_taker_compact taker room held
            have rest := inductionHypothesis donorNext takerNext
            have count :
                min (demands + 1)
                    (min (donated + 1) (maxCrtPerThread - hosted)) =
                  min demands
                    (min donated (maxCrtPerThread - (hosted + 1))) + 1 := by
              omega
            simp only [reallocScav,
              reallocOne_of_room different donor.lastOccupied_eq_some
                (taker.firstFree_eq_some room),
              rest, count, moveTail, Nat.add_sub_cancel]
          · have isFull : hosted = maxCrtPerThread :=
              Nat.le_antisymm taker.bound full
            subst isFull
            simp [reallocScav,
              reallocOne_of_compact_full different donor taker, moveTail]

end CompactLists

end Tables

end Msh
