import Msh.Runtime.YieldLinks

namespace Msh

open Function BoundedSearch SlotAssignment TransitionSystem Config
open PrimaryThreadCtx

/-!
# Yield links and the operations

The links of a thread are rebuilt by `set_special_next` and
`tl_update_next_map` and damaged by thefts while the thread is in a blockable
call.  `PhaseLinks` says for each phase which of them are right in a thread
outside `msh_cleanup`, and the lemmas say what finishing, packing and the
locked section leave of them.
-/

namespace PrimaryThreadCtx

/-- `normal_next` of a primary that has not finished is not the sentinel. -/
def Running (ctx : PrimaryThreadCtx) : Prop :=
  (ctx.ycs 0).normalNext ≠ -1

/-- What the phase of a thread outside `msh_cleanup` says about its links. -/
def PhaseLinks (ctx : PrimaryThreadCtx) : Phase → Prop
  | .idle => Compact ctx.idxList 0
  | .app =>
      ∃ hosted, Compact ctx.idxList hosted ∧ ctx.ScavLinks ∧
        ctx.PrimaryLinked hosted ∧ ctx.Chained hosted
  | .blocked =>
      ctx.Running ∧ ctx.ScavLinks ∧
        ∃ hosted, Compact ctx.idxList hosted ∧
          (ctx.reallocated = false ∧ ctx.PrimaryLinked hosted ∧
              ctx.Chained hosted ∨
            ctx.reallocated = true ∧ ctx.Dangling hosted)
  | .packing pos =>
      ctx.Running ∧ ctx.ScavLinks ∧ PackedBelow ctx.idxList pos ∧
        ∃ free, ScavPos free ∧ ctx.idxList free = -1
  | .allocating .initPrimary => Compact ctx.idxList 0
  | .allocating .sched =>
      ctx.Running ∧ ctx.ScavLinks ∧
        ∃ hosted, Compact ctx.idxList hosted ∧ ctx.Chained hosted
  | .allocating .exitCall =>
      ctx.Running ∧ ctx.ScavLinks ∧
        ∃ hosted, Compact ctx.idxList hosted ∧ ctx.Dangling hosted
  | .allocated .initPrimary ret =>
      ctx.ScavLinks ∧ Compact ctx.idxList ret
  | .allocated _ _ =>
      ctx.Running ∧ ctx.ScavLinks ∧
        ∃ hosted, Compact ctx.idxList hosted

/-- The phases in which the mark of a theft may be set. -/
def MayBeRobbed : Phase → Prop
  | .blocked | .allocating .exitCall | .allocated .exitCall _ => True
  | _ => False

theorem scavLinks_of_empty
    {ctx : PrimaryThreadCtx} (empty : Compact ctx.idxList 0) :
    ctx.ScavLinks := by
  intro pos occupied
  have := (occupied_iff empty pos).mp occupied
  omega

theorem chained_zero (ctx : PrimaryThreadCtx) : ctx.Chained 0 :=
  ⟨fun _ _ below => absurd below (Nat.not_lt_zero _),
    fun some => absurd some (by decide)⟩

theorem running_of_primaryLinked
    {ctx : PrimaryThreadCtx} {hosted : Nat}
    (primary : ctx.PrimaryLinked hosted) :
    ctx.Running := by
  unfold Running
  rw [primary]
  split <;> decide

/-- The entry of a thread after it finished the slot at `pos`. -/
def finishedAt (ctx : PrimaryThreadCtx) (pos : Nat) : PrimaryThreadCtx :=
  { ctx with
    idxList := update ctx.idxList pos (-1)
    ycs := update ctx.ycs pos { ctx.ycs pos with normalNext := -1 } }

/-- Finishing a slot leaves the links of the other scavengers. -/
theorem finishedAt_scavLinks
    {ctx : PrimaryThreadCtx} (links : ctx.ScavLinks) (pos : Nat) :
    (ctx.finishedAt pos).ScavLinks := by
  rintro query ⟨isPos, held⟩
  by_cases here : query = pos
  · subst query
    simp [finishedAt] at held
  · simp only [finishedAt, update_of_ne here] at held ⊢
    exact links query ⟨isPos, held⟩

/-- `tl_update_next_map` never marks a primary as finished. -/
theorem tlUpdateNextMap_running
    {ctx : PrimaryThreadCtx} (running : ctx.Running) :
    ctx.tlUpdateNextMap.Running := by
  have size : (sizeofYieldCtx : Int) = 20 := rfl
  unfold Running tlUpdateNextMap
  rw [if_neg running]
  simp only [updateYc, update_self, size]
  omega

theorem tlUpdateNextMap_scavLinks
    {ctx : PrimaryThreadCtx} (links : ctx.ScavLinks) :
    ctx.tlUpdateNextMap.ScavLinks := by
  rintro pos ⟨isPos, held⟩
  have notPrimary : pos ≠ 0 := by
    have := isPos.1
    omega
  rw [tlUpdateNextMap_idxList] at held
  rw [tlUpdateNextMap_ycs ctx notPrimary]
  exact links pos ⟨isPos, held⟩

/-- The special links are not those that `tl_update_next_map` writes. -/
theorem tlUpdateNextMap_chained
    {ctx : PrimaryThreadCtx} {hosted : Nat}
    (chained : ctx.Chained hosted) :
    ctx.tlUpdateNextMap.Chained hosted := by
  constructor
  · intro pos lower below
    rw [tlUpdateNextMap_ycs ctx (by omega)]
    exact chained.1 pos lower below
  · intro some
    rw [tlUpdateNextMap_ycs ctx (by omega)]
    exact chained.2 some

/-- Updating the next map of a running primary makes all links right. -/
theorem tlUpdateNextMap_links
    {ctx : PrimaryThreadCtx} {hosted : Nat}
    (compact : Compact ctx.idxList hosted)
    (noneStale : hosted = 0 → ctx.tlNextAvailableCrt = 0)
    (running : ctx.Running) (links : ctx.ScavLinks)
    (chained : ctx.Chained hosted) :
    ctx.tlUpdateNextMap.PhaseLinks .app := by
  refine ⟨hosted, ?_, tlUpdateNextMap_scavLinks links,
    tlUpdateNextMap_primaryLinked compact links noneStale running,
    tlUpdateNextMap_chained chained⟩
  rw [tlUpdateNextMap_idxList]
  exact compact

theorem setSpecialNext_scavLinks
    {ctx : PrimaryThreadCtx} (links : ctx.ScavLinks) :
    ctx.setSpecialNext.ScavLinks := by
  intro pos occupied
  rw [setSpecialNext_normalNext]
  exact links pos occupied

theorem setSpecialNext_tlNextAvailableCrt (ctx : PrimaryThreadCtx) :
    ctx.setSpecialNext.tlNextAvailableCrt = ctx.tlNextAvailableCrt := by
  simp only [tlNextAvailableCrt, setSpecialNext_normalNext]

theorem setSpecialNext_running
    {ctx : PrimaryThreadCtx} (running : ctx.Running) :
    ctx.setSpecialNext.Running := by
  unfold Running
  rw [setSpecialNext_normalNext]
  exact running

/-- `init_primary_ctx` does not touch the scavengers' links. -/
theorem initPrimaryCtx_ycs
    (ctx : PrimaryThreadCtx) (counts : Nat) {pos : Nat} (lower : 1 ≤ pos) :
    (ctx.initPrimaryCtx counts).ycs pos = ctx.ycs pos := by
  simp [initPrimaryCtx, Nat.ne_of_gt lower]

/-- Swapping a free position with a later scavenger keeps the links. -/
theorem swapSlots_links
    {ctx : PrimaryThreadCtx} (links : ctx.ScavLinks)
    {aPos bPos : Nat} (isA : ScavPos aPos) (isB : ScavPos bPos)
    (free : ctx.idxList aPos = -1) (held : ctx.idxList bPos ≠ -1) :
    (Tables.swapSlots ctx aPos bPos).ScavLinks ∧
      (Tables.swapSlots ctx aPos bPos).idxList bPos = -1 := by
  have lowerA := isA.1
  have lowerB := isB.1
  have renamed : Tables.renameNext aPos bPos 0 = 0 := by
    unfold Tables.renameNext
    rw [if_neg (by omega), if_neg (by omega)]
  have differs : aPos ≠ bPos := by
    rintro rfl
    exact held free
  constructor
  · rintro pos ⟨isPos, occupied⟩
    have inLoop : pos < maxCrtPerThread + 1 := Nat.lt_succ_of_le isPos.2
    simp only [Tables.swapSlots, tlSetCrtIdAt, inLoop, ↓reduceIte,
      Tables.tlGetCrtIdxAt_of_le _ isA.2,
      Tables.tlGetCrtIdxAt_of_le _ isB.2] at occupied ⊢
    by_cases isLater : pos = bPos
    · subst pos
      rw [update_self] at occupied
      exact absurd free occupied
    · rw [update_of_ne isLater] at occupied ⊢
      by_cases isFree : pos = aPos
      · subst pos
        rw [update_self, links bPos ⟨isB, held⟩, renamed]
      · rw [update_of_ne isFree] at occupied ⊢
        rw [links pos ⟨isPos, occupied⟩, renamed]
  · simp [Tables.swapSlots, tlSetCrtIdAt,
      Tables.tlGetCrtIdxAt_of_le _ isA.2, free]

/-- The mark of a finished primary is not touched by a swap. -/
theorem swapSlots_running
    {ctx : PrimaryThreadCtx} {aPos bPos : Nat}
    (isA : ScavPos aPos) (isB : ScavPos bPos) (running : ctx.Running) :
    (Tables.swapSlots ctx aPos bPos).Running := by
  have notA : (0 : Nat) ≠ aPos := by
    have := isA.1
    omega
  have notB : (0 : Nat) ≠ bPos := by
    have := isB.1
    omega
  unfold Running Tables.swapSlots
  simp only [Nat.zero_lt_succ, ↓reduceIte, update_of_ne notA,
    update_of_ne notB, ne_eq, Tables.renameNext_eq_neg_one_iff]
  exact running

end PrimaryThreadCtx

namespace Tables

variable {tables : Tables} {tid : Tid} {pos : Nat}

/-- What `tl_finish_crt` does to the thread's own entry. -/
theorem tlFinishCrt_primTable (inRange : pos ≤ maxCrtPerThread) :
    (tables.tlFinishCrt tid pos).primTable tid =
      (tables.primTable tid).finishedAt pos := by
  by_cases free : (tables.primTable tid).idxList pos = -1
  · rw [tlFinishCrt_of_free tables tid inRange free, updatePrim_self]
    have sameList :
        update (tables.primTable tid).idxList pos (-1) =
          (tables.primTable tid).idxList := by
      rw [← free, update_eq_self]
    simp only [updateYc, finishedAt, sameList]
  · simp [tlFinishCrt, tlGetCrtIdxAt_of_le _ inRange, free, updateYc,
      tlSetCrtIdAt, finishedAt]

theorem afterReturn_primTable (inRange : pos ≤ maxCrtPerThread) :
    (tables.afterReturn tid pos).primTable tid =
      ((tables.primTable tid).finishedAt pos).tlUpdateNextMap := by
  rw [afterReturn, updatePrim_self, tlFinishCrt_primTable inRange]

/-- Packing does not touch the count and the mark of a theft. -/
theorem packAt_fields (tables : Tables) (tid : Tid) (pos : Nat) :
    ((tables.packAt tid pos).primTable tid).scavNum =
        (tables.primTable tid).scavNum ∧
      ((tables.packAt tid pos).primTable tid).reallocated =
        (tables.primTable tid).reallocated := by
  simp only [packAt]
  split
  · split
    · rw [tlSwapCrts_primTable, updatePrim_self]
      exact ⟨rfl, rfl⟩
    · exact ⟨rfl, rfl⟩
  · exact ⟨rfl, rfl⟩

/-- One iteration of packing keeps what the phase says of the links. -/
theorem packAt_links
    (isPos : ScavPos pos)
    (links : (tables.primTable tid).PhaseLinks (.packing pos)) :
    ((tables.packAt tid pos).primTable tid).PhaseLinks
      (.packing (pos + 1)) := by
  obtain ⟨running, scavLinks, packed, someFree⟩ := links
  have packedAfter := packAt_packedBelow tid isPos packed
  rcases tables.packAt_cases tid isPos with
    ⟨unchanged, _⟩ | ⟨nextPos, swaps, free, later, inRange, held, _⟩
  · rw [unchanged] at packedAfter ⊢
    exact ⟨running, scavLinks, packedAfter, someFree⟩
  · have isNext : ScavPos nextPos := ⟨by omega, inRange⟩
    have swapped := swapSlots_links scavLinks isPos isNext free held
    rw [swaps, tlSwapCrts_primTable, updatePrim_self] at packedAfter ⊢
    exact ⟨swapSlots_running isPos isNext running, swapped.1, packedAfter,
      nextPos, isNext, swapped.2⟩

/-- What hosting a scavenger does to the host's links. -/
theorem hostScav_primTable
    (tables : Tables) (target : Tid) (idx : Int) (pos : Nat) :
    let ctx := tables.primTable target
    let after := (tables.hostScav target idx pos).primTable target
    after.idxList = update ctx.idxList pos idx ∧
      (∀ query, query ≠ pos → after.ycs query = ctx.ycs query) ∧
      (after.ycs pos).normalNext = 0 ∧
      after.reallocated = ctx.reallocated ∧
      after.scavNum = ctx.scavNum := by
  simp only [hostScav, updateScav_primTable, setScavSymbol]
  split
  · refine ⟨by simp [updateYc, tlSetCrtIdAt], ?_,
      by simp [updateYc, tlSetCrtIdAt], by simp [updateYc, tlSetCrtIdAt],
      by simp [updateYc, tlSetCrtIdAt]⟩
    intro query differs
    simp [updateYc, tlSetCrtIdAt, differs]
  · split
    · refine ⟨by simp [updateYc, tlSetCrtIdAt], ?_,
        by simp [updateYc, tlSetCrtIdAt],
        by simp [updateYc, tlSetCrtIdAt],
        by simp [updateYc, tlSetCrtIdAt]⟩
      intro query differs
      simp [updateYc, tlSetCrtIdAt, differs]
    · refine ⟨by simp [updateYc, tlSetCrtIdAt], ?_,
        by simp [updateYc, tlSetCrtIdAt],
        by simp [updateYc, tlSetCrtIdAt],
        by simp [updateYc, tlSetCrtIdAt]⟩
      intro query differs
      simp [updateYc, tlSetCrtIdAt, differs]

/--
What the locked section needs of, and keeps for, the links of the threads that
are asked for.
-/
structure LockLinks (asked : Tid → Prop) (target : Tid)
    (tables : Tables) : Prop where
  taker :
    asked target →
      (tables.primTable target).ScavLinks ∧
        ∃ hosted, Compact (tables.primTable target).idxList hosted
  donors :
    ∀ tid, asked tid → (tables.primTable tid).reallocatable = true →
      (tables.primTable tid).PhaseLinks .blocked

/-- What the locked section leaves of the entries it works on. -/
structure LockFrame (target : Tid) (before after : Tables) : Prop where
  reallocated :
    (after.primTable target).reallocated =
      (before.primTable target).reallocated
  running :
    (before.primTable target).Running → (after.primTable target).Running
  scavNum :
    ∀ tid,
      (after.primTable tid).scavNum = (before.primTable tid).scavNum

theorem LockFrame.trans
    {target : Tid} {first second third : Tables}
    (earlier : LockFrame target first second)
    (later : LockFrame target second third) :
    LockFrame target first third where
  reallocated := later.reallocated.trans earlier.reallocated
  running running := later.running (earlier.running running)
  scavNum tid := (later.scavNum tid).trans (earlier.scavNum tid)

theorem LockFrame.refl (target : Tid) (tables : Tables) :
    LockFrame target tables tables :=
  ⟨rfl, id, fun _ => rfl⟩

/-- A robbed thread's last link dangles. -/
theorem donorAfter_links
    {ctx : PrimaryThreadCtx} {fromPos : Nat}
    (isLast : lastOccupied ctx.idxList = some fromPos)
    (links : ctx.PhaseLinks .blocked) :
    (donorAfter ctx fromPos).PhaseLinks .blocked := by
  obtain ⟨running, scavLinks, hosted, compact, ring⟩ := links
  obtain ⟨rfl, some⟩ := compact.eq_of_lastOccupied isLast
  obtain ⟨donated, rfl⟩ :=
    Nat.exists_eq_add_one_of_ne_zero (Nat.ne_of_gt some)
  have linked : ctx.LinkedBelow (donated + 1) := by
    rcases ring with ⟨_, _, chained⟩ | ⟨_, dangling⟩
    · exact chained.1
    · exact dangling.1
  have special :
      ∀ query, ((donorAfter ctx (donated + 1)).ycs query).specialNext =
        (ctx.ycs query).specialNext := by
    intro query
    by_cases here : query = donated + 1
    · simp [donorAfter, here]
    · simp [donorAfter, here]
  refine ⟨?_, ?_, donated, compact.pop, .inr ⟨rfl, ?_, ?_⟩⟩
  · simpa [Running, donorAfter] using running
  · rintro query ⟨isQuery, held⟩
    by_cases here : query = donated + 1
    · simp [donorAfter, here] at held
    · simp only [donorAfter, update_of_ne here] at held ⊢
      exact scavLinks query ⟨isQuery, held⟩
  · intro query lower below
    rw [special]
    exact linked query lower (by omega)
  · intro some
    rw [special]
    exact linked donated some (Nat.lt_succ_self _)

section LockedSteps

variable {asked : Tid → Prop} {target : Tid} {before after : Tables}
  (notFlagged : (before.primTable target).reallocatable = false)
  (linked : LockLinks asked target before)

include notFlagged in
/-- The taker is not among the donors. -/
theorem ne_target_of_flagged
    {tid : Tid} (flagged : (before.primTable tid).reallocatable = true) :
    tid ≠ target := by
  rintro rfl
  rw [notFlagged] at flagged
  cases flagged

include linked

include notFlagged in
theorem MoveStep.links
    {idx : Int} (taken : MoveStep target idx before after) :
    LockLinks asked target after ∧ LockFrame target before after := by
  cases taken with
  | @move source fromPos toPos different flagged _ isLast room =>
      refine ⟨⟨?_, ?_⟩, ?_, ?_, ?_⟩
      · intro isAsked
        obtain ⟨scavLinks, hosted, compact⟩ := linked.taker isAsked
        obtain ⟨rfl, notFull⟩ := compact.eq_of_firstFree room
        have held := (lastOccupied_eq_some_iff.mp isLast).2.1
        refine ⟨?_, hosted + 1,
          moveScav_taker_compact compact notFull held⟩
        rw [moveScav_target]
        rintro query ⟨isQuery, heldQuery⟩
        have notPrimary : query ≠ 0 := by
          have := isQuery.1
          omega
        simp only [takerAfter, update_of_ne notPrimary] at heldQuery ⊢
        by_cases here : query = hosted + 1
        · simp [here]
        · rw [update_of_ne here] at heldQuery ⊢
          exact scavLinks query ⟨isQuery, heldQuery⟩
      · intro tid isAsked tidFlagged
        rw [moveScav_reallocatable different] at tidFlagged
        have notTarget := ne_target_of_flagged notFlagged tidFlagged
        by_cases isSource : tid = source
        · subst tid
          rw [moveScav_source different]
          exact donorAfter_links isLast
            (linked.donors source isAsked flagged)
        · rw [moveScav_other isSource notTarget]
          exact linked.donors tid isAsked tidFlagged
      · rw [moveScav_target]
        rfl
      · intro _
        rw [moveScav_target]
        simp [Running, takerAfter]
      · intro tid
        by_cases isTarget : tid = target
        · subst tid
          rw [moveScav_target]
          rfl
        · by_cases isSource : tid = source
          · subst tid
            rw [moveScav_source different]
            rfl
          · rw [moveScav_other isSource isTarget]

/-- A rollback never changes the list of a donor that is asked for. -/
theorem BackStep.links
    {idx : Int} (taken : BackStep target idx before after) :
    LockLinks asked target after ∧ LockFrame target before after := by
  have sameTarget := taken.other (.inl (rfl : target = target))
  have flags := taken.reallocatable
  cases taken with
  | @back source fromPos toPos _ flagged _ isLast _ free lower below =>
      have notAsked : ¬ asked source := by
        intro isAsked
        obtain ⟨_, _, hosted, compact, _⟩ :=
          linked.donors source isAsked flagged
        obtain ⟨rfl, _⟩ := compact.eq_of_lastOccupied isLast
        exact compact.occupied lower (Nat.le_of_lt below) free
      refine ⟨⟨?_, ?_⟩, ?_, ?_, ?_⟩
      · rw [sameTarget]
        exact linked.taker
      · intro tid isAsked tidFlagged
        have notSource : tid ≠ source := by
          rintro rfl
          exact notAsked isAsked
        rw [flags] at tidFlagged
        rw [putBack, updatePrim_of_ne _ _ notSource]
        exact linked.donors tid isAsked tidFlagged
      · rw [sameTarget]
      · rw [sameTarget]
        exact id
      · intro tid
        by_cases isSource : tid = source
        · rw [isSource, putBack, updatePrim_self]
        · rw [putBack, updatePrim_of_ne _ _ isSource]

include notFlagged in
theorem HostStep.links (taken : HostStep target before after) :
    LockLinks asked target after ∧ LockFrame target before after := by
  cases taken with
  | @host idx pos inTable idle room =>
      obtain ⟨list, others, here, reallocated, scavNum⟩ :=
        hostScav_primTable before target idx pos
      have lower := (firstFree_eq_some_iff.mp room).1.1
      refine ⟨⟨?_, ?_⟩, reallocated, ?_, ?_⟩
      · intro isAsked
        obtain ⟨scavLinks, hosted, compact⟩ := linked.taker isAsked
        obtain ⟨rfl, notFull⟩ := compact.eq_of_firstFree room
        refine ⟨?_, hosted + 1, ?_⟩
        · rintro query ⟨isQuery, held⟩
          by_cases isHere : query = hosted + 1
          · rw [isHere]
            exact here
          · rw [list, update_of_ne isHere] at held
            rw [others query isHere]
            exact scavLinks query ⟨isQuery, held⟩
        · rw [list]
          exact compact.push notFull inTable.ne_sentinel
      · intro tid isAsked flagged
        rw [hostScav_reallocatable] at flagged
        rw [hostScav_other (ne_target_of_flagged notFlagged flagged)]
        exact linked.donors tid isAsked flagged
      · intro running
        unfold Running
        rw [others 0 (by omega)]
        exact running
      · intro tid
        by_cases isTarget : tid = target
        · subst tid
          exact scavNum
        · rw [hostScav_other isTarget]

include notFlagged in
/-- The whole locked section keeps the links. -/
theorem LockedRun.links (run : LockedRun target before after) :
    LockLinks asked target after ∧ LockFrame target before after := by
  induction run with
  | refl =>
      exact ⟨linked, .refl target before⟩
  | @tail middle last earlier taken inductionHypothesis =>
      have notFlaggedNow :
          (middle.primTable target).reallocatable = false := by
        rw [LockedRun.reallocatable earlier, notFlagged]
      obtain ⟨linksNow, frame⟩ := inductionHypothesis
      have next :
          LockLinks asked target last ∧ LockFrame target middle last := by
        cases taken with
        | move moved => exact moved.links notFlaggedNow linksNow
        | back back => exact back.links linksNow
        | host hosted => exact hosted.links notFlaggedNow linksNow
      exact ⟨next.1, frame.trans next.2⟩

end LockedSteps

end Tables

end Msh
