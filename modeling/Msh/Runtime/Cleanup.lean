import Msh.Library.Interference
import Msh.Runtime.YieldRing

namespace Msh

open Function BoundedSearch SlotAssignment Config PrimaryThreadCtx
open Interference

/-!
# Cleaning up a primary thread

`msh_cleanup` and `tl_sched_next_crt` call each other through `setjmp` and
`longjmp`: the cleanup marks the primary as finished by having the scheduler
"return" it, the scheduler then jumps to one scavenger after the other, each
of which returns to the scheduler, and after the last one the scheduler jumps
back into `msh_cleanup`.  The thread's control is made explicit here, for
scavengers that make no blockable call that is robbed.  Other threads take
their own steps in between; they leave the thread's slots and what is hosted
there alone.
-/

namespace Tables

/-- Where control leaves `tl_sched_next_crt` to. -/
inductive SchedExit where
  /-- `longjmp(cleanup_jmpbuf[msh_tid], 0)` -/
  | longjmp
  /-- to the `sp` and `ip` saved at a position -/
  | jump (crtPos : Int)
  deriving DecidableEq, Repr

/-- What a call of `tl_sched_next_crt` does. -/
structure Sched where
  tables : Tables
  /-- How many scavengers its call of `allocate_scav` returned. -/
  allocated : Nat
  exit : SchedExit

/--
`short next = normal_next / sizeof(struct yield_ctx)`.  The size is an
unsigned 64-bit number, so the link is converted to one before the division,
and the quotient is cut off to 16 bits.
-/
def shortNext (normalNext : Int) : Int :=
  (BitVec.ofNat 16
    ((BitVec.ofInt 64 normalNext).toNat / sizeofYieldCtx)).toInt

/-- `tl_sched_next_crt` -/
def tlSchedNextCrt
    (maxScavPerThread : Int) (tables : Tables) (tid : Tid)
    (retCrtPos : Nat) : Sched :=
  let pos := retCrtIdx retCrtPos
  let next := shortNext ((tables.primTable tid).ycs pos).normalNext
  let packed := (tables.afterReturn tid pos).tlPackCrts tid
  let filled :=
    if ((packed.primTable tid).ycs 0).normalNext ≠ -1 then
      let allocated := packed.allocateScav maxScavPerThread tid
      (allocated.1.updatePrim tid (·.tlUpdateNextMap), allocated.2)
    else (packed, 0)
  let ctx := filled.1.primTable tid
  if (ctx.ycs 0).normalNext = -1 then
    -- "primary is finished, we are running cleanup routine"
    if ctx.tlFindUnfinishedCrt = 0 then ⟨filled.1, filled.2, .longjmp⟩
    else ⟨filled.1, filled.2, .jump ctx.tlFindUnfinishedCrt⟩
  else ⟨filled.1, filled.2, .jump next⟩

/-- The entries of `SCAV_TABLE` that are marked as finished in between. -/
def newlyFinished (before after : Tables) : List Int :=
  ((List.range maxActiveCrtNum).filter fun idx : Nat =>
    !(before.scavTable idx).finished &&
      (after.scavTable idx).finished).map (↑)

end Tables

/-- A yield of a coroutine: the link it follows and the context it saves. -/
structure YieldTaken where
  special : Bool
  sp : BitVec 64
  ip : BitVec 64
  deriving DecidableEq, Repr

/-- What a coroutine still does until it returns to the scheduler. -/
structure Coroutine where
  yields : List YieldTaken
  /-- The `crt_pos` with which it then calls `tl_sched_next_crt`. -/
  retCrtPos : Nat
  deriving DecidableEq, Repr

/-- Where a thread in `msh_cleanup` is. -/
inductive CleanupControl where
  /-- After `setjmp` -/
  | find
  /-- Calling `tl_sched_next_crt` -/
  | sched (retCrtPos : Nat)
  /-- Running the coroutine of a position -/
  | run (crtPos : Nat)
  /-- Resumed with the context of no position -/
  | lost
  | returned (err : Int)
  deriving DecidableEq, Repr

/-- Resume the coroutine at a position. -/
def CleanupControl.resume (crtPos : Int) : CleanupControl :=
  if 0 ≤ crtPos then .run crtPos.toNat else .lost

/-- Run the first scavenger that is left, or return to `msh_cleanup`. -/
def CleanupControl.runFirst : List Nat → CleanupControl
  | [] => .find
  | next :: _ => .run next

/-- A thread in `msh_cleanup`, with a record of what it has done there. -/
structure CleanupState where
  tables : Tables
  control : CleanupControl
  coroutines : Nat → Coroutine
  /-- The arguments of its calls of `tl_sched_next_crt`. -/
  calls : List Nat
  /-- The scavengers that it marked as finished. -/
  finished : List Int
  /-- The number of scavengers that it allocated. -/
  allocated : Nat

namespace CleanupState

/-- `msh_cleanup` up to its `setjmp` -/
def mshCleanup
    (skipCleanup : Bool) (tables : Tables) (tid : Tid)
    (coroutines : Nat → Coroutine) : CleanupState :=
  if skipCleanup then ⟨tables, .returned 0, coroutines, [], [], 0⟩
  else
    ⟨tables.updatePrim tid (·.linkToSelf), .find, coroutines, [], [], 0⟩

/-- A yield at a position: save the context and follow a link. -/
def yieldAt
    (state : CleanupState) (tid : Tid) (pos : Nat) (taken : YieldTaken)
    (rest : List YieldTaken) : CleanupState :=
  let yc := (state.tables.primTable tid).ycs pos
  { state with
    tables :=
      state.tables.updatePrim tid fun ctx =>
        ctx.updateYc pos fun yc => { yc with sp := taken.sp, ip := taken.ip }
    control :=
      .resume
        ((if taken.special then yc.specialNext else yc.normalNext) /
          sizeofYieldCtx)
    coroutines :=
      update state.coroutines pos
        { state.coroutines pos with yields := rest } }

/-- The next step of the thread. -/
def step (maxScavPerThread : Int) (tid : Tid) (state : CleanupState) :
    CleanupState :=
  match state.control with
  | .find =>
      if (state.tables.primTable tid).tlFindUnfinishedCrt = 0 then
        { state with
          tables := state.tables.updatePrim tid (·.resetPrimaryNext)
          control := .returned 0 }
      else { state with control := .sched 0 }
  | .sched retCrtPos =>
      let result :=
        state.tables.tlSchedNextCrt maxScavPerThread tid retCrtPos
      { state with
        tables := result.tables
        control :=
          match result.exit with
          | .longjmp => .find
          | .jump crtPos => .resume crtPos
        calls := state.calls ++ [retCrtPos]
        finished :=
          state.finished ++ state.tables.newlyFinished result.tables
        allocated := state.allocated + result.allocated }
  | .run crtPos =>
      match (state.coroutines crtPos).yields with
      | taken :: rest => state.yieldAt tid crtPos taken rest
      | [] =>
          { state with
            control := .sched (state.coroutines crtPos).retCrtPos }
  | .lost => state
  | .returned _ => state

/-- What other threads may do to the tables while the thread cleans up. -/
structure Interferes (tid : Tid) (before after : CleanupState) : Prop where
  onlyTables : after = { before with tables := after.tables }
  ycs :
    (after.tables.primTable tid).ycs = (before.tables.primTable tid).ycs
  idxList :
    (after.tables.primTable tid).idxList =
      (before.tables.primTable tid).idxList
  /-- Nobody takes a mark away, or marks what this thread hosts. -/
  finished :
    ∀ idx, 0 ≤ idx → (before.tables.scavTable idx).finished = true →
      (after.tables.scavTable idx).finished = true
  hosted :
    ∀ pos, ScavPos pos → (before.tables.primTable tid).idxList pos ≠ -1 →
      (after.tables.scavTable
        ((before.tables.primTable tid).idxList pos)).finished =
        (before.tables.scavTable
          ((before.tables.primTable tid).idxList pos)).finished

/--
A step of the thread that touches no other thread's slots or scavengers, and
hosts nothing new.
-/
structure OwnStep (tid : Tid) (before after : CleanupState) : Prop where
  primTable :
    ∀ other, other ≠ tid →
      after.tables.primTable other = before.tables.primTable other
  scavTable :
    ∀ idx,
      (∀ pos, ScavPos pos →
        (before.tables.primTable tid).idxList pos ≠ idx) →
      after.tables.scavTable idx = before.tables.scavTable idx
  shrinks :
    ∀ pos,
      (after.tables.primTable tid).idxList pos = -1 ∨
        (after.tables.primTable tid).idxList pos =
          (before.tables.primTable tid).idxList pos

end CleanupState

namespace PrimaryThreadCtx

variable {ctx : PrimaryThreadCtx} {pos : Nat} {rest : List Nat}

/-- `tl_find_unfinished_crt` returns the first hosted position, or zero. -/
theorem tlFindUnfinishedCrt_eq :
    ctx.tlFindUnfinishedCrt = ctx.hostedPositions.head?.getD 0 := by
  have searched :
      ((List.range' 1 maxCrtPerThread).filter fun pos =>
          ctx.tlGetCrtIdxAt pos ≠ -1) =
        ctx.hostedPositions := by
    refine List.filter_congr ?_
    intro pos member
    rw [List.mem_range'_1] at member
    rw [Tables.tlGetCrtIdxAt_of_le ctx (by omega)]
  rw [tlFindUnfinishedCrt, findUp, ← List.head?_filter, searched]

theorem tlFindUnfinishedCrt_eq_zero_iff :
    ctx.tlFindUnfinishedCrt = 0 ↔ ctx.hostedPositions = [] := by
  rw [tlFindUnfinishedCrt_eq]
  cases listed : ctx.hostedPositions with
  | nil =>
      simp
  | cons first rest =>
      have isFirst : first ∈ ctx.hostedPositions := by
        rw [listed]
        exact List.mem_cons_self
      have isPos := (mem_hostedPositions.mp isFirst).1.1
      simp only [List.head?_cons, Option.getD_some, reduceCtorEq, iff_false]
      omega

/-- Finishing the first of the hosted scavengers leaves the others. -/
theorem finishedAt_hostedPositions
    (listed : ctx.hostedPositions = pos :: rest) :
    (ctx.finishedAt pos).hostedPositions = rest := by
  have nodup := ctx.hostedPositions_nodup
  rw [listed, List.nodup_cons] at nodup
  have filtered :
      (ctx.finishedAt pos).hostedPositions =
        ctx.hostedPositions.filter fun query => query ≠ pos := by
    unfold hostedPositions
    rw [List.filter_filter]
    refine List.filter_congr ?_
    intro query _
    by_cases here : query = pos
    · simp [finishedAt, here]
    · simp [finishedAt, here]
  rw [filtered, listed, List.filter_cons_of_neg (by simp),
    List.filter_eq_self]
  rintro query member
  simp only [decide_eq_true_eq]
  rintro rfl
  exact nodup.1 member

end PrimaryThreadCtx

namespace Tables

variable {tables : Tables} {tid : Tid}

/-- A scheduler call that leaves the primary finished only finishes. -/
theorem tlSchedNextCrt_of_finished
    (maxScavPerThread : Int) {retCrtPos : Nat}
    (inRange : retCrtIdx retCrtPos ≤ maxCrtPerThread)
    (primaryDone :
      (((tables.primTable tid).finishedAt
        (retCrtIdx retCrtPos)).ycs 0).normalNext = -1) :
    tables.tlSchedNextCrt maxScavPerThread tid retCrtPos =
      ⟨tables.tlFinishCrt tid (retCrtIdx retCrtPos), 0,
        if ((tables.primTable tid).finishedAt
          (retCrtIdx retCrtPos)).tlFindUnfinishedCrt = 0 then .longjmp
        else
          .jump ((tables.primTable tid).finishedAt
            (retCrtIdx retCrtPos)).tlFindUnfinishedCrt⟩ := by
  have own := @tlFinishCrt_primTable tables tid _ inRange
  have mapped :
      tables.afterReturn tid (retCrtIdx retCrtPos) =
        tables.tlFinishCrt tid (retCrtIdx retCrtPos) := by
    refine updatePrim_eq_self ?_
    rw [own]
    exact tlUpdateNextMap_finished primaryDone
  have packed :
      (tables.afterReturn tid (retCrtIdx retCrtPos)).tlPackCrts tid =
        tables.tlFinishCrt tid (retCrtIdx retCrtPos) := by
    rw [mapped, tlPackCrts, own, if_pos primaryDone]
  simp only [tlSchedNextCrt, packed, own, primaryDone, ne_eq,
    not_true_eq_false, ↓reduceIte]
  split <;> rfl

/-- Finishing leaves other threads and scavengers hosted elsewhere alone. -/
theorem tlFinishCrt_scavTable
    {pos : Nat} (inRange : pos ≤ maxCrtPerThread) {idx : Int}
    (notHosted :
      (tables.primTable tid).idxList pos ≠ -1 →
        (tables.primTable tid).idxList pos ≠ idx) :
    (tables.tlFinishCrt tid pos).scavTable idx = tables.scavTable idx := by
  by_cases free : (tables.primTable tid).idxList pos = -1
  · rw [tlFinishCrt_of_free tables tid inRange free]
    rfl
  · simp only [tlFinishCrt, tlGetCrtIdxAt_of_le _ inRange, free,
      ↓reduceIte]
    exact updateScav_of_ne _ _ (notHosted free).symm _

theorem newlyFinished_of_same
    {before after : Tables} (same : after.scavTable = before.scavTable) :
    before.newlyFinished after = [] := by
  simp [newlyFinished, same]

/-- Finishing a hosted scavenger marks this one and no other. -/
theorem newlyFinished_tlFinishCrt
    {pos : Nat} {idx : Int} (inTable : ScavIdx idx)
    (held : tables.occupant (tid, pos) = some idx)
    (unfinished : (tables.scavTable idx).finished = false) :
    tables.newlyFinished (tables.tlFinishCrt tid pos) = [idx] := by
  obtain ⟨number, rfl⟩ := Int.eq_ofNat_of_zero_le inTable.1
  have inRange : number < maxActiveCrtNum := Int.ofNat_lt.mp inTable.2
  have change := tlFinishCrt_released tid held
  have only :
      ((List.range maxActiveCrtNum).filter fun other : Nat =>
          !(tables.scavTable other).finished &&
            ((tables.tlFinishCrt tid pos).scavTable other).finished) =
        (List.range maxActiveCrtNum).filter (· = number) := by
    refine List.filter_congr fun other _ => ?_
    rw [change.finished other (Int.natCast_nonneg _)]
    by_cases same : other = number
    · simp [same, unfinished]
    · have differs : (other : Int) ≠ number :=
        fun equal => same (Int.ofNat_inj.mp equal)
      simp [same, differs]
  rw [newlyFinished, only, List.filter_eq,
    List.count_eq_one_of_mem List.nodup_range (List.mem_range.mpr inRange)]
  rfl

end Tables

namespace CleanupState

/--
Each hosted scavenger is linked to itself while it still yields, returns its
position, and is not marked as finished.
-/
structure SelfLinked (tid : Tid) (state : CleanupState) : Prop where
  primarySlot : (state.tables.primTable tid).idxList 0 = -1
  linked :
    ∀ pos ∈ (state.tables.primTable tid).hostedPositions,
      (state.coroutines pos).yields ≠ [] →
      ((state.tables.primTable tid).ycs pos).normalNext =
          pos * sizeofYieldCtx ∧
        ((state.tables.primTable tid).ycs pos).specialNext =
          pos * sizeofYieldCtx
  returns :
    ∀ pos ∈ (state.tables.primTable tid).hostedPositions,
      (state.coroutines pos).retCrtPos = sizeofYieldCtx * pos
  unfinished :
    ∀ pos ∈ (state.tables.primTable tid).hostedPositions,
      Tables.ScavIdx ((state.tables.primTable tid).idxList pos) ∧
        (state.tables.scavTable
          ((state.tables.primTable tid).idxList pos)).finished = false
  once :
    ((state.tables.primTable tid).hostedPositions.map
      (state.tables.primTable tid).idxList).Nodup

/-- Besides, the primary is finished. -/
structure Draining (tid : Tid) (state : CleanupState) : Prop
    extends SelfLinked tid state where
  primaryDone : ((state.tables.primTable tid).ycs 0).normalNext = -1

/-- `after` records what `before` records, in the same slots. -/
structure SameProgress (tid : Tid) (before after : CleanupState) : Prop where
  idxList :
    (after.tables.primTable tid).idxList =
      (before.tables.primTable tid).idxList
  calls : after.calls = before.calls
  finished : after.finished = before.finished
  allocated : after.allocated = before.allocated
  marks :
    ∀ idx, 0 ≤ idx → (before.tables.scavTable idx).finished = true →
      (after.tables.scavTable idx).finished = true

variable {tid : Tid} {state found : CleanupState} {pos : Nat}

theorem SameProgress.trans {middle after : CleanupState}
    (earlier : SameProgress tid state middle)
    (later : SameProgress tid middle after) :
    SameProgress tid state after where
  idxList := later.idxList.trans earlier.idxList
  calls := later.calls.trans earlier.calls
  finished := later.finished.trans earlier.finished
  allocated := later.allocated.trans earlier.allocated
  marks idx nonneg isMarked :=
    later.marks idx nonneg (earlier.marks idx nonneg isMarked)

theorem SameProgress.hostedPositions
    (same : SameProgress tid state found) :
    (found.tables.primTable tid).hostedPositions =
      (state.tables.primTable tid).hostedPositions := by
  unfold PrimaryThreadCtx.hostedPositions
  rw [same.idxList]

theorem Interferes.control (interferes : Interferes tid state found) :
    found.control = state.control := by
  rw [interferes.onlyTables]

theorem Interferes.coroutines (interferes : Interferes tid state found) :
    found.coroutines = state.coroutines := by
  rw [interferes.onlyTables]

theorem Interferes.sameProgress (interferes : Interferes tid state found) :
    SameProgress tid state found where
  idxList := interferes.idxList
  calls := by rw [interferes.onlyTables]
  finished := by rw [interferes.onlyTables]
  allocated := by rw [interferes.onlyTables]
  marks := interferes.finished

theorem SelfLinked.interferes
    (linked : SelfLinked tid state)
    (interferes : Interferes tid state found) :
    SelfLinked tid found where
  primarySlot := by
    rw [interferes.idxList]
    exact linked.primarySlot
  linked := by
    rw [interferes.sameProgress.hostedPositions, interferes.ycs,
      interferes.coroutines]
    exact linked.linked
  returns := by
    rw [interferes.sameProgress.hostedPositions, interferes.coroutines]
    exact linked.returns
  unfinished := by
    rw [interferes.sameProgress.hostedPositions, interferes.idxList]
    intro pos isHosted
    obtain ⟨isPos, held⟩ := mem_hostedPositions.mp isHosted
    rw [interferes.hosted pos isPos held]
    exact linked.unfinished pos isHosted
  once := by
    rw [interferes.sameProgress.hostedPositions, interferes.idxList]
    exact linked.once

theorem Draining.interferes
    (draining : Draining tid state)
    (interferes : Interferes tid state found) :
    Draining tid found where
  toSelfLinked := draining.toSelfLinked.interferes interferes
  primaryDone := by
    rw [interferes.ycs]
    exact draining.primaryDone

/-- Following a link to a position resumes the coroutine there. -/
theorem resume_link (pos : Nat) :
    CleanupControl.resume ((pos * sizeofYieldCtx : Int) / sizeofYieldCtx) =
      .run pos := by
  have divided :
      (pos * sizeofYieldCtx : Int) / sizeofYieldCtx = pos :=
    Int.mul_ediv_cancel _ (by decide)
  rw [divided]
  simp [CleanupControl.resume]

/-- A scavenger that yields during the cleanup is resumed at once. -/
theorem Draining.yieldAt
    (draining : Draining tid state)
    (hosted : pos ∈ (state.tables.primTable tid).hostedPositions)
    {taken : YieldTaken} {rest : List YieldTaken}
    (yields : (state.coroutines pos).yields = taken :: rest) :
    Draining tid (state.yieldAt tid pos taken rest) ∧
      SameProgress tid state (state.yieldAt tid pos taken rest) ∧
      (state.yieldAt tid pos taken rest).control = .run pos ∧
      ((state.yieldAt tid pos taken rest).coroutines pos).yields = rest := by
  have links := draining.linked pos hosted (by simp [yields])
  have sameList :
      ((state.yieldAt tid pos taken rest).tables.primTable tid).idxList =
        (state.tables.primTable tid).idxList := by
    simp [CleanupState.yieldAt, updateYc]
  have progress :
      SameProgress tid state (state.yieldAt tid pos taken rest) :=
    ⟨sameList, rfl, rfl, rfl, fun _ _ => id⟩
  refine ⟨⟨⟨?_, ?_, ?_, ?_, ?_⟩, ?_⟩, progress, ?_, ?_⟩
  · rw [sameList]
    exact draining.primarySlot
  · rw [progress.hostedPositions]
    intro query isHosted
    by_cases here : query = pos
    · subst query
      intro _
      simpa [CleanupState.yieldAt, updateYc] using links
    · simpa [CleanupState.yieldAt, updateYc, here] using
        draining.linked query isHosted
  · rw [progress.hostedPositions]
    intro query isHosted
    have returns := draining.returns query isHosted
    by_cases here : query = pos
    · subst query
      simpa [CleanupState.yieldAt] using returns
    · simpa [CleanupState.yieldAt, here] using returns
  · rw [progress.hostedPositions, sameList]
    exact draining.unfinished
  · rw [progress.hostedPositions, sameList]
    exact draining.once
  · have done := draining.primaryDone
    by_cases here : pos = 0
    · subst pos
      simpa [CleanupState.yieldAt, updateYc] using done
    · simpa [CleanupState.yieldAt, updateYc, Ne.symm here] using done
  · simp only [CleanupState.yieldAt, links.1, links.2, ite_self]
    exact resume_link pos
  · simp [CleanupState.yieldAt]

/-- A scavenger run by the cleanup returns to the scheduler. -/
theorem Draining.returns_to_sched
    (maxScavPerThread : Int)
    (draining : Draining tid state)
    (hosted : pos ∈ (state.tables.primTable tid).hostedPositions)
    (running : state.control = .run pos) :
    Inevitable (Interferes tid) (step maxScavPerThread tid) (OwnStep tid)
      (fun after =>
        Draining tid after ∧ SameProgress tid state after ∧
          after.control = .sched (sizeofYieldCtx * pos)) state := by
  generalize yieldsEq : (state.coroutines pos).yields = yields
  induction yields generalizing state with
  | nil =>
      have stepped (found : CleanupState)
          (interferes : Interferes tid state found) :
          found.step maxScavPerThread tid =
            { found with control := .sched (sizeofYieldCtx * pos) } := by
        simp only [step, interferes.control, running,
          interferes.coroutines, yieldsEq, draining.returns pos hosted]
      refine .step ?_ ?_
      · intro found interferes
        rw [stepped found interferes]
        exact ⟨fun _ _ => rfl, fun _ _ => rfl, fun _ => .inr rfl⟩
      · intro found interferes
        rw [stepped found interferes]
        have after := draining.interferes interferes
        have progress := interferes.sameProgress
        exact .reached
          ⟨⟨⟨after.primarySlot, after.linked, after.returns,
                after.unfinished, after.once⟩, after.primaryDone⟩,
            ⟨progress.idxList, progress.calls, progress.finished,
              progress.allocated, progress.marks⟩, rfl⟩
  | cons taken rest inductionHypothesis =>
      have stepped (found : CleanupState)
          (interferes : Interferes tid state found) :
          found.step maxScavPerThread tid =
            found.yieldAt tid pos taken rest := by
        simp only [step, interferes.control, running,
          interferes.coroutines, yieldsEq]
      refine .step ?_ ?_
      · intro found interferes
        rw [stepped found interferes]
        refine ⟨?_, fun _ _ => rfl, fun _ => .inr ?_⟩
        · intro other different
          simp only [CleanupState.yieldAt]
          exact Tables.updatePrim_of_ne _ _ different _
        · simp [CleanupState.yieldAt, updateYc]
      · intro found interferes
        rw [stepped found interferes]
        have isHosted :
            pos ∈ (found.tables.primTable tid).hostedPositions := by
          rw [interferes.sameProgress.hostedPositions]
          exact hosted
        have foundYields :
            (found.coroutines pos).yields = taken :: rest := by
          rw [interferes.coroutines, yieldsEq]
        obtain ⟨after, progress, resumed, left⟩ :=
          (draining.interferes interferes).yieldAt isHosted foundYields
        have hostedAfter :
            pos ∈
              ((found.yieldAt tid pos taken rest).tables.primTable
                tid).hostedPositions := by
          rw [progress.hostedPositions]
          exact isHosted
        have sameSlots := interferes.sameProgress.trans progress
        refine (inductionHypothesis after hostedAfter resumed left).trans ?_
        rintro final ⟨finalDraining, finalProgress, finalControl⟩
        exact .reached
          ⟨finalDraining, sameSlots.trans finalProgress, finalControl⟩

/-- The step that schedules, when it leaves the primary finished. -/
theorem step_sched
    (maxScavPerThread : Int) {retCrtPos : Nat}
    (scheduled : state.control = .sched retCrtPos)
    (inRange : retCrtIdx retCrtPos ≤ maxCrtPerThread)
    (primaryDone :
      (((state.tables.primTable tid).finishedAt
        (retCrtIdx retCrtPos)).ycs 0).normalNext = -1) :
    state.step maxScavPerThread tid =
      { state with
        tables := state.tables.tlFinishCrt tid (retCrtIdx retCrtPos)
        control :=
          .runFirst
            ((state.tables.primTable tid).finishedAt
              (retCrtIdx retCrtPos)).hostedPositions
        calls := state.calls ++ [retCrtPos]
        finished :=
          state.finished ++
            state.tables.newlyFinished
              (state.tables.tlFinishCrt tid (retCrtIdx retCrtPos))
        allocated := state.allocated } := by
  simp only [step, scheduled,
    Tables.tlSchedNextCrt_of_finished maxScavPerThread inRange primaryDone,
    tlFindUnfinishedCrt_eq_zero_iff]
  cases listed : ((state.tables.primTable tid).finishedAt
      (retCrtIdx retCrtPos)).hostedPositions with
  | nil =>
      simp [CleanupControl.runFirst]
  | cons next rest =>
      simp [tlFindUnfinishedCrt_eq, listed, CleanupControl.resume,
        CleanupControl.runFirst]

/-- That step touches only the thread's own slots and scavengers. -/
theorem ownStep_sched
    (maxScavPerThread : Int) {retCrtPos : Nat}
    (scheduled : state.control = .sched retCrtPos)
    (inRange : retCrtIdx retCrtPos ≤ maxCrtPerThread)
    (primary : (state.tables.primTable tid).idxList 0 = -1)
    (primaryDone :
      (((state.tables.primTable tid).finishedAt
        (retCrtIdx retCrtPos)).ycs 0).normalNext = -1) :
    OwnStep tid state (state.step maxScavPerThread tid) := by
  rw [step_sched maxScavPerThread scheduled inRange primaryDone]
  refine ⟨?_, ?_, ?_⟩
  · exact (Tables.Local.tlFinishCrt state.tables _).other
  · intro idx notHosted
    refine Tables.tlFinishCrt_scavTable inRange ?_
    intro held
    refine notHosted _ ⟨Nat.pos_of_ne_zero ?_, inRange⟩
    intro isPrimary
    rw [isPrimary] at held
    exact held primary
  · intro pos
    rw [Tables.tlFinishCrt_primTable inRange]
    by_cases here : pos = retCrtIdx retCrtPos
    · exact .inl (by simp [finishedAt, here])
    · exact .inr (by simp [finishedAt, here])

theorem retCrtIdx_mul (pos : Nat) :
    retCrtIdx (sizeofYieldCtx * pos) = pos :=
  Nat.mul_div_cancel_left pos (by decide)

/-- What the cleanup has left to do after one more scavenger finished. -/
structure OneFinished (tid : Tid) (pos : Nat) (rest : List Nat)
    (before after : CleanupState) : Prop where
  tables : after.tables = before.tables.tlFinishCrt tid pos
  draining : Draining tid after
  hosted : (after.tables.primTable tid).hostedPositions = rest
  idxList :
    ∀ query ∈ rest,
      (after.tables.primTable tid).idxList query =
        (before.tables.primTable tid).idxList query
  calls : after.calls = before.calls ++ [sizeofYieldCtx * pos]
  finished :
    after.finished =
      before.finished ++ [(before.tables.primTable tid).idxList pos]
  allocated : after.allocated = before.allocated
  control : after.control = .runFirst rest
  marked :
    ∀ idx, 0 ≤ idx →
      (after.tables.scavTable idx).finished =
        if idx = (before.tables.primTable tid).idxList pos then true
        else (before.tables.scavTable idx).finished

/-- The scheduler finishes the scavenger that returned to it. -/
theorem Draining.finishes
    (maxScavPerThread : Int) {rest : List Nat}
    (draining : Draining tid state)
    (listed :
      (state.tables.primTable tid).hostedPositions = pos :: rest)
    (scheduled : state.control = .sched (sizeofYieldCtx * pos)) :
    OneFinished tid pos rest state (state.step maxScavPerThread tid) ∧
      OwnStep tid state (state.step maxScavPerThread tid) := by
  have isHosted : pos ∈ (state.tables.primTable tid).hostedPositions := by
    rw [listed]
    exact List.mem_cons_self
  obtain ⟨isPos, held⟩ := mem_hostedPositions.mp isHosted
  have notPrimary : (0 : Nat) ≠ pos := by
    have := isPos.1
    omega
  have inRange : retCrtIdx (sizeofYieldCtx * pos) ≤ maxCrtPerThread := by
    rw [retCrtIdx_mul]
    exact isPos.2
  have primaryDone :
      (((state.tables.primTable tid).finishedAt
        (retCrtIdx (sizeofYieldCtx * pos))).ycs 0).normalNext = -1 := by
    rw [retCrtIdx_mul]
    simp only [finishedAt, update_of_ne notPrimary]
    exact draining.primaryDone
  refine ⟨?_, ownStep_sched maxScavPerThread scheduled inRange
    draining.primarySlot primaryDone⟩
  rw [step_sched maxScavPerThread scheduled inRange primaryDone]
  have left := finishedAt_hostedPositions listed
  have own :=
    @Tables.tlFinishCrt_primTable state.tables tid pos isPos.2
  have stays {query : Nat} (isLeft : query ∈ rest) :
      query ≠ pos ∧
        query ∈ (state.tables.primTable tid).hostedPositions := by
    have nodup := (state.tables.primTable tid).hostedPositions_nodup
    rw [listed, List.nodup_cons] at nodup
    refine ⟨?_, ?_⟩
    · rintro rfl
      exact nodup.1 isLeft
    · rw [listed]
      exact List.mem_cons_of_mem _ isLeft
  have heldAt :
      state.tables.occupant (tid, pos) =
        some ((state.tables.primTable tid).idxList pos) :=
    Tables.occupant_eq_some_iff.mpr ⟨isPos, rfl, held⟩
  have change := Tables.tlFinishCrt_released tid heldAt
  obtain ⟨inTable, unfinished⟩ := draining.unfinished pos isHosted
  have once := draining.once
  rw [listed, List.map_cons, List.nodup_cons] at once
  have apart {query : Nat} (isLeft : query ∈ rest) :
      (state.tables.primTable tid).idxList query ≠
        (state.tables.primTable tid).idxList pos := by
    intro same
    exact once.1 (same ▸ List.mem_map_of_mem isLeft)
  have sameList {query : Nat} (isLeft : query ∈ rest) :
      ((state.tables.primTable tid).finishedAt pos).idxList query =
        (state.tables.primTable tid).idxList query := by
    simp only [finishedAt, update_of_ne (stays isLeft).1]
  simp only [retCrtIdx_mul] at primaryDone ⊢
  refine ⟨rfl, ⟨⟨?_, ?_, ?_, ?_, ?_⟩, ?_⟩, ?_, ?_, rfl, ?_, rfl, ?_, ?_⟩
  · rw [own]
    simp only [finishedAt, update_of_ne notPrimary]
    exact draining.primarySlot
  · rw [own, left]
    intro query isLeft
    obtain ⟨different, wasHosted⟩ := stays isLeft
    simp only [finishedAt, update_of_ne different]
    exact draining.linked query wasHosted
  · rw [own, left]
    intro query isLeft
    exact draining.returns query (stays isLeft).2
  · rw [own, left]
    intro query isLeft
    obtain ⟨isIdx, notMarked⟩ := draining.unfinished query (stays isLeft).2
    rw [sameList isLeft, change.finished _ isIdx.1, if_neg (apart isLeft)]
    exact ⟨isIdx, notMarked⟩
  · rw [own, left, List.map_congr_left fun _ isLeft => sameList isLeft]
    exact once.2
  · rw [own]
    exact primaryDone
  · rw [own, left]
  · intro query isLeft
    rw [own, sameList isLeft]
  · rw [Tables.newlyFinished_tlFinishCrt inTable heldAt unfinished]
  · rw [left]
  · exact change.finished

/-- What a whole drain has done. -/
structure Drained (tid : Tid) (positions : List Nat)
    (before after : CleanupState) : Prop where
  draining : Draining tid after
  hosted : (after.tables.primTable tid).hostedPositions = []
  calls :
    after.calls = before.calls ++ positions.map (sizeofYieldCtx * ·)
  finished :
    after.finished =
      before.finished ++
        positions.map (before.tables.primTable tid).idxList
  allocated : after.allocated = before.allocated
  control : after.control = .find
  marked :
    ∀ pos ∈ positions,
      (after.tables.scavTable
        ((before.tables.primTable tid).idxList pos)).finished = true
  marks :
    ∀ idx, 0 ≤ idx → (before.tables.scavTable idx).finished = true →
      (after.tables.scavTable idx).finished = true

/-- A drain that starts with one more scavenger finishing. -/
theorem OneFinished.drained
    {rest : List Nat} {middle after : CleanupState}
    (inTable : Tables.ScavIdx ((state.tables.primTable tid).idxList pos))
    (one : OneFinished tid pos rest state middle)
    (drained : Drained tid rest middle after) :
    Drained tid (pos :: rest) state after where
  draining := drained.draining
  hosted := drained.hosted
  calls := by
    rw [drained.calls, one.calls, List.map_cons, List.append_assoc]
    rfl
  finished := by
    rw [drained.finished, one.finished, List.map_cons, List.append_assoc,
      List.map_congr_left one.idxList]
    rfl
  allocated := drained.allocated.trans one.allocated
  control := drained.control
  marked := by
    refine List.forall_mem_cons.mpr ⟨?_, ?_⟩
    · refine drained.marks _ inTable.1 ?_
      rw [one.marked _ inTable.1, if_pos rfl]
    · intro query isLeft
      rw [← one.idxList query isLeft]
      exact drained.marked query isLeft
  marks := by
    intro idx nonneg isMarked
    refine drained.marks idx nonneg ?_
    rw [one.marked idx nonneg, isMarked, ite_self]

theorem SameProgress.drained
    {positions : List Nat} {middle after : CleanupState}
    (same : SameProgress tid state middle)
    (drained : Drained tid positions middle after) :
    Drained tid positions state after where
  draining := drained.draining
  hosted := drained.hosted
  calls := by rw [drained.calls, same.calls]
  finished := by rw [drained.finished, same.finished, same.idxList]
  allocated := drained.allocated.trans same.allocated
  control := drained.control
  marked := by
    rw [← same.idxList]
    exact drained.marked
  marks idx nonneg isMarked :=
    drained.marks idx nonneg (same.marks idx nonneg isMarked)

/-- One scavenger after the other finishes, and control comes back. -/
theorem Draining.drains
    (maxScavPerThread : Int) {positions : List Nat}
    (draining : Draining tid state)
    (listed : (state.tables.primTable tid).hostedPositions = positions)
    (running : state.control = .runFirst positions) :
    Inevitable (Interferes tid) (step maxScavPerThread tid) (OwnStep tid)
      (Drained tid positions state) state := by
  induction positions generalizing state with
  | nil =>
      exact .reached
        ⟨draining, listed, by simp, by simp, rfl, running, by simp,
          fun _ _ => id⟩
  | cons pos rest inductionHypothesis =>
      have isHosted : pos ∈ (state.tables.primTable tid).hostedPositions := by
        rw [listed]
        exact List.mem_cons_self
      -- the scavenger runs until it returns to the scheduler
      refine (draining.returns_to_sched maxScavPerThread isHosted
        running).trans ?_
      rintro returned ⟨stillDraining, same, scheduled⟩
      have one (found : CleanupState)
          (interferes : Interferes tid returned found) :
          OneFinished tid pos rest found (found.step maxScavPerThread tid) ∧
            OwnStep tid found (found.step maxScavPerThread tid) := by
        refine (stillDraining.interferes interferes).finishes
          maxScavPerThread ?_ (interferes.control.trans scheduled)
        rw [interferes.sameProgress.hostedPositions, same.hostedPositions]
        exact listed
      refine .step (fun found interferes => (one found interferes).2) ?_
      intro found interferes
      have finished := (one found interferes).1
      have sameFound := same.trans interferes.sameProgress
      refine (inductionHypothesis finished.draining finished.hosted
        finished.control).trans ?_
      intro after drained
      have inTable :
          Tables.ScavIdx ((found.tables.primTable tid).idxList pos) := by
        rw [sameFound.idxList]
        exact (draining.unfinished pos isHosted).1
      exact .reached
        (sameFound.drained (finished.drained inTable drained))

end CleanupState

namespace Config

/-- The thread that takes a step. -/
def actor : Action → Tid
  | .allocCtx tid | .schedNextCrt tid _ | .packCrts tid | .allocateScav tid
  | .initScavs tid | .enterBlockableCall tid | .exitBlockableCall tid
  | .cleanup tid | .countLoop tid _ _ _ => tid

/-- A thread outside a blockable call keeps its entry in others' steps. -/
theorem StepCase.other
    {maxScavPerThread : Int} {config next : Config} {action : Action}
    (taken : StepCase maxScavPerThread config action next)
    (inv : config.Inv) {tid : Tid} (different : tid ≠ actor action)
    (notBlocked : config.phase tid ≠ .blocked) :
    next.tables.primTable tid = config.tables.primTable tid := by
  cases taken with
  | allocCtx =>
      rfl
  | finishLast =>
      exact
        ((Tables.Local.afterReturn config.tables _).trans
          (.updatePrim _ rfl)).other tid different
  | finishNext =>
      exact (Tables.Local.afterReturn config.tables _).other tid different
  | finish =>
      exact (Tables.Local.afterReturn config.tables _).other tid different
  | pack =>
      exact (Tables.Local.packAt config.tables _).other tid different
  | packed =>
      exact (Tables.Local.setSpecialNext config.tables).other tid different
  | allocateNone =>
      exact Tables.resumeWith_other _ _ _ different
  | @allocateLocked actor resume counts isAllocating =>
      exact Tables.LockedRun.other
        (Tables.allocateScavLocked_run
          (inv.notFlagged_of_allocating isAllocating) counts)
        different (inv.notFlagged notBlocked)
  | initScavs =>
      exact (Tables.resumeWith_other _ _ _ different).trans
        ((Tables.Local.initNewScavs config.tables).other tid different)
  | @enterBlockableCall actor =>
      simp only [goto]
      exact Tables.updatePrim_of_ne config.tables actor different _
  | @exitSlow actor =>
      simp only [goto]
      exact Tables.updatePrim_of_ne config.tables actor different _
  | @exitFast actor =>
      simp only [goto]
      exact Tables.updatePrim_of_ne config.tables actor different _
  | cleanupNone =>
      exact
        (Tables.Local.trans (.updatePrim config.tables rfl)
          (.updatePrim _ rfl)).other tid different
  | cleanupNext =>
      exact
        (Tables.Local.trans (.updatePrim config.tables rfl)
          (.tlFinishCrt _ _)).other tid different
  | @countLoop actor =>
      simp only [goto]
      exact Tables.updatePrim_of_ne config.tables actor different _

end Config

namespace CleanupState

/-- Other threads' steps are interference while a thread cleans up. -/
theorem Interferes.of_step
    {maxScavPerThread : Int} {pool : List PoolEntry}
    {config next : Config} {action : Action}
    (reachable : Config.Reachable maxScavPerThread pool config)
    (taken : Config.Step maxScavPerThread config action next)
    {tid : Tid} (different : tid ≠ actor action)
    (notBlocked : config.phase tid ≠ .blocked)
    {state : CleanupState} (sameTables : state.tables = config.tables) :
    Interferes tid state { state with tables := next.tables } := by
  have inv := Reachable.inv reachable
  have nextInv := (Step.cases taken).inv inv
  have same := (Step.cases taken).other inv different notBlocked
  refine ⟨rfl, ?_, ?_, ?_, ?_⟩
  · rw [sameTables, same]
  · rw [sameTables, same]
  · rw [sameTables]
    exact fun idx => ((Step.cases taken).slotRun inv).finished
  · rw [sameTables]
    intro pos isPos held
    have heldBefore :=
      Tables.occupant_eq_some_iff.mpr ⟨isPos, rfl, held⟩
    have heldAfter :
        next.tables.occupant (tid, pos) =
          some ((config.tables.primTable tid).idxList pos) := by
      rw [Tables.occupant, same]
      exact heldBefore
    exact (nextInv.hosting.unfinished heldAfter).trans
      (inv.hosting.unfinished heldBefore).symm

/-- The first calls of a cleanup are one step of the machine. -/
theorem mshCleanup_refines
    (maxScavPerThread : Int) {config : Config} {tid : Tid}
    (isApp : config.phase tid = .app)
    (hosting : (config.tables.primTable tid).hostedPositions ≠ [])
    (coroutines : Nat → Coroutine) :
    Config.Step maxScavPerThread config (.cleanup tid)
      ((config.goto tid
        (((mshCleanup false config.tables tid coroutines).step
          maxScavPerThread tid).step maxScavPerThread tid).tables
        .app).setCleanup tid true) := by
  have notNone :
      ((config.tables.updatePrim tid (·.linkToSelf)).primTable
        tid).tlFindUnfinishedCrt ≠ 0 := by
    rw [Ne, tlFindUnfinishedCrt_eq_zero_iff]
    simpa [linkToSelf, PrimaryThreadCtx.hostedPositions] using hosting
  have finds :
      (mshCleanup false config.tables tid coroutines).step
          maxScavPerThread tid =
        ⟨config.tables.updatePrim tid (·.linkToSelf), .sched 0, coroutines,
          [], [], 0⟩ := by
    simp only [mshCleanup, step, Bool.false_eq_true, ↓reduceIte,
      if_neg notNone]
  have primaryDone :
      ((((config.tables.updatePrim tid (·.linkToSelf)).primTable
        tid).finishedAt (retCrtIdx 0)).ycs 0).normalNext = -1 := by
    simp [retCrtIdx, finishedAt]
  rw [finds, step_sched maxScavPerThread rfl (Nat.zero_le _) primaryDone]
  simp only [Config.Step, Config.step?, isApp, if_neg notNone]
  rfl

/-- Each later call is one, the last together with the return. -/
theorem sched_refines
    (maxScavPerThread : Int) {config : Config} {tid : Tid} {pos : Nat}
    {rest : List Nat} {state : CleanupState}
    (isApp : config.phase tid = .app)
    (isCleanup : config.inCleanup tid = true)
    (sameTables : state.tables = config.tables)
    (draining : Draining tid state)
    (listed :
      (state.tables.primTable tid).hostedPositions = pos :: rest)
    (scheduled : state.control = .sched (sizeofYieldCtx * pos)) :
    Config.Step maxScavPerThread config
      (.schedNextCrt tid (sizeofYieldCtx * pos))
      (if rest = [] then
        (config.goto tid
          ((state.step maxScavPerThread tid).step maxScavPerThread
            tid).tables .app).setCleanup tid false
      else
        config.goto tid (state.step maxScavPerThread tid).tables .app) := by
  have finished := (draining.finishes maxScavPerThread listed scheduled).1
  have isHosted : pos ∈ (state.tables.primTable tid).hostedPositions := by
    rw [listed]
    exact List.mem_cons_self
  have inRange : pos ≤ maxCrtPerThread :=
    (mem_hostedPositions.mp isHosted).1.2
  generalize state.step maxScavPerThread tid = after at finished ⊢
  have primaryDone := finished.draining.primaryDone
  have left := finished.hosted
  have control := finished.control
  rw [finished.tables, sameTables] at primaryDone left
  have mapped :
      (config.tables.tlFinishCrt tid pos).updatePrim tid
          (·.tlUpdateNextMap) =
        config.tables.tlFinishCrt tid pos :=
    Tables.updatePrim_eq_self (tlUpdateNextMap_finished primaryDone)
  simp only [Config.Step, Config.step?, isApp, isCleanup, retCrtIdx_mul,
    inRange, and_self, ↓reduceIte, mapped, primaryDone,
    tlFindUnfinishedCrt_eq_zero_iff, left]
  by_cases noneLeft : rest = []
  · rw [noneLeft] at control left
    have returns :
        (after.step maxScavPerThread tid).tables =
          (config.tables.tlFinishCrt tid pos).updatePrim tid
            (·.resetPrimaryNext) := by
      simp only [step, control, CleanupControl.runFirst, finished.tables,
        sameTables, tlFindUnfinishedCrt_eq_zero_iff, left, ↓reduceIte]
    rw [if_pos noneLeft, if_pos noneLeft, returns]
  · rw [if_neg noneLeft, if_neg noneLeft, finished.tables, sameTables]

/-- What `msh_cleanup` has done once it has returned. -/
structure CleanedUp (tid : Tid) (before : PrimaryThreadCtx)
    (after : CleanupState) : Prop where
  returned : after.control = .returned 0
  /-- One call for the primary, and one for each scavenger in turn. -/
  calls :
    after.calls = 0 :: before.hostedPositions.map (sizeofYieldCtx * ·)
  /-- Each scavenger is marked once, in the order of the positions. -/
  finished :
    after.finished = before.hostedPositions.map before.idxList
  once : after.finished.Nodup
  marked :
    ∀ pos ∈ before.hostedPositions,
      (after.tables.scavTable (before.idxList pos)).finished = true
  free :
    ∀ pos, ScavPos pos →
      (after.tables.primTable tid).idxList pos = -1
  primaryNext : ((after.tables.primTable tid).ycs 0).normalNext = 0
  allocated : after.allocated = 0

/-- No scavenger is hosted at two positions. -/
theorem hostedPositions_map_nodup
    {tables : Tables} (hosting : tables.Hosting) (tid : Tid) :
    ((tables.primTable tid).hostedPositions.map
      (tables.primTable tid).idxList).Nodup := by
  refine List.Nodup.map_on ?_ hostedPositions_nodup
  intro first inFirst second inSecond same
  obtain ⟨isFirst, held⟩ := mem_hostedPositions.mp inFirst
  obtain ⟨isSecond, _⟩ := mem_hostedPositions.mp inSecond
  have atFirst :=
    Tables.occupant_eq_some_iff.mpr ⟨isFirst, rfl, held⟩
  have atSecond :
      tables.occupant (tid, second) =
        some ((tables.primTable tid).idxList first) :=
    Tables.occupant_eq_some_iff.mpr ⟨isSecond, same.symm, held⟩
  exact congrArg Prod.snd (hosting.assignment.slotUnique atFirst atSecond)

/-- The loop at the start of `msh_cleanup` links what is hosted to itself. -/
theorem mshCleanup_selfLinked
    {tables : Tables} (hosting : tables.Hosting)
    {coroutines : Nat → Coroutine}
    (linked :
      ∀ pos ∈ (tables.primTable tid).hostedPositions,
        (coroutines pos).yields ≠ [] →
          ((tables.primTable tid).ycs pos).normalNext ≠ -1)
    (returns :
      ∀ pos ∈ (tables.primTable tid).hostedPositions,
        (coroutines pos).retCrtPos = sizeofYieldCtx * pos) :
    SelfLinked tid (mshCleanup false tables tid coroutines) := by
  have sameList :
      ((mshCleanup false tables tid coroutines).tables.primTable
          tid).idxList =
        (tables.primTable tid).idxList := by
    simp [mshCleanup, linkToSelf]
  have sameHosted :
      ((mshCleanup false tables tid coroutines).tables.primTable
          tid).hostedPositions =
        (tables.primTable tid).hostedPositions :=
    hostedPositions_congr fun _ _ => by rw [sameList]
  refine ⟨?_, ?_, ?_, ?_, ?_⟩
  · rw [sameList]
    exact hosting.primarySlot tid
  · rw [sameHosted]
    intro pos isHosted yields
    have isPos := (mem_hostedPositions.mp isHosted).1
    have inLoop : 1 ≤ pos ∧ pos < maxCrtPerThread + 1 ∧
        ((tables.primTable tid).ycs pos).normalNext ≠ -1 :=
      ⟨isPos.1, Nat.lt_succ_of_le isPos.2, linked pos isHosted yields⟩
    simp only [mshCleanup, linkToSelf, Tables.updatePrim_self,
      Bool.false_eq_true, if_false, if_pos inLoop, and_self]
  · rw [sameHosted]
    exact returns
  · rw [sameHosted, sameList]
    intro pos isHosted
    obtain ⟨isPos, held⟩ := mem_hostedPositions.mp isHosted
    have heldAt :=
      Tables.occupant_eq_some_iff.mpr ⟨isPos, rfl, held⟩
    exact ⟨hosting.inTable heldAt, hosting.unfinished heldAt⟩
  · rw [sameHosted, sameList]
    exact hostedPositions_map_nodup hosting tid

/-- The first call of the scheduler finishes the primary and nothing else. -/
theorem SelfLinked.finishesPrimary
    (maxScavPerThread : Int)
    (linked : SelfLinked tid state)
    (scheduled : state.control = .sched 0) :
    (Draining tid (state.step maxScavPerThread tid) ∧
      SameProgress tid { state with calls := state.calls ++ [0] }
        (state.step maxScavPerThread tid) ∧
      (state.step maxScavPerThread tid).control =
        .runFirst (state.tables.primTable tid).hostedPositions) ∧
      OwnStep tid state (state.step maxScavPerThread tid) := by
  have isZero : retCrtIdx 0 = 0 := rfl
  have inRange : retCrtIdx 0 ≤ maxCrtPerThread := Nat.zero_le _
  have primaryDone :
      (((state.tables.primTable tid).finishedAt
        (retCrtIdx 0)).ycs 0).normalNext = -1 := by
    simp [isZero, finishedAt]
  refine ⟨?_, ownStep_sched maxScavPerThread scheduled inRange
    linked.primarySlot primaryDone⟩
  rw [step_sched maxScavPerThread scheduled inRange primaryDone]
  have own :=
    @Tables.tlFinishCrt_primTable state.tables tid 0 (Nat.zero_le _)
  have sameList :
      ((state.tables.primTable tid).finishedAt 0).idxList =
        (state.tables.primTable tid).idxList := by
    simp only [finishedAt]
    rw [← linked.primarySlot, update_eq_self]
  have sameHosted :
      ((state.tables.primTable tid).finishedAt 0).hostedPositions =
        (state.tables.primTable tid).hostedPositions := by
    unfold PrimaryThreadCtx.hostedPositions
    rw [sameList]
  have sameScavs :
      (state.tables.tlFinishCrt tid 0).scavTable = state.tables.scavTable := by
    rw [Tables.tlFinishCrt_of_free _ tid (Nat.zero_le _) linked.primarySlot]
    rfl
  simp only [isZero] at primaryDone ⊢
  refine ⟨⟨⟨?_, ?_, ?_, ?_, ?_⟩, ?_⟩, ⟨?_, rfl, ?_, rfl, ?_⟩, ?_⟩
  · rw [own, sameList]
    exact linked.primarySlot
  · rw [own, sameHosted]
    intro pos isHosted
    have notPrimary : pos ≠ 0 := by
      have := (mem_hostedPositions.mp isHosted).1.1
      omega
    simp only [finishedAt, update_of_ne notPrimary]
    exact linked.linked pos isHosted
  · rw [own, sameHosted]
    exact linked.returns
  · rw [own, sameHosted, sameList, sameScavs]
    exact linked.unfinished
  · rw [own, sameHosted, sameList]
    exact linked.once
  · rw [own]
    exact primaryDone
  · rw [own, sameList]
  · rw [Tables.newlyFinished_of_same sameScavs, List.append_nil]
  · rw [sameScavs]
    exact fun _ _ => id
  · rw [sameHosted]

/-- The part of the cleanup before the first scavenger runs. -/
theorem SelfLinked.startsDraining
    (maxScavPerThread : Int)
    (linked : SelfLinked tid state)
    (hosting : (state.tables.primTable tid).hostedPositions ≠ [])
    (finding : state.control = .find) :
    Inevitable (Interferes tid) (step maxScavPerThread tid) (OwnStep tid)
      (fun after =>
        Draining tid after ∧
          SameProgress tid { state with calls := state.calls ++ [0] } after ∧
          after.control =
            .runFirst (state.tables.primTable tid).hostedPositions)
      state := by
  have finds (found : CleanupState)
      (interferes : Interferes tid state found) :
      found.step maxScavPerThread tid = { found with control := .sched 0 } := by
    have notNone :
        (found.tables.primTable tid).tlFindUnfinishedCrt ≠ 0 := by
      rw [Ne, tlFindUnfinishedCrt_eq_zero_iff,
        interferes.sameProgress.hostedPositions]
      exact hosting
    simp only [step, interferes.control, finding, if_neg notNone]
  refine .step ?_ ?_
  · intro found interferes
    rw [finds found interferes]
    exact ⟨fun _ _ => rfl, fun _ _ => rfl, fun _ => .inr rfl⟩
  · intro found interferes
    rw [finds found interferes]
    have after := linked.interferes interferes
    have sameFound := interferes.sameProgress
    have linkedAfter :
        SelfLinked tid { found with control := .sched 0 } :=
      ⟨after.primarySlot, after.linked, after.returns, after.unfinished,
        after.once⟩
    have one (next : CleanupState)
        (nextInterferes :
          Interferes tid { found with control := .sched 0 } next) :=
      (linkedAfter.interferes nextInterferes).finishesPrimary
        maxScavPerThread nextInterferes.control
    refine .step (fun next interfered => (one next interfered).2) ?_
    intro next interfered
    obtain ⟨draining, same, control⟩ := (one next interfered).1
    have sameNext := interfered.sameProgress
    refine .reached ⟨draining, ⟨?_, ?_, ?_, ?_, ?_⟩, ?_⟩
    · exact same.idxList.trans (sameNext.idxList.trans sameFound.idxList)
    · rw [same.calls]
      exact congrArg (· ++ [0]) (sameNext.calls.trans sameFound.calls)
    · exact same.finished.trans
        (sameNext.finished.trans sameFound.finished)
    · exact same.allocated.trans
        (sameNext.allocated.trans sameFound.allocated)
    · exact fun idx nonneg isMarked =>
        same.marks idx nonneg
          (sameNext.marks idx nonneg (sameFound.marks idx nonneg isMarked))
    · rw [control, sameNext.hostedPositions]
      exact congrArg CleanupControl.runFirst sameFound.hostedPositions

/-- The part of the cleanup after the last scavenger has finished. -/
theorem Drained.returns
    (maxScavPerThread : Int) {positions : List Nat}
    {after : CleanupState}
    (drained : Drained tid positions state after) :
    Inevitable (Interferes tid) (step maxScavPerThread tid) (OwnStep tid)
      (fun final =>
        final.control = .returned 0 ∧ SameProgress tid after final ∧
          ((final.tables.primTable tid).ycs 0).normalNext = 0) after := by
  have returns (found : CleanupState)
      (interferes : Interferes tid after found) :
      found.step maxScavPerThread tid =
        { found with
          tables := found.tables.updatePrim tid (·.resetPrimaryNext)
          control := .returned 0 } := by
    have noneLeft :
        (found.tables.primTable tid).tlFindUnfinishedCrt = 0 := by
      rw [tlFindUnfinishedCrt_eq_zero_iff,
        interferes.sameProgress.hostedPositions]
      exact drained.hosted
    simp only [step, interferes.control, drained.control, if_pos noneLeft]
  refine .step ?_ ?_
  · intro found interferes
    rw [returns found interferes]
    refine ⟨fun _ different => Tables.updatePrim_of_ne _ _ different _,
      fun _ _ => rfl, fun _ => .inr ?_⟩
    simp [resetPrimaryNext, updateYc]
  · intro found interferes
    rw [returns found interferes]
    have same := interferes.sameProgress
    refine .reached
      ⟨rfl, ⟨?_, same.calls, same.finished, same.allocated, same.marks⟩, ?_⟩
    · simpa [resetPrimaryNext, updateYc] using same.idxList
    · simp [resetPrimaryNext, updateYc]

/-- From the loop of `msh_cleanup` to its return. -/
theorem SelfLinked.runsToCompletion
    (maxScavPerThread : Int)
    (linked : SelfLinked tid state)
    (hosting : (state.tables.primTable tid).hostedPositions ≠ [])
    (finding : state.control = .find) :
    Inevitable (Interferes tid) (step maxScavPerThread tid) (OwnStep tid)
      (fun final =>
        final.control = .returned 0 ∧
          (∃ drained,
            Drained tid (state.tables.primTable tid).hostedPositions
                { state with calls := state.calls ++ [0] } drained ∧
              SameProgress tid drained final) ∧
          ((final.tables.primTable tid).ycs 0).normalNext = 0) state := by
  refine (linked.startsDraining maxScavPerThread hosting finding).trans ?_
  rintro started ⟨draining, same, running⟩
  refine (draining.drains maxScavPerThread same.hostedPositions
    running).trans ?_
  intro after drained
  refine (drained.returns maxScavPerThread).trans ?_
  rintro final ⟨returned, sameFinal, primaryNext⟩
  exact .reached
    ⟨returned, ⟨after, same.drained drained, sameFinal⟩, primaryNext⟩

/-- A thread that hosts nothing new hosts what it hosted at first. -/
theorem hosted_of_ownSteps
    {maxScavPerThread : Int} {left found : Nat → CleanupState} {time : Nat}
    (run :
      Interference.Run (Interferes tid) (step maxScavPerThread tid) state
        left found)
    (steps :
      ∀ earlier, earlier < time →
        OwnStep tid (found earlier) (left (earlier + 1)))
    (pos : Nat) {now : Nat} (before : now ≤ time) :
    ((found now).tables.primTable tid).idxList pos = -1 ∨
      ((found now).tables.primTable tid).idxList pos =
        (state.tables.primTable tid).idxList pos := by
  induction now with
  | zero =>
      rw [(run.interfered 0).idxList, run.starts]
      exact .inr rfl
  | succ now inductionHypothesis =>
      rw [(run.interfered (now + 1)).idxList]
      rcases (steps now before).shrinks pos with free | same
      · exact .inl free
      · rw [same]
        exact inductionHypothesis (Nat.le_of_succ_le before)

/--
`msh_cleanup` of a thread that hosts scavengers returns 0 once it has run every
one of them to its end, whatever the other threads do meanwhile outside the
thread's slots, if each scavenger returns the offset of its position and one
that yields has a link that the cleanup can turn to itself.  Its steps mark
each hosted scavenger once and change no other entry of `SCAV_TABLE`.
-/
theorem mshCleanup_runsToCompletion
    (maxScavPerThread : Int) {tables : Tables} (hosting : tables.Hosting)
    (tid : Tid)
    (hostsOne :
      ∃ pos, ScavPos pos ∧ (tables.primTable tid).idxList pos ≠ -1)
    {coroutines : Nat → Coroutine}
    (returns :
      ∀ pos, ScavPos pos → (tables.primTable tid).idxList pos ≠ -1 →
        (coroutines pos).retCrtPos = sizeofYieldCtx * pos)
    (linked :
      ∀ pos, ScavPos pos → (tables.primTable tid).idxList pos ≠ -1 →
        (coroutines pos).yields ≠ [] →
          ((tables.primTable tid).ycs pos).normalNext ≠ -1)
    {left found : Nat → CleanupState}
    (run :
      Interference.Run (Interferes tid) (step maxScavPerThread tid)
        (mshCleanup false tables tid coroutines) left found) :
    OwnStep tid ⟨tables, .find, coroutines, [], [], 0⟩ (left 0) ∧
      ∃ time, CleanedUp tid (tables.primTable tid) (left time) ∧
        ∀ earlier, earlier < time →
          OwnStep tid (found earlier) (left (earlier + 1)) ∧
            ∀ idx, Tables.ScavIdx idx →
              (∀ pos, ScavPos pos →
                (tables.primTable tid).idxList pos ≠ idx) →
              (left (earlier + 1)).tables.scavTable idx =
                (found earlier).tables.scavTable idx := by
  have selfLinked :
      SelfLinked tid (mshCleanup false tables tid coroutines) := by
    refine mshCleanup_selfLinked hosting ?_ ?_
    · intro pos isHosted
      obtain ⟨isPos, held⟩ := mem_hostedPositions.mp isHosted
      exact linked pos isPos held
    · intro pos isHosted
      obtain ⟨isPos, held⟩ := mem_hostedPositions.mp isHosted
      exact returns pos isPos held
  have sameList :
      ((mshCleanup false tables tid coroutines).tables.primTable
          tid).idxList =
        (tables.primTable tid).idxList := by
    simp [mshCleanup, linkToSelf]
  have sameHosted :
      ((mshCleanup false tables tid coroutines).tables.primTable
          tid).hostedPositions =
        (tables.primTable tid).hostedPositions :=
    hostedPositions_congr fun _ _ => by rw [sameList]
  have notNone :
      ((mshCleanup false tables tid coroutines).tables.primTable
        tid).hostedPositions ≠ [] := by
    obtain ⟨pos, isPos, held⟩ := hostsOne
    rw [sameHosted]
    exact List.ne_nil_of_mem (mem_hostedPositions.mpr ⟨isPos, held⟩)
  obtain ⟨time, ⟨returned, ⟨after, drained, same⟩, primaryNext⟩, steps⟩ :=
    (selfLinked.runsToCompletion maxScavPerThread notNone rfl).happens run
  rw [sameHosted] at drained
  have finished :
      (left time).finished =
        (tables.primTable tid).hostedPositions.map
          (tables.primTable tid).idxList := by
    rw [same.finished, drained.finished, sameList]
    rfl
  refine ⟨?_, time, ⟨returned, ?_, finished, ?_, ?_, ?_, primaryNext, ?_⟩,
    ?_⟩
  · rw [run.starts]
    refine ⟨fun _ different => Tables.updatePrim_of_ne _ _ different _,
      fun _ _ => rfl, fun _ => .inr ?_⟩
    rw [sameList]
  · rw [same.calls, drained.calls]
    rfl
  · rw [finished]
    exact hostedPositions_map_nodup hosting tid
  · intro pos isHosted
    have inTable := (selfLinked.unfinished pos (sameHosted ▸ isHosted)).1
    have marked := drained.marked pos isHosted
    rw [sameList] at inTable
    simp only [sameList] at marked
    exact same.marks _ inTable.1 marked
  · intro pos isPos
    by_contra held
    have isLeft :
        pos ∈ ((left time).tables.primTable tid).hostedPositions :=
      mem_hostedPositions.mpr ⟨isPos, held⟩
    rw [same.hostedPositions, drained.hosted] at isLeft
    cases isLeft
  · rw [same.allocated, drained.allocated]
    rfl
  · intro earlier below
    refine ⟨steps earlier below, ?_⟩
    intro idx inTable notHosted
    refine (steps earlier below).scavTable idx ?_
    intro pos isPos
    rcases hosted_of_ownSteps run steps pos (Nat.le_of_lt below) with
      free | stays
    · rw [free]
      exact inTable.ne_sentinel.symm
    · rw [stays, sameList]
      exact notHosted pos isPos

/-- A cleanup with a hole before the scavenger, which yields once. -/
def cleaningUp (time : Nat) : CleanupState :=
  (step 2 0)^[time]
    (mshCleanup false finishedFirst.tables 0 fun pos =>
      ⟨[⟨true, 1, 2⟩], sizeofYieldCtx * pos⟩)

theorem mshCleanup_runsToCompletion_finishedFirst :
    ∃ time,
      CleanedUp 0 (finishedFirst.tables.primTable 0) (cleaningUp time) := by
  have reachable : Config.Reachable 2 twoScavs finishedFirst :=
    startedRun_reachable 2 twoScavs _
  have held : (finishedFirst.tables.primTable 0).idxList 2 ≠ -1 := by
    decide +kernel
  have linked :
      ∀ pos < maxCrtPerThread + 1, 1 ≤ pos →
        (finishedFirst.tables.primTable 0).idxList pos ≠ -1 →
          ((finishedFirst.tables.primTable 0).ycs pos).normalNext ≠ -1 := by
    decide +kernel
  have run :
      Interference.Run (Interferes 0) (step 2 0) (cleaningUp 0) cleaningUp
        cleaningUp :=
    ⟨rfl, fun _ => ⟨rfl, rfl, rfl, fun _ _ => id, fun _ _ _ => rfl⟩,
      fun time => iterate_succ_apply' _ time _⟩
  obtain ⟨_, time, cleanedUp, _⟩ :=
    mshCleanup_runsToCompletion 2 reachable.inv.hosting 0
      ⟨2, by decide, held⟩ (fun _ _ _ => rfl)
      (fun pos isPos hosted _ =>
        linked pos (Nat.lt_succ_of_le isPos.2) isPos.1 hosted) run
  exact ⟨time, cleanedUp⟩

end CleanupState

end Msh
