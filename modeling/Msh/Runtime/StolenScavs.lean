import Msh.Runtime.LockedSection

namespace Msh

open Function BoundedSearch SlotAssignment Config

/-!
# The scavengers of a locked section

Which scavengers `_allocate_scav` takes from other threads and which of theirs
it puts back at other positions, as functions of the tables it finds, and that
its two loops are runs of the steps of a locked section that do just this.
-/

namespace Tables

open PrimaryThreadCtx (lastOccupied firstFree)

/-- The scavengers that a donor gives up: its last ones, last one first. -/
def lastHosted (ctx : PrimaryThreadCtx) (count : Nat) : List Int :=
  (ctx.hostedPositions.reverse.take count).map ctx.idxList

/--
The scavenger that a donor gets back at another position: the one that is
popped when the taker's `room` is used up before the demand is met, unless all
positions before it are occupied.
-/
def rolledBackOf (ctx : PrimaryThreadCtx) (demands room : Nat) : List Int :=
  match (ctx.hostedPositions.reverse)[room]? with
  | none => []
  | some pos =>
      if room < demands ∧ pos ≠ ctx.hostedCount - room then
        [ctx.idxList pos]
      else []

/--
The scavengers that the first loop of `_allocate_scav` takes for a thread with
`room` free positions.  Each donor is asked for the whole demand.
-/
def stolen (tables : Tables) (demands : Nat) :
    List Tid → Nat → Nat → List Int
  | [], _, _ => []
  | tid :: rest, room, retCounts =>
      let ctx := tables.primTable tid
      if ctx.reallocatable then
        let count := min demands (min ctx.hostedCount room)
        if demands ≤ retCounts + count then lastHosted ctx count
        else
          lastHosted ctx count ++
            tables.stolen demands rest (room - count) (retCounts + count)
      else tables.stolen demands rest room retCounts

/-- The scavengers that the same loop puts back at other positions. -/
def rolledBack (tables : Tables) (demands : Nat) :
    List Tid → Nat → Nat → List Int
  | [], _, _ => []
  | tid :: rest, room, retCounts =>
      let ctx := tables.primTable tid
      if ctx.reallocatable then
        let count := min demands (min ctx.hostedCount room)
        if demands ≤ retCounts + count then rolledBackOf ctx demands room
        else
          rolledBackOf ctx demands room ++
            tables.rolledBack demands rest (room - count)
              (retCounts + count)
      else tables.rolledBack demands rest room retCounts

/-- Both depend on the flagged threads' lists only. -/
theorem stolen_congr
    {first second : Tables} {demands : Nat} {tids : List Tid}
    (flags :
      ∀ tid ∈ tids,
        (first.primTable tid).reallocatable =
          (second.primTable tid).reallocatable)
    (lists :
      ∀ tid ∈ tids, (second.primTable tid).reallocatable = true →
        (first.primTable tid).idxList = (second.primTable tid).idxList)
    (room retCounts : Nat) :
    first.stolen demands tids room retCounts =
        second.stolen demands tids room retCounts ∧
      first.rolledBack demands tids room retCounts =
        second.rolledBack demands tids room retCounts := by
  induction tids generalizing room retCounts with
  | nil =>
      exact ⟨rfl, rfl⟩
  | cons tid rest inductionHypothesis =>
      have restEq :=
        inductionHypothesis
          (fun other member => flags other (List.mem_cons_of_mem _ member))
          (fun other member =>
            lists other (List.mem_cons_of_mem _ member))
      have flag := flags tid List.mem_cons_self
      by_cases flagged : (second.primTable tid).reallocatable = true
      · have list := lists tid List.mem_cons_self flagged
        have hosted :
            (first.primTable tid).hostedCount =
              (second.primTable tid).hostedCount :=
          PrimaryThreadCtx.hostedCount_congr fun _ _ => by rw [list]
        have positions :
            (first.primTable tid).hostedPositions =
              (second.primTable tid).hostedPositions :=
          PrimaryThreadCtx.hostedPositions_congr fun _ _ => by rw [list]
        simp only [stolen, rolledBack, flag, flagged, ↓reduceIte,
          lastHosted, rolledBackOf, hosted, positions, list, restEq,
          and_self]
      · simp only [stolen, rolledBack, flag, flagged, restEq,
          Bool.false_eq_true, ↓reduceIte, and_self]

section Popped

variable {ctx after : PrimaryThreadCtx} {fromPos : Nat}
  (isLast : lastOccupied ctx.idxList = some fromPos)
  (popped :
    ∀ pos, after.idxList pos =
      if pos = fromPos then -1 else ctx.idxList pos)

include popped in
/-- The other positions hold what they held. -/
theorem popped_idxList {pos : Nat} (member : pos ∈ after.hostedPositions) :
    after.idxList pos = ctx.idxList pos := by
  have held := (PrimaryThreadCtx.mem_hostedPositions.mp member).2
  rw [popped] at held ⊢
  split at held
  · exact absurd rfl held
  · next differs => exact if_neg differs

include isLast

/-- The positions of a donor, last one first. -/
theorem reverse_hostedPositions :
    ctx.hostedPositions.reverse =
      fromPos :: ctx.hostedPositions.dropLast.reverse := by
  rw [PrimaryThreadCtx.lastOccupied_eq] at isLast
  obtain ⟨front, isFront⟩ := List.getLast?_eq_some_iff.mp isLast
  rw [isFront, List.dropLast_concat, List.reverse_append]
  rfl

include popped

theorem lastHosted_succ (count : Nat) :
    lastHosted ctx (count + 1) =
      ctx.idxList fromPos :: lastHosted after count := by
  rw [lastHosted, reverse_hostedPositions isLast, List.take_succ_cons,
    List.map_cons, lastHosted,
    ← PrimaryThreadCtx.hostedPositions_pop isLast popped]
  congr 1
  refine List.map_congr_left fun pos member => ?_
  exact (popped_idxList popped
    (List.mem_reverse.mp (List.mem_of_mem_take member))).symm

theorem rolledBackOf_succ (demands room : Nat) :
    rolledBackOf ctx (demands + 1) (room + 1) =
      rolledBackOf after demands room := by
  have count := PrimaryThreadCtx.hostedCount_pop isLast popped
  rw [rolledBackOf, rolledBackOf, reverse_hostedPositions isLast,
    List.getElem?_cons_succ,
    ← PrimaryThreadCtx.hostedPositions_pop isLast popped]
  split
  · rfl
  · next pos found =>
      have member :=
        List.mem_reverse.mp (List.mem_of_getElem? found)
      rw [popped_idxList popped member, ← count,
        Nat.add_sub_add_right]
      simp only [Nat.add_lt_add_iff_right]

end Popped

theorem length_lastHosted
    (ctx : PrimaryThreadCtx) {count : Nat}
    (available : count ≤ ctx.hostedCount) :
    (lastHosted ctx count).length = count := by
  rw [lastHosted, List.length_map, List.length_take, List.length_reverse,
    PrimaryThreadCtx.hostedPositions_length, Nat.min_eq_left available]

/-- A thread without scavengers gets none back. -/
theorem rolledBackOf_of_none
    {ctx : PrimaryThreadCtx} (noneLeft : ctx.hostedCount = 0)
    (demands room : Nat) :
    rolledBackOf ctx demands room = [] := by
  have empty : ctx.hostedPositions = [] := by
    rw [← List.length_eq_zero_iff, PrimaryThreadCtx.hostedPositions_length,
      noneLeft]
  rw [rolledBackOf, empty]
  rfl

section Loops

variable {tables : Tables} {source target : Tid}

/-- What a move does to the lists of the two threads. -/
theorem moveScav_lists
    (different : source ≠ target) {fromPos toPos : Nat} :
    (∀ pos,
      ((tables.moveScav source fromPos target toPos).primTable
          source).idxList pos =
        if pos = fromPos then -1
        else (tables.primTable source).idxList pos) ∧
      ∀ pos,
        ((tables.moveScav source fromPos target toPos).primTable
            target).idxList pos =
          if pos = toPos then (tables.primTable source).idxList fromPos
          else (tables.primTable target).idxList pos := by
  rw [moveScav_source different, moveScav_target]
  exact ⟨fun pos => update_apply .., fun pos => update_apply ..⟩

/-- The loop of `realloc_scav` leaves the other threads alone. -/
theorem reallocScav_other
    (different : source ≠ target) {other : Tid}
    (notSource : other ≠ source) (notTarget : other ≠ target)
    (demands : Nat) :
    (tables.reallocScav source target demands).1.primTable other =
      tables.primTable other := by
  induction demands generalizing tables with
  | zero =>
      rfl
  | succ demands inductionHypothesis =>
      rw [reallocScav]
      cases last : lastOccupied (tables.primTable source).idxList with
      | none =>
          rw [reallocOne_of_none last]
      | some fromPos =>
          cases room : firstFree (tables.primTable target).idxList with
          | none =>
              obtain ⟨toPos, back⟩ := exists_backPos last
              rw [reallocOne_of_full different last room back]
              simp only [putBack, updatePrim_of_ne _ _ notSource]
          | some toPos =>
              rw [reallocOne_of_room different last room]
              exact inductionHypothesis.trans
                (moveScav_other notSource notTarget)

/-- Where the taker has no position left, the donor's last scavenger is popped
and put back. -/
theorem reallocScav_run_of_full
    (different : source ≠ target)
    (flagged : (tables.primTable source).reallocatable = true)
    (demands : Nat) {fromPos : Nat}
    (last : lastOccupied (tables.primTable source).idxList = some fromPos)
    (room : firstFree (tables.primTable target).idxList = none) :
    let result := tables.reallocScav source target (demands + 1)
    result.2 = 0 ∧
      (result.1.primTable target).hostedCount = maxCrtPerThread ∧
      StealRun target []
        (rolledBackOf (tables.primTable source) (demands + 1) 0) tables
        result.1 := by
  obtain ⟨toPos, back⟩ := exists_backPos last
  obtain ⟨stays, atMost, lower⟩ := backPos_eq_iff last back
  have full := PrimaryThreadCtx.firstFree_eq_none_iff.mp room
  have isBack :
      rolledBackOf (tables.primTable source) (demands + 1) 0 =
        if toPos = fromPos then []
        else [(tables.primTable source).idxList fromPos] := by
    rw [rolledBackOf, reverse_hostedPositions last, List.getElem?_cons_zero]
    simp only [stays]
    simp [eq_comm]
  simp only [reallocScav, reallocOne_of_full different last room back, isBack,
    true_and]
  by_cases inPlace : toPos = fromPos
  · subst toPos
    rw [if_pos rfl, putBack_self]
    exact ⟨full, tables, .nil tables, .nil tables⟩
  · rw [if_neg inPlace]
    have below : toPos < fromPos := by omega
    have free : (tables.primTable source).idxList toPos = -1 := by
      unfold PrimaryThreadCtx.firstFree at back
      have found := (findUp_eq_some_iff.mp back).1
      simpa [update_of_ne inPlace] using found
    have taken : BackStep target _ tables _ :=
      .back different flagged rfl last room free lower below
    refine ⟨?_, tables, .nil tables, .cons taken (.nil _)⟩
    rw [taken.other (.inl rfl)]
    exact full

/-- The loop of `realloc_scav` moves the donor's last scavengers. -/
theorem reallocScav_run
    (different : source ≠ target)
    (flagged : (tables.primTable source).reallocatable = true)
    (demands : Nat) :
    let result := tables.reallocScav source target demands
    let room :=
      maxCrtPerThread - (tables.primTable target).hostedCount
    let count :=
      min demands (min (tables.primTable source).hostedCount room)
    result.2 = count ∧
      (result.1.primTable target).hostedCount =
        (tables.primTable target).hostedCount + count ∧
      StealRun target (lastHosted (tables.primTable source) count)
        (rolledBackOf (tables.primTable source) demands room) tables
        result.1 := by
  induction demands generalizing tables with
  | zero =>
      have noneBack (room : Nat) :
          rolledBackOf (tables.primTable source) 0 room = [] := by
        rw [rolledBackOf]
        split <;> simp
      simp only [reallocScav, Nat.zero_min, Nat.add_zero, lastHosted,
        List.take_zero, List.map_nil, noneBack, true_and]
      exact ⟨tables, .nil tables, .nil tables⟩
  | succ demands inductionHypothesis =>
      cases last : lastOccupied (tables.primTable source).idxList with
      | none =>
          have noneLeft :=
            PrimaryThreadCtx.lastOccupied_eq_none_iff.mp last
          simp only [reallocScav, reallocOne_of_none last, noneLeft,
            Nat.zero_min, Nat.min_zero, Nat.add_zero, lastHosted,
            List.take_zero, List.map_nil, rolledBackOf_of_none noneLeft,
            true_and]
          exact ⟨tables, .nil tables, .nil tables⟩
      | some fromPos =>
          cases room : firstFree (tables.primTable target).idxList with
          | none =>
              obtain ⟨counted, hosted, run⟩ :=
                reallocScav_run_of_full different flagged demands last room
              have full := PrimaryThreadCtx.firstFree_eq_none_iff.mp room
              simp only [counted, hosted, full, Nat.sub_self, Nat.min_zero,
                Nat.add_zero, lastHosted, List.take_zero, List.map_nil,
                true_and]
              exact run
          | some toPos =>
              obtain ⟨popped, pushed⟩ :=
                @moveScav_lists tables source target different fromPos toPos
              have isPos :=
                (PrimaryThreadCtx.firstFree_eq_some_iff.mp room)
              have held :=
                (PrimaryThreadCtx.lastOccupied_eq_some_iff.mp last).2.1
              have taken : MoveStep target _ tables _ :=
                .move different flagged rfl last room
              have donor := PrimaryThreadCtx.hostedCount_pop last popped
              have taker :=
                PrimaryThreadCtx.hostedCount_push isPos.1 isPos.2.1 held
                  pushed
              have bound :=
                ((tables.moveScav source fromPos target toPos).primTable
                  target).hostedCount_le
              obtain ⟨counted, hosted, run⟩ :=
                inductionHypothesis
                  ((taken.reallocatable source).trans flagged)
              have hasRoom :
                  maxCrtPerThread -
                      (tables.primTable target).hostedCount =
                    maxCrtPerThread -
                      ((tables.moveScav source fromPos target
                        toPos).primTable target).hostedCount + 1 := by
                omega
              have count :
                  min (demands + 1)
                      (min (tables.primTable source).hostedCount
                        (maxCrtPerThread -
                          (tables.primTable target).hostedCount)) =
                    min demands
                      (min
                        ((tables.moveScav source fromPos target
                          toPos).primTable source).hostedCount
                        (maxCrtPerThread -
                          ((tables.moveScav source fromPos target
                            toPos).primTable target).hostedCount)) + 1 := by
                omega
              simp only [reallocScav,
                reallocOne_of_room different last room, count, counted,
                true_and]
              refine ⟨by rw [hosted, taker]; omega, ?_⟩
              rw [lastHosted_succ last popped, hasRoom,
                rolledBackOf_succ last popped]
              obtain ⟨middle, moves, backs⟩ := run
              exact ⟨middle, .cons taken moves, backs⟩

/-- Taking and setting a donor's flag leaves what the loop does. -/
theorem reallocScav_taken
    (different : source ≠ target)
    (flagged : (tables.primTable source).reallocatable = true)
    (demands : Nat) :
    let taken :=
      tables.updatePrim source fun ctx => { ctx with reallocatable := false }
    let moved := taken.reallocScav source target demands
    (moved.1.updatePrim source fun ctx =>
          { ctx with reallocatable := true }) =
        (tables.reallocScav source target demands).1 ∧
      moved.2 = (tables.reallocScav source target demands).2 := by
  intro taken moved
  have movedEq : moved = _ := reallocScav_setFlag different false demands
  rw [movedEq]
  refine ⟨?_, rfl⟩
  have run := (reallocScav_run different flagged demands).2.2
  generalize (tables.reallocScav source target demands).1 = result
    at run ⊢
  have stillFlagged : (result.primTable source).reallocatable = true := by
    rw [LockedRun.reallocatable run.locked, flagged]
  simp only [updatePrim, update_self, update_idem]
  simp [← stillFlagged]

/-- The first loop of `_allocate_scav` moves what `stolen` lists. -/
theorem stealScavs_spec
    (notFlagged : (tables.primTable target).reallocatable = false)
    (demands : Nat) {tids : List Tid} (nodup : tids.Nodup)
    (retCounts : Nat) :
    let result := tables.stealScavs target demands tids retCounts
    let room :=
      maxCrtPerThread - (tables.primTable target).hostedCount
    let moved := tables.stolen demands tids room retCounts
    result.2.1 = retCounts + moved.length ∧
      (result.1.primTable target).hostedCount =
        (tables.primTable target).hostedCount + moved.length ∧
      StealRun target moved
        (tables.rolledBack demands tids room retCounts) tables
        result.1 := by
  induction tids generalizing tables retCounts with
  | nil =>
      exact ⟨rfl, (Nat.add_zero _).symm, tables, .nil tables, .nil tables⟩
  | cons tid rest inductionHypothesis =>
      obtain ⟨notInRest, restNodup⟩ := List.nodup_cons.mp nodup
      by_cases flagged : (tables.primTable tid).reallocatable = true
      · have different : tid ≠ target := by
          rintro rfl
          simp [flagged] at notFlagged
        have taken := reallocScav_taken different flagged demands
        obtain ⟨counted, hosted, run⟩ :=
          reallocScav_run different flagged demands
        have bound :=
          ((tables.reallocScav tid target demands).1.primTable
            target).hostedCount_le
        simp only [stealScavs, stolen, rolledBack, flagged, ↓reduceIte,
          taken.1, taken.2, counted]
        have others :=
          fun other notSource notTarget =>
            @reallocScav_other tables tid target different other
              notSource notTarget demands
        generalize (tables.reallocScav tid target demands).1 = result
          at hosted run bound others ⊢
        generalize countEq :
          min demands
            (min (tables.primTable tid).hostedCount
              (maxCrtPerThread -
                (tables.primTable target).hostedCount)) = count
            at hosted run ⊢
        have lastLength :
            (lastHosted (tables.primTable tid) count).length = count :=
          length_lastHosted _ (by omega)
        split
        · rw [lastLength]
          exact ⟨rfl, hosted, run⟩
        · have flags := LockedRun.reallocatable run.locked
          have sameRest :=
            @stolen_congr result tables demands rest
              (fun other _ => flags other)
              (fun other member otherFlagged => by
                rw [others other]
                · rintro rfl
                  exact notInRest member
                · rintro rfl
                  simp [otherFlagged] at notFlagged)
              (maxCrtPerThread -
                  (tables.primTable target).hostedCount - count)
              (retCounts + count)
          obtain ⟨restCounted, restHosted, restRun⟩ :=
            @inductionHypothesis result
              ((flags target).trans notFlagged) restNodup
              (retCounts + count)
          rw [hosted, Nat.sub_add_eq, sameRest.1] at restCounted restHosted
          rw [hosted, Nat.sub_add_eq, sameRest.1, sameRest.2] at restRun
          refine ⟨?_, ?_, run.append restRun⟩
          · rw [restCounted, List.length_append, lastLength, Nat.add_assoc]
          · rw [restHosted, List.length_append, lastLength, Nat.add_assoc]
      · simp only [stealScavs, stolen, rolledBack, flagged,
          Bool.false_eq_true, ↓reduceIte]
        exact inductionHypothesis notFlagged restNodup retCounts

/-- The second loop of `_allocate_scav` takes host steps and counts them. -/
theorem takeFromPool_spec
    (demands : Nat) (idxs : List Nat)
    (inTable : ∀ idx ∈ idxs, idx < maxActiveCrtNum) (retCounts : Nat) :
    ∃ placed,
      (tables.takeFromPool target demands idxs retCounts).2 =
          retCounts + placed ∧
        ((tables.takeFromPool target demands idxs retCounts).1.primTable
            target).hostedCount =
          (tables.primTable target).hostedCount + placed ∧
        HostRun target tables
          (tables.takeFromPool target demands idxs retCounts).1 := by
  induction idxs generalizing tables retCounts with
  | nil =>
      exact ⟨0, rfl, (Nat.add_zero _).symm, .refl⟩
  | cons idx rest inductionHypothesis =>
      have restInTable : ∀ other ∈ rest, other < maxActiveCrtNum :=
        fun other member => inTable other (List.mem_cons_of_mem _ member)
      by_cases idle : tables.Idle idx = true
      · simp only [takeFromPool, idle, ↓reduceIte]
        cases room : firstFree (tables.primTable target).idxList with
        | none =>
            exact ⟨0, rfl, (Nat.add_zero _).symm, .refl⟩
        | some pos =>
            have isIdx : ScavIdx idx :=
              ⟨Int.natCast_nonneg _,
                Int.ofNat_lt.mpr (inTable idx List.mem_cons_self)⟩
            have taken := HostStep.host isIdx idle room
            simp only
            split
            · exact ⟨1, rfl, taken.hostedCount, .single taken⟩
            · obtain ⟨placed, counted, hosted, run⟩ :=
                @inductionHypothesis (tables.hostScav target idx pos)
                  restInTable (retCounts + 1)
              refine ⟨placed + 1, ?_, ?_, .head taken run⟩
              · rw [counted]
                omega
              · rw [hosted, taken.hostedCount]
                omega
      · simp only [takeFromPool, idle, Bool.false_eq_true, ↓reduceIte]
        exact inductionHypothesis restInTable retCounts

/-- The scavengers that the locked section takes from other threads. -/
def stolenFor (tables : Tables) (target : Tid) (demands : Nat) :
    List Int :=
  tables.stolen demands (List.finRange maxThreadNum)
    (maxCrtPerThread - (tables.primTable target).hostedCount) 0

/-- The scavengers that it leaves at other positions of their threads. -/
def rolledBackFor (tables : Tables) (target : Tid) (demands : Nat) :
    List Int :=
  tables.rolledBack demands (List.finRange maxThreadNum)
    (maxCrtPerThread - (tables.primTable target).hostedCount) 0

/-- A thread that needs no scavengers takes none and puts none back. -/
theorem stolen_zero
    (tables : Tables) (tids : List Tid) (room retCounts : Nat) :
    tables.stolen 0 tids room retCounts = [] ∧
      tables.rolledBack 0 tids room retCounts = [] := by
  have noneBack (ctx : PrimaryThreadCtx) (room : Nat) :
      rolledBackOf ctx 0 room = [] := by
    rw [rolledBackOf]
    split <;> simp
  induction tids with
  | nil =>
      exact ⟨rfl, rfl⟩
  | cons tid rest inductionHypothesis =>
      simp [stolen, rolledBack, lastHosted, noneBack, inductionHypothesis]

/--
The locked section: first moves, then rollbacks, then placements; it returns
how many scavengers the taker hosts more.
-/
theorem allocateScavLocked_spec
    (notFlagged : (tables.primTable target).reallocatable = false)
    (demands : Nat) :
    ∃ moved back placed,
      (tables.allocateScavLocked target demands).2 =
          (tables.stolenFor target demands).length + placed ∧
        ((tables.allocateScavLocked target demands).1.primTable
            target).hostedCount =
          (tables.primTable target).hostedCount +
            (tables.allocateScavLocked target demands).2 ∧
        MoveRun target (tables.stolenFor target demands) tables moved ∧
        BackRun target (tables.rolledBackFor target demands) moved back ∧
        HostRun target back
          (tables.allocateScavLocked target demands).1 := by
  obtain ⟨counted, hosted, moved, moves, backs⟩ :=
    stealScavs_spec notFlagged demands
      (List.nodup_finRange maxThreadNum) 0
  rw [Nat.zero_add] at counted
  unfold allocateScavLocked
  simp only
  split
  · exact ⟨moved, _, 0, counted, hosted.trans (by rw [counted]), moves,
      backs, .refl⟩
  · obtain ⟨placed, poolCounted, poolHosted, poolRun⟩ :=
      @takeFromPool_spec
        (tables.stealScavs target demands
          (List.finRange maxThreadNum) 0).1
        target demands (List.range maxActiveCrtNum)
        (fun idx member => List.mem_range.mp member)
        (tables.stealScavs target demands
          (List.finRange maxThreadNum) 0).2.1
    refine ⟨moved, _, placed, ?_, ?_, moves, backs, poolRun⟩
    · rw [poolCounted, counted]
      rfl
    · rw [poolHosted, poolCounted, hosted, counted]
      exact Nat.add_assoc ..

/-- The same as one run of steps. -/
theorem allocateScavLocked_run
    (notFlagged : (tables.primTable target).reallocatable = false)
    (demands : Nat) :
    LockedRun target tables
      (tables.allocateScavLocked target demands).1 := by
  obtain ⟨_, _, _, _, _, moves, backs, hosts⟩ :=
    allocateScavLocked_spec notFlagged demands
  exact (moves.locked.trans backs.locked).trans (HostRun.locked hosts)

end Loops

end Tables

end Msh
