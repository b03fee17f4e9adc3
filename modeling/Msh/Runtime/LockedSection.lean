import Msh.Runtime.Reallocation

namespace Msh

open Function BoundedSearch SlotAssignment Config

/-!
# The locked section of `allocate_scav`

`_allocate_scav` takes flagged donors in turn and then walks the pool.  Both
loops are runs of three kinds of steps, a move from a flagged donor, a
rollback that changes the position of a donor's scavenger, and a placement of
an idle scavenger, so that whatever these steps keep is kept by the whole
section.  No list needs to be compact for this.
-/

namespace Tables

open PrimaryThreadCtx (lastOccupied firstFree)

/--
The last scavenger of a flagged donor, which is the index given, gets the
taker's first free position.
-/
inductive MoveStep (target : Tid) (idx : Int) (tables : Tables) :
    Tables → Prop where
  | move {source : Tid} {fromPos toPos : Nat} :
      source ≠ target →
      (tables.primTable source).reallocatable = true →
      (tables.primTable source).idxList fromPos = idx →
      lastOccupied (tables.primTable source).idxList = some fromPos →
      firstFree (tables.primTable target).idxList = some toPos →
      MoveStep target idx tables
        (tables.moveScav source fromPos target toPos)

/--
The taker is full, and the last scavenger of a flagged donor, which is the
index given, is put back at an earlier position.
-/
inductive BackStep (target : Tid) (idx : Int) (tables : Tables) :
    Tables → Prop where
  | back {source : Tid} {fromPos toPos : Nat} :
      source ≠ target →
      (tables.primTable source).reallocatable = true →
      (tables.primTable source).idxList fromPos = idx →
      lastOccupied (tables.primTable source).idxList = some fromPos →
      firstFree (tables.primTable target).idxList = none →
      (tables.primTable source).idxList toPos = -1 →
      1 ≤ toPos →
      toPos < fromPos →
      BackStep target idx tables (tables.putBack source fromPos toPos)

/-- An idle scavenger of the pool gets the taker's first free position. -/
inductive HostStep (target : Tid) (tables : Tables) : Tables → Prop where
  | host {idx : Int} {pos : Nat} :
      ScavIdx idx →
      tables.Idle idx = true →
      firstFree (tables.primTable target).idxList = some pos →
      HostStep target tables (tables.hostScav target idx pos)

/-- Moves of the first loop, with the scavengers they move. -/
inductive MoveRun (target : Tid) : List Int → Tables → Tables → Prop where
  | nil (tables : Tables) :
      MoveRun target [] tables tables
  | cons {idx : Int} {rest : List Int} {first second third : Tables} :
      MoveStep target idx first second →
      MoveRun target rest second third →
      MoveRun target (idx :: rest) first third

/-- Rollbacks of the first loop, with the scavengers they put back. -/
inductive BackRun (target : Tid) : List Int → Tables → Tables → Prop where
  | nil (tables : Tables) :
      BackRun target [] tables tables
  | cons {idx : Int} {rest : List Int} {first second third : Tables} :
      BackStep target idx first second →
      BackRun target rest second third →
      BackRun target (idx :: rest) first third

/-- The first loop: nothing is moved any more once something is put back. -/
def StealRun (target : Tid) (moved back : List Int)
    (before after : Tables) : Prop :=
  ∃ middle, MoveRun target moved before middle ∧
    BackRun target back middle after

/-- The second loop of the section. -/
abbrev HostRun (target : Tid) : Tables → Tables → Prop :=
  Relation.ReflTransGen (HostStep target)

/-- A step of the locked section. -/
inductive LockedStep (target : Tid) (before after : Tables) : Prop where
  | move {idx : Int} :
      MoveStep target idx before after → LockedStep target before after
  | back {idx : Int} :
      BackStep target idx before after → LockedStep target before after
  | host :
      HostStep target before after → LockedStep target before after

/-- Any number of steps of the locked section. -/
abbrev LockedRun (target : Tid) : Tables → Tables → Prop :=
  Relation.ReflTransGen (LockedStep target)

theorem MoveRun.locked
    {target : Tid} {idxs : List Int} {before after : Tables}
    (run : MoveRun target idxs before after) :
    LockedRun target before after := by
  induction run with
  | nil =>
      exact .refl
  | cons taken _ inductionHypothesis =>
      exact .head (.move taken) inductionHypothesis

theorem MoveRun.append
    {target : Tid} {idxs more : List Int} {before after last : Tables}
    (earlier : MoveRun target idxs before after)
    (later : MoveRun target more after last) :
    MoveRun target (idxs ++ more) before last := by
  induction earlier with
  | nil =>
      exact later
  | cons taken _ inductionHypothesis =>
      exact .cons taken (inductionHypothesis later)

theorem BackRun.locked
    {target : Tid} {idxs : List Int} {before after : Tables}
    (run : BackRun target idxs before after) :
    LockedRun target before after := by
  induction run with
  | nil =>
      exact .refl
  | cons taken _ inductionHypothesis =>
      exact .head (.back taken) inductionHypothesis

theorem BackRun.append
    {target : Tid} {idxs more : List Int} {before after last : Tables}
    (earlier : BackRun target idxs before after)
    (later : BackRun target more after last) :
    BackRun target (idxs ++ more) before last := by
  induction earlier with
  | nil =>
      exact later
  | cons taken _ inductionHypothesis =>
      exact .cons taken (inductionHypothesis later)

theorem StealRun.locked
    {target : Tid} {moved back : List Int} {before after : Tables}
    (run : StealRun target moved back before after) :
    LockedRun target before after := by
  obtain ⟨_, moves, backs⟩ := run
  exact moves.locked.trans backs.locked

theorem HostRun.locked
    {target : Tid} {before after : Tables}
    (run : HostRun target before after) :
    LockedRun target before after :=
  Relation.ReflTransGen.mono (fun _ _ => .host) _ _ run

/-- The three fields by which `Idle` is defined. -/
theorem Idle_iff {tables : Tables} {idx : Int} :
    tables.Idle idx = true ↔
      (tables.scavTable idx).libHandle.isSome = true ∧
        (tables.scavTable idx).yc = none ∧
          (tables.scavTable idx).finished = false := by
  simp [Idle, and_assoc]

theorem updatePrim_eq_self
    {tables : Tables} {tid : Tid}
    {f : PrimaryThreadCtx → PrimaryThreadCtx}
    (same : f (tables.primTable tid) = tables.primTable tid) :
    tables.updatePrim tid f = tables := by
  simp [updatePrim, same]

/-- Hosting a scavenger changes only the host's entry of `PRIM_TABLE`. -/
theorem hostScav_other
    {tables : Tables} {target other : Tid} {idx : Int} {pos : Nat}
    (different : other ≠ target) :
    (tables.hostScav target idx pos).primTable other =
      tables.primTable other := by
  simp only [hostScav, updateScav_primTable, setScavSymbol]
  split
  · rw [updatePrim_of_ne _ _ different]
  · split
    · rw [updateLib_primTable, updatePrim_of_ne _ _ different]
    · rw [updatePrim_of_ne _ _ different, updateLib_primTable,
        updateLib_primTable, updatePrim_of_ne _ _ different]

/-- The host's flag is not touched by hosting a scavenger. -/
theorem hostScav_reallocatable
    (tables : Tables) (target : Tid) (idx : Int) (pos : Nat) (tid : Tid) :
    ((tables.hostScav target idx pos).primTable tid).reallocatable =
      (tables.primTable tid).reallocatable := by
  by_cases isTarget : tid = target
  · subst tid
    simp only [hostScav, updateScav_primTable, setScavSymbol]
    split
    · simp [PrimaryThreadCtx.updateYc, PrimaryThreadCtx.tlSetCrtIdAt]
    · split <;>
        simp [PrimaryThreadCtx.updateYc, PrimaryThreadCtx.tlSetCrtIdAt]
  · rw [hostScav_other isTarget]

namespace MoveStep

variable {target : Tid} {idx : Int} {before after : Tables}

/-- What is known of the two slots of a move. -/
theorem slots
    {source : Tid} {fromPos toPos : Nat}
    (isLast :
      lastOccupied (before.primTable source).idxList = some fromPos)
    (room : firstFree (before.primTable target).idxList = some toPos) :
    before.occupant (source, fromPos) =
        some ((before.primTable source).idxList fromPos) ∧
      ScavPos toPos ∧ (before.primTable target).idxList toPos = -1 := by
  obtain ⟨isFrom, held, _⟩ :=
    PrimaryThreadCtx.lastOccupied_eq_some_iff.mp isLast
  obtain ⟨isTo, free, _⟩ := PrimaryThreadCtx.firstFree_eq_some_iff.mp room
  exact ⟨occupant_eq_some_iff.mpr ⟨isFrom, rfl, held⟩, isTo, free⟩

/-- A move step moves a hosted scavenger to a free slot. -/
theorem slotStep (taken : MoveStep target idx before after) :
    SlotStep before after := by
  cases taken with
  | move different _ _ isLast room =>
      obtain ⟨held, isTo, free⟩ := slots isLast room
      exact .moved (moveScav_moved different) held isTo free

theorem owned
    (taken : MoveStep target idx before after) (owned : before.Owned) :
    after.Owned := by
  cases taken with
  | move different _ _ isLast room =>
      obtain ⟨held, isTo, free⟩ := slots isLast room
      exact owned.moved (moveScav_moved different)
        (moveScav_movedMarks different isTo) held isTo free

theorem reallocatable
    (taken : MoveStep target idx before after) (tid : Tid) :
    (after.primTable tid).reallocatable =
      (before.primTable tid).reallocatable := by
  cases taken with
  | move different =>
      exact moveScav_reallocatable different tid

theorem other
    (taken : MoveStep target idx before after)
    {tid : Tid} (different : tid ≠ target)
    (notFlagged : (before.primTable tid).reallocatable = false) :
    after.primTable tid = before.primTable tid := by
  cases taken with
  | @move source _ _ _ flagged =>
      have notSource : tid ≠ source := by
        rintro rfl
        simp [flagged] at notFlagged
      exact moveScav_other notSource different

end MoveStep

namespace BackStep

variable {target : Tid} {idx : Int} {before after : Tables}

/-- The scavenger is put into an earlier, free slot of its list. -/
theorem rolledBack (taken : BackStep target idx before after) :
    ∃ tid fromPos toPos,
      RolledBack before after tid fromPos toPos idx ∧
        before.occupant (tid, fromPos) = some idx ∧
        ScavPos toPos ∧ (before.primTable tid).idxList toPos = -1 ∧
        toPos < fromPos := by
  cases taken with
  | @back source fromPos toPos _ _ atFrom isLast _ free lower below =>
      subst atFrom
      obtain ⟨isFrom, held, _⟩ :=
        PrimaryThreadCtx.lastOccupied_eq_some_iff.mp isLast
      have upper := isFrom.2
      exact ⟨source, fromPos, toPos, putBack_rolledBack,
        occupant_eq_some_iff.mpr ⟨isFrom, rfl, held⟩,
        ⟨lower, by omega⟩, free, below⟩

theorem slotStep (taken : BackStep target idx before after) :
    SlotStep before after := by
  obtain ⟨_, _, _, change, held, isPos, free, _⟩ := taken.rolledBack
  exact .rolledBack change held isPos free

theorem reallocatable
    (taken : BackStep target idx before after) (tid : Tid) :
    (after.primTable tid).reallocatable =
      (before.primTable tid).reallocatable := by
  cases taken with
  | @back source =>
      by_cases isSource : tid = source
      · subst tid
        simp [putBack]
      · rw [putBack, updatePrim_of_ne _ _ isSource]

/-- Only a flagged thread other than the taker has its list changed. -/
theorem other
    (taken : BackStep target idx before after)
    {tid : Tid}
    (notDonor :
      tid = target ∨ (before.primTable tid).reallocatable = false) :
    after.primTable tid = before.primTable tid := by
  cases taken with
  | @back source _ _ different flagged =>
      have notSource : tid ≠ source := by
        rcases notDonor with isTarget | notFlagged
        · exact isTarget ▸ different.symm
        · rintro rfl
          simp [flagged] at notFlagged
      rw [putBack, updatePrim_of_ne _ _ notSource]

/-- No other entry of the tables is touched. -/
theorem scavTable (taken : BackStep target idx before after) :
    after.scavTable = before.scavTable ∧ after.libs = before.libs := by
  cases taken
  exact ⟨rfl, rfl⟩

/-- The scavenger is at an earlier position of its list. -/
theorem lowers (taken : BackStep target idx before after) :
    ∃ tid fromPos toPos,
      before.occupant (tid, fromPos) = some idx ∧
        after.occupant (tid, toPos) = some idx ∧ toPos < fromPos := by
  obtain ⟨tid, fromPos, toPos, change, held, isPos, _, below⟩ :=
    taken.rolledBack
  exact ⟨tid, fromPos, toPos, held,
    change.toShifted.occupant_self held isPos, below⟩

/-- No scavenger is at a later position of its list. -/
theorem earlier
    (taken : BackStep target idx before after)
    (hosting : before.Hosting)
    {tid : Tid} {pos : Nat} {item : Int}
    (held : after.occupant (tid, pos) = some item) :
    ∃ fromPos, before.occupant (tid, fromPos) = some item ∧
      pos ≤ fromPos := by
  obtain ⟨source, fromPos, toPos, change, heldFrom, isPos, _, below⟩ :=
    taken.rolledBack
  by_cases isBack : item = idx
  · subst item
    have same :=
      (taken.slotStep.hosting hosting).assignment.slotUnique held
        (change.toShifted.occupant_self heldFrom isPos)
    obtain ⟨rfl, rfl⟩ := Prod.mk.inj same
    exact ⟨fromPos, heldFrom, Nat.le_of_lt below⟩
  · exact ⟨pos, change.toShifted.occupant_of_ne isBack held,
      Nat.le_refl _⟩

/-- The taker is full, and stays so. -/
theorem full (taken : BackStep target idx before after) :
    firstFree (after.primTable target).idxList = none := by
  rw [taken.other (.inl rfl)]
  cases taken with
  | back _ _ _ _ full => exact full

end BackStep

/-- Once something is put back the taker is full. -/
theorem BackRun.full
    {target : Tid} {idxs : List Int} {before after : Tables}
    (run : BackRun target idxs before after)
    (full : firstFree (before.primTable target).idxList = none) :
    firstFree (after.primTable target).idxList = none := by
  induction run with
  | nil =>
      exact full
  | cons taken _ inductionHypothesis =>
      exact inductionHypothesis taken.full

theorem BackRun.scavTable
    {target : Tid} {idxs : List Int} {before after : Tables}
    (run : BackRun target idxs before after) :
    after.scavTable = before.scavTable ∧ after.libs = before.libs := by
  induction run with
  | nil =>
      exact ⟨rfl, rfl⟩
  | cons taken _ inductionHypothesis =>
      exact ⟨inductionHypothesis.1.trans taken.scavTable.1,
        inductionHypothesis.2.trans taken.scavTable.2⟩

/-- Rollbacks leave some scavenger at an earlier position of its list. -/
theorem BackRun.lowers
    {target : Tid} {idxs : List Int} {before after : Tables}
    (run : BackRun target idxs before after) (hosting : before.Hosting)
    (isBack : idxs ≠ []) :
    ∃ tid fromPos toPos idx,
      before.occupant (tid, fromPos) = some idx ∧
        after.occupant (tid, toPos) = some idx ∧ toPos < fromPos := by
  induction run with
  | nil =>
      exact absurd rfl isBack
  | @cons idx rest first second third taken restRun
      inductionHypothesis =>
      cases restRun with
      | nil =>
          obtain ⟨tid, fromPos, toPos, heldFrom, heldTo, below⟩ :=
            taken.lowers
          exact ⟨tid, fromPos, toPos, idx, heldFrom, heldTo, below⟩
      | cons =>
          obtain ⟨tid, middlePos, toPos, item, heldMiddle, heldTo, below⟩ :=
            inductionHypothesis (taken.slotStep.hosting hosting)
              (List.cons_ne_nil _ _)
          obtain ⟨fromPos, heldFrom, atMost⟩ :=
            taken.earlier hosting heldMiddle
          exact ⟨tid, fromPos, toPos, item, heldFrom, heldTo, by omega⟩

/-- They leave the taker full, so that nothing is placed after them. -/
theorem HostRun.eq_of_back
    {target : Tid} {idxs : List Int} {before middle after : Tables}
    (backs : BackRun target idxs before middle) (isBack : idxs ≠ [])
    (run : HostRun target middle after) :
    after = middle := by
  have full : firstFree (middle.primTable target).idxList = none := by
    cases backs with
    | nil => exact absurd rfl isBack
    | cons taken rest => exact rest.full taken.full
  rcases Relation.ReflTransGen.cases_head run with same | ⟨_, taken, _⟩
  · exact same.symm
  · cases taken with
    | host _ _ room =>
        rw [full] at room
        cases room

theorem StealRun.append
    {target : Tid} {moved back moreMoved moreBack : List Int}
    {before after last : Tables}
    (earlier : StealRun target moved back before after)
    (later : StealRun target moreMoved moreBack after last) :
    StealRun target (moved ++ moreMoved) (back ++ moreBack)
      before last := by
  obtain ⟨middle, moves, backs⟩ := earlier
  obtain ⟨laterMiddle, laterMoves, laterBacks⟩ := later
  cases backs with
  | nil =>
      exact ⟨laterMiddle, moves.append laterMoves, laterBacks⟩
  | cons taken rest =>
      cases laterMoves with
      | nil =>
          rw [List.append_nil]
          exact ⟨middle, moves, (BackRun.cons taken rest).append laterBacks⟩
      | cons moved _ =>
          cases moved with
          | move _ _ _ _ room =>
              rw [rest.full taken.full] at room
              cases room

namespace HostStep

variable {target : Tid} {before after : Tables}

/-- A host step places an idle scavenger at a free slot. -/
theorem slotStep (taken : HostStep target before after) :
    SlotStep before after := by
  cases taken with
  | @host idx pos inTable idle room =>
      obtain ⟨_, unplaced, unfinished⟩ := Idle_iff.mp idle
      obtain ⟨isPos, free, _⟩ :=
        PrimaryThreadCtx.firstFree_eq_some_iff.mp room
      exact .placed (hostScav_placed before target idx pos) isPos free
        inTable unplaced unfinished

theorem owned
    (taken : HostStep target before after) (owned : before.Owned) :
    after.Owned := by
  cases taken with
  | @host idx pos inTable idle room =>
      obtain ⟨_, unplaced, unfinished⟩ := Idle_iff.mp idle
      obtain ⟨isPos, free, _⟩ :=
        PrimaryThreadCtx.firstFree_eq_some_iff.mp room
      exact owned.placed (hostScav_placed before target idx pos) isPos free
        inTable unplaced unfinished

theorem reallocatable
    (taken : HostStep target before after) (tid : Tid) :
    (after.primTable tid).reallocatable =
      (before.primTable tid).reallocatable := by
  cases taken
  exact hostScav_reallocatable _ _ _ _ tid

theorem other
    (taken : HostStep target before after)
    {tid : Tid} (different : tid ≠ target) :
    after.primTable tid = before.primTable tid := by
  cases taken
  exact hostScav_other different

/-- The taker hosts one scavenger more. -/
theorem hostedCount (taken : HostStep target before after) :
    (after.primTable target).hostedCount =
      (before.primTable target).hostedCount + 1 := by
  cases taken with
  | @host idx pos inTable idle room =>
      obtain ⟨isPos, free, _⟩ :=
        PrimaryThreadCtx.firstFree_eq_some_iff.mp room
      refine PrimaryThreadCtx.hostedCount_push isPos free
        inTable.ne_sentinel fun query => ?_
      simpa using
        (hostScav_placed before target idx pos).idxList target query

end HostStep

namespace LockedStep

variable {target : Tid} {before after : Tables}

theorem slotStep (taken : LockedStep target before after) :
    SlotStep before after := by
  cases taken with
  | move moved => exact moved.slotStep
  | back back => exact back.slotStep
  | host hosted => exact hosted.slotStep

theorem reallocatable
    (taken : LockedStep target before after) (tid : Tid) :
    (after.primTable tid).reallocatable =
      (before.primTable tid).reallocatable := by
  cases taken with
  | move moved => exact moved.reallocatable tid
  | back back => exact back.reallocatable tid
  | host hosted => exact hosted.reallocatable tid

theorem other
    (taken : LockedStep target before after)
    {tid : Tid} (different : tid ≠ target)
    (notFlagged : (before.primTable tid).reallocatable = false) :
    after.primTable tid = before.primTable tid := by
  cases taken with
  | move moved => exact moved.other different notFlagged
  | back back => exact back.other (.inr notFlagged)
  | host hosted => exact hosted.other different

end LockedStep

namespace LockedRun

variable {target : Tid} {before after : Tables}

/-- The locked section is a run of slot changes. -/
theorem slotRun (run : LockedRun target before after) :
    SlotRun before after :=
  Relation.ReflTransGen.mono (fun _ _ taken => taken.slotStep) _ _ run

theorem reallocatable
    (run : LockedRun target before after) (tid : Tid) :
    (after.primTable tid).reallocatable =
      (before.primTable tid).reallocatable := by
  induction run with
  | refl =>
      rfl
  | tail _ taken inductionHypothesis =>
      exact (taken.reallocatable tid).trans inductionHypothesis

/-- Threads that hold no flag and do not allocate are left alone. -/
theorem other
    (run : LockedRun target before after)
    {tid : Tid} (different : tid ≠ target)
    (notFlagged : (before.primTable tid).reallocatable = false) :
    after.primTable tid = before.primTable tid := by
  induction run with
  | refl =>
      rfl
  | @tail middle _ earlier taken inductionHypothesis =>
      have middleNotFlagged :
          (middle.primTable tid).reallocatable = false := by
        rw [LockedRun.reallocatable earlier, notFlagged]
      exact (taken.other different middleNotFlagged).trans
        inductionHypothesis

end LockedRun

/-- Moves and placements keep ownership. -/
theorem MoveRun.owned
    {target : Tid} {idxs : List Int} {before after : Tables}
    (run : MoveRun target idxs before after) (owned : before.Owned) :
    after.Owned := by
  induction run with
  | nil =>
      exact owned
  | cons taken _ inductionHypothesis =>
      exact inductionHypothesis (taken.owned owned)

theorem HostRun.owned
    {target : Tid} {before after : Tables}
    (run : HostRun target before after) (owned : before.Owned) :
    after.Owned := by
  induction run with
  | refl =>
      exact owned
  | tail _ taken inductionHypothesis =>
      exact taken.owned inductionHypothesis

end Tables

end Msh
