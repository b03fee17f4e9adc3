import Msh.Runtime.Demand
import Msh.Runtime.InitCalls

namespace Msh

open Function SlotAssignment Config TransitionSystem

/-!
# The life of a scavenger

An entry of the pool is idle, then hosted, then finished.  Its `init` is
called by the thread that hosts it first, before any of its code runs, and it
is never called again.
-/

namespace Tables

/-- An entry of `SCAV_TABLE` is loaded and initialised as before. -/
structure SameEntry (before after : CoroutineCtx) : Prop where
  libHandle : after.libHandle = before.libHandle
  init : after.init = before.init
  inited : after.inited = before.inited

/-- All entries of `SCAV_TABLE` are. -/
def SameEntries (before after : Tables) : Prop :=
  ∀ idx, SameEntry (before.scavTable idx) (after.scavTable idx)

namespace SameEntries

variable {first second third : Tables} (tables : Tables) (tid : Tid)

theorem of_scavTable (same : second.scavTable = first.scavTable) :
    SameEntries first second := by
  intro idx
  rw [same]
  exact ⟨rfl, rfl, rfl⟩

theorem trans
    (earlier : SameEntries first second)
    (later : SameEntries second third) :
    SameEntries first third :=
  fun idx =>
    ⟨(later idx).libHandle.trans (earlier idx).libHandle,
      (later idx).init.trans (earlier idx).init,
      (later idx).inited.trans (earlier idx).inited⟩

theorem updateScav (idx : Int) {f : CoroutineCtx → CoroutineCtx}
    (same : SameEntry (tables.scavTable idx) (f (tables.scavTable idx))) :
    SameEntries tables (tables.updateScav idx f) := by
  intro other
  by_cases own : other = idx
  · subst other
    rw [updateScav_self]
    exact same
  · rw [updateScav_of_ne _ _ own]
    exact ⟨rfl, rfl, rfl⟩

theorem tlFinishCrt (pos : Nat) :
    SameEntries tables (tables.tlFinishCrt tid pos) := by
  simp only [Tables.tlFinishCrt]
  split
  · exact of_scavTable rfl
  · refine trans (of_scavTable ?_) (updateScav _ _ ⟨rfl, rfl, rfl⟩)
    rfl

theorem tlSwapCrts (aPos bPos : Nat) :
    SameEntries tables (tables.tlSwapCrts tid aPos bPos) := by
  have pointed (middle : Tables) (aIdx bIdx : Int) :
      SameEntries middle
        ((middle.updateScav aIdx fun crt =>
            { crt with yc := some (tid, bPos) }).updateScav bIdx
          fun crt => { crt with yc := some (tid, aPos) }) :=
    (updateScav _ _ ⟨rfl, rfl, rfl⟩).trans (updateScav _ _ ⟨rfl, rfl, rfl⟩)
  have moved :=
    (of_scavTable rfl :
      SameEntries tables (tables.updatePrim tid fun ctx =>
        swapSlots ctx aPos bPos)).trans
      (pointed _ ((tables.primTable tid).tlGetCrtIdxAt aPos)
        ((tables.primTable tid).tlGetCrtIdxAt bPos))
  refine moved.trans (of_scavTable ?_)
  simp only [Tables.tlSwapCrts]
  split <;> split <;> simp

theorem packAt (pos : Nat) :
    SameEntries tables (tables.packAt tid pos) := by
  simp only [Tables.packAt]
  split
  · split
    · exact tlSwapCrts tables tid _ _
    · exact of_scavTable rfl
  · exact of_scavTable rfl

theorem moveScav (source : Tid) (fromPos : Nat) (target : Tid)
    (toPos : Nat) :
    SameEntries tables (tables.moveScav source fromPos target toPos) := by
  have moved :
      SameEntries tables
        (tables.updateScav ((tables.primTable source).idxList fromPos)
          fun crt => { crt with yc := some (target, toPos) }) :=
    updateScav _ _ ⟨rfl, rfl, rfl⟩
  exact moved.trans (of_scavTable rfl)

theorem hostScav (idx : Int) (pos : Nat) :
    SameEntries tables (tables.hostScav tid idx pos) := by
  intro other
  simp only [Tables.hostScav]
  by_cases own : other = idx
  · subst other
    rw [updateScav_self, setScavSymbol_scavTable]
    exact ⟨rfl, rfl, rfl⟩
  · rw [updateScav_of_ne _ _ own, setScavSymbol_scavTable]
    exact ⟨rfl, rfl, rfl⟩

theorem lockedRun {target : Tid} (run : LockedRun target first second) :
    SameEntries first second := by
  induction run with
  | refl => exact of_scavTable rfl
  | tail _ taken inductionHypothesis =>
      refine inductionHypothesis.trans ?_
      cases taken with
      | move moved =>
          cases moved
          exact moveScav _ _ _ _ _
      | back back => exact of_scavTable back.scavTable.1
      | host hosted =>
          cases hosted
          exact hostScav _ _ _ _

theorem resumeWith (ret : Nat) (resume : Resume) :
    SameEntries tables (tables.resumeWith tid ret resume) := by
  cases resume <;> exact of_scavTable rfl

end SameEntries

/-- A thread hosts a scavenger. -/
def Hosts (tables : Tables) (tid : Tid) (idx : Int) : Prop :=
  ∃ pos, tables.occupant (tid, pos) = some idx

/-- A thread hosts no scavenger that it did not host before. -/
def HostsNoMore (tid : Tid) (before after : Tables) : Prop :=
  ∀ idx, after.Hosts tid idx → before.Hosts tid idx

namespace HostsNoMore

variable {first second third : Tables} {tid : Tid}

theorem trans
    (earlier : HostsNoMore tid first second)
    (later : HostsNoMore tid second third) :
    HostsNoMore tid first third :=
  fun idx hosts => earlier idx (later idx hosts)

theorem of_idxList
    (same :
      (second.primTable tid).idxList = (first.primTable tid).idxList) :
    HostsNoMore tid first second := by
  rintro idx ⟨pos, held⟩
  refine ⟨pos, ?_⟩
  rwa [occupant_eq_some_iff, ← same, ← occupant_eq_some_iff]

theorem released {owner : Tid} {pos : Nat} {released : Int}
    (change : Released first second owner pos released) :
    HostsNoMore tid first second := by
  rintro idx ⟨query, held⟩
  obtain ⟨isPos, atPos, notFree⟩ := occupant_eq_some_iff.mp held
  refine ⟨query, occupant_eq_some_iff.mpr ⟨isPos, ?_, notFree⟩⟩
  rw [change.idxList] at atPos
  split at atPos
  · exact absurd atPos.symm notFree
  · exact atPos

/-- Whoever is not the taker of a move, or takes it from itself. -/
theorem shifted {source target : Tid} {fromPos toPos : Nat} {idx : Int}
    (change : Shifted first second source fromPos target toPos idx)
    (held : first.occupant (source, fromPos) = some idx)
    (own : tid = target → tid = source) :
    HostsNoMore tid first second := by
  rintro item ⟨query, after⟩
  by_cases isMoved : item = idx
  · obtain ⟨isPos, atPos, notFree⟩ := occupant_eq_some_iff.mp after
    rw [change.idxList] at atPos
    split at atPos
    · next taken =>
        exact ⟨fromPos, by rw [own taken.1, held, isMoved]⟩
    · split at atPos
      · exact absurd atPos.symm notFree
      · exact ⟨query, occupant_eq_some_iff.mpr ⟨isPos, atPos, notFree⟩⟩
  · exact ⟨query, change.occupant_of_ne isMoved after⟩

theorem lockedStep {target : Tid} (taken : LockedStep target first second)
    (different : tid ≠ target) :
    HostsNoMore tid first second := by
  cases taken with
  | move moved =>
      cases moved with
      | move notTarget _ _ isLast room =>
          exact shifted (moveScav_moved notTarget).toShifted
            (MoveStep.slots isLast room).1
            (fun isTarget => absurd isTarget different)
  | back back =>
      obtain ⟨_, _, _, change, held, _⟩ := back.rolledBack
      exact shifted change.toShifted held id
  | host hosted => exact of_idxList (congrArg _ (hosted.other different))

theorem lockedRun {target : Tid} (run : LockedRun target first second)
    (different : tid ≠ target) :
    HostsNoMore tid first second := by
  induction run with
  | refl => exact of_idxList rfl
  | tail _ taken inductionHypothesis =>
      exact inductionHypothesis.trans (lockedStep taken different)

end HostsNoMore

/-- The locked section finishes no scavenger. -/
theorem LockedRun.finished
    {target : Tid} {before after : Tables}
    (run : LockedRun target before after) {idx : Int} (nonneg : 0 ≤ idx) :
    (after.scavTable idx).finished = (before.scavTable idx).finished := by
  induction run with
  | refl => rfl
  | tail _ taken inductionHypothesis =>
      refine Eq.trans ?_ inductionHypothesis
      cases taken with
      | move moved =>
          cases moved with
          | move different =>
              exact (moveScav_moved different).finished idx nonneg
      | back back => rw [back.scavTable.1]
      | host hosted =>
          cases hosted
          exact (hostScav_placed _ _ _ _).finished idx nonneg

/-- What a step of the section hosts was hosted before, or idle. -/
theorem LockedStep.wasHosted
    {target : Tid} {before after : Tables}
    (taken : LockedStep target before after)
    {slot : Tid × Nat} {idx : Int}
    (held : after.occupant slot = some idx) :
    (∃ tid, before.Hosts tid idx) ∨ before.Idle idx = true := by
  cases taken with
  | move moved =>
      cases moved with
      | move notTarget _ _ isLast room =>
          obtain ⟨heldFrom, isTo, _⟩ := MoveStep.slots isLast room
          obtain ⟨earlier, heldBefore⟩ :=
            (moveScav_moved notTarget).toShifted.held_before heldFrom isTo
              held
          exact .inl ⟨earlier.1, earlier.2, heldBefore⟩
  | back back =>
      obtain ⟨_, _, _, change, heldFrom, isPos, _⟩ := back.rolledBack
      obtain ⟨earlier, heldBefore⟩ :=
        change.toShifted.held_before heldFrom isPos held
      exact .inl ⟨earlier.1, earlier.2, heldBefore⟩
  | host hosted =>
      cases hosted with
      | @host placed pos isIdx isIdle room =>
          obtain ⟨isPos, _⟩ := PrimaryThreadCtx.firstFree_eq_some_iff.mp room
          rw [(hostScav_placed before target placed pos).occupant isPos
            isIdx.ne_sentinel] at held
          by_cases here : slot = (target, pos)
          · rw [here, update_self] at held
            exact .inr (Option.some.inj held ▸ isIdle)
          · rw [update_of_ne here] at held
            exact .inl ⟨slot.1, slot.2, held⟩

/-- No step of the section makes a scavenger idle. -/
theorem LockedStep.wasIdle
    {target : Tid} {before after : Tables}
    (taken : LockedStep target before after) (hosting : before.Hosting)
    {idx : Int} (idle : after.Idle idx = true) :
    before.Idle idx = true := by
  cases taken with
  | move moved => exact (moved.idle hosting idx).symm.trans idle
  | back back =>
      rw [Idle, back.scavTable.1] at idle
      exact idle
  | host hosted =>
      cases hosted with
      | @host placed pos isIdx isIdle room =>
          by_cases own : idx = placed
          · exact own ▸ isIdle
          · exact (hostScav_idle own).symm.trans idle

/-- What the locked section hosts was hosted before, or idle. -/
theorem LockedRun.wasHosted
    {target : Tid} {before after : Tables}
    (run : LockedRun target before after) (hosting : before.Hosting)
    {idx : Int}
    (known : (∃ tid, after.Hosts tid idx) ∨ after.Idle idx = true) :
    (∃ tid, before.Hosts tid idx) ∨ before.Idle idx = true := by
  induction run with
  | refl => exact known
  | tail earlier taken inductionHypothesis =>
      refine inductionHypothesis ?_
      have middleHosting := (LockedRun.slotRun earlier).hosting hosting
      rcases known with ⟨tid, pos, held⟩ | idle
      · exact taken.wasHosted held
      · exact .inr (taken.wasIdle middleHosting idle)

/-- The scavenger that `tl_finish_crt` marks as finished, if there is one. -/
def marked (tables : Tables) (tid : Tid) (pos : Nat) : List Int :=
  let crtIdx := (tables.primTable tid).tlGetCrtIdxAt pos
  if crtIdx = -1 then [] else [crtIdx]

end Tables

namespace Config

/-- The scavengers whose `init` a step calls. -/
def initCalls (config : Config) : Action → List Int
  | .initScavs tid => config.tables.initCalls tid
  | _ => []

/-- The scavengers that a step marks as finished. -/
def finishes (config : Config) : Action → List Int
  | .schedNextCrt tid retCrtPos =>
      config.tables.marked tid (retCrtIdx retCrtPos)
  | _ => []

/-- A thread has scavengers whose `init` it is about to call. -/
def Allocated (config : Config) (tid : Tid) : Prop :=
  ∃ resume ret, config.phase tid = .allocated resume ret

/-- What a step does to the scavengers. -/
structure LifeStep (config : Config) (action : Action) (next : Config) :
    Prop where
  libHandle :
    ∀ idx, (next.tables.scavTable idx).libHandle =
      (config.tables.scavTable idx).libHandle
  init :
    ∀ idx, (next.tables.scavTable idx).init =
      (config.tables.scavTable idx).init
  inited :
    ∀ idx, (next.tables.scavTable idx).inited =
      ((config.tables.scavTable idx).inited ||
        decide (idx ∈ config.initCalls action))
  finished :
    ∀ idx, 0 ≤ idx →
      (next.tables.scavTable idx).finished =
        ((config.tables.scavTable idx).finished ||
          decide (idx ∈ config.finishes action))
  hosts :
    ∀ tid, Tables.HostsNoMore tid config.tables next.tables ∨
      next.Allocated tid
  wasHosted :
    ∀ tid idx, next.tables.Hosts tid idx →
      (∃ other, config.tables.Hosts other idx) ∨
        config.tables.Idle idx = true

namespace LifeStep

variable {config : Config} {action : Action} {tables : Tables}
variable {tid : Tid} {phase : Phase}

/-- A step that calls no `init` and gives no thread a scavenger. -/
theorem of_hostsNoMore
    (noInits : config.initCalls action = [])
    (entries : Tables.SameEntries config.tables tables)
    (finished :
      ∀ idx, 0 ≤ idx →
        (tables.scavTable idx).finished =
          ((config.tables.scavTable idx).finished ||
            decide (idx ∈ config.finishes action)))
    (hosts : ∀ tid, Tables.HostsNoMore tid config.tables tables) :
    LifeStep config action (config.goto tid tables phase) where
  libHandle idx := (entries idx).libHandle
  init idx := (entries idx).init
  inited idx := by
    rw [noInits]
    simpa [goto] using (entries idx).inited
  finished := finished
  hosts query := .inl (hosts query)
  wasHosted query idx hosted := .inl ⟨query, hosts query idx hosted⟩

/-- A step that leaves all records of where scavengers are as they are. -/
theorem of_sameSlots
    (noInits : config.initCalls action = [])
    (noFinishes : config.finishes action = [])
    (entries : Tables.SameEntries config.tables tables)
    (same : Tables.SameSlots config.tables tables) :
    LifeStep config action (config.goto tid tables phase) := by
  refine of_hostsNoMore noInits entries ?_ fun _ =>
    .of_idxList (same.idxList _)
  intro idx _
  rw [noFinishes, same.finished]
  simp

/-- Who is in `msh_cleanup` plays no part in this. -/
theorem setCleanup {next : Config} (taken : LifeStep config action next)
    (flag : Bool) :
    LifeStep config action (next.setCleanup tid flag) :=
  ⟨taken.libHandle, taken.init, taken.inited, taken.finished, taken.hosts,
    taken.wasHosted⟩

end LifeStep

end Config

namespace Tables

theorem resumeWith_scavTable
    (tables : Tables) (tid : Tid) (ret : Nat) (resume : Resume) :
    (tables.resumeWith tid ret resume).scavTable = tables.scavTable := by
  cases resume <;> rfl

/-- `tl_finish_crt` marks what it finishes, and gives no thread a scavenger. -/
theorem tlFinishCrt_life
    {tables : Tables} (hosting : tables.Hosting)
    (tid : Tid) {pos : Nat} (inRange : pos ≤ maxCrtPerThread) :
    (∀ idx, 0 ≤ idx →
      ((tables.tlFinishCrt tid pos).scavTable idx).finished =
        ((tables.scavTable idx).finished ||
          decide (idx ∈ tables.marked tid pos))) ∧
      ∀ other, HostsNoMore other tables (tables.tlFinishCrt tid pos) := by
  by_cases free : (tables.primTable tid).idxList pos = -1
  · rw [tlFinishCrt_of_free tables tid inRange free]
    refine ⟨fun idx _ => ?_, fun other => .of_idxList ?_⟩
    · simp [marked, tlGetCrtIdxAt_of_le _ inRange, free]
    · by_cases own : other = tid
      · subst other
        rw [updatePrim_self]
        rfl
      · rw [updatePrim_of_ne _ _ own]
  · have isPos : ScavPos pos := by
      refine ⟨Nat.pos_of_ne_zero ?_, inRange⟩
      rintro rfl
      exact free (hosting.primarySlot tid)
    have held := occupant_eq_some_iff.mpr ⟨isPos, rfl, free⟩
    have change := tlFinishCrt_released tid held
    refine ⟨fun idx nonneg => ?_, fun other => .released change⟩
    rw [change.finished idx nonneg]
    simp only [marked, tlGetCrtIdxAt_of_le _ inRange, if_neg free,
      List.mem_singleton]
    by_cases own : idx = (tables.primTable tid).idxList pos <;> simp [own]

end Tables

namespace Config

variable {config next : Config} {action : Action}

/-- The steps in which a coroutine returns to the scheduler. -/
theorem LifeStep.returned {tid : Tid} {retCrtPos : Nat} {phase : Phase}
    {tables : Tables}
    (hosting : config.tables.Hosting)
    (inRange : retCrtIdx retCrtPos ≤ maxCrtPerThread)
    (scavTable :
      tables.scavTable =
        (config.tables.tlFinishCrt tid (retCrtIdx retCrtPos)).scavTable)
    (idxList :
      ∀ other, (tables.primTable other).idxList =
        ((config.tables.tlFinishCrt tid
          (retCrtIdx retCrtPos)).primTable other).idxList) :
    LifeStep config (.schedNextCrt tid retCrtPos)
      (config.goto tid tables phase) := by
  obtain ⟨finished, hosts⟩ :=
    Tables.tlFinishCrt_life hosting tid inRange
  refine LifeStep.of_hostsNoMore rfl
    ((Tables.SameEntries.tlFinishCrt _ tid _).trans (.of_scavTable scavTable))
    ?_ fun other => (hosts other).trans (.of_idxList (idxList other))
  intro idx nonneg
  rw [scavTable]
  exact finished idx nonneg

theorem LifeStep.allocated {tid : Tid} {resume : Resume} {counts : Nat}
    (inv : config.Inv)
    (isAllocating : config.phase tid = .allocating resume) :
    LifeStep config (.allocateScav tid)
      (config.goto tid (config.tables.allocateScavLocked tid counts).1
        (.allocated resume
          (config.tables.allocateScavLocked tid counts).2)) := by
  have run :=
    Tables.allocateScavLocked_run
      (inv.notFlagged_of_allocating isAllocating) counts
  have entries := Tables.SameEntries.lockedRun run
  refine ⟨fun idx => (entries idx).libHandle, fun idx => (entries idx).init,
    ?_, ?_, ?_, ?_⟩
  · intro idx
    simpa [initCalls, goto] using (entries idx).inited
  · intro idx nonneg
    simpa [finishes, goto] using Tables.LockedRun.finished run nonneg
  · intro other
    by_cases own : other = tid
    · exact .inr ⟨resume, _, by rw [own]; exact update_self ..⟩
    · exact .inl (.lockedRun run own)
  · intro other idx hostsIdx
    exact Tables.LockedRun.wasHosted run inv.hosting (.inl ⟨other, hostsIdx⟩)

theorem LifeStep.initialised {tid : Tid} {resume : Resume} {ret : Nat} :
    LifeStep config (.initScavs tid)
      (config.goto tid
        ((config.tables.initNewScavs tid).resumeWith tid ret resume)
        .app) := by
  have entry := (config.tables.callInits_eq tid).2.entry
  have same :=
    (Tables.SameSlots.initNewScavs config.tables tid).trans
      (.resumeWith _ tid ret resume)
  have scavTable :
      ((config.tables.initNewScavs tid).resumeWith tid ret
        resume).scavTable =
        (config.tables.callInitForNewScav tid).scavTable := by
    rw [Tables.resumeWith_scavTable, Tables.initNewScavs,
      Tables.updatePrim_scavTable]
  refine ⟨?_, ?_, ?_, ?_, fun other => .inl (.of_idxList (same.idxList _)),
    fun other idx hosted =>
      .inl ⟨other,
        Tables.HostsNoMore.of_idxList (same.idxList _) idx hosted⟩⟩
  · intro idx
    simp only [goto, scavTable, entry]
  · intro idx
    simp only [goto, scavTable, entry]
  · intro idx
    simp only [goto, scavTable, entry, initCalls]
    rfl
  · intro idx _
    simp only [goto, scavTable, entry, finishes, List.not_mem_nil,
      decide_false, Bool.or_false]

theorem LifeStep.packed {tid : Tid} {pos : Nat} (isPos : ScavPos pos) :
    LifeStep config (.packCrts tid)
      (config.goto tid (config.tables.packAt tid pos)
        (.packing (pos + 1))) := by
  rcases config.tables.packAt_cases tid isPos with
    ⟨unchanged, _⟩ | ⟨nextPos, swaps, free, later, inRange, held, _⟩
  · rw [unchanged]
    exact .of_sameSlots rfl rfl (.of_scavTable rfl) (.refl _)
  · rw [swaps]
    have isNext : ScavPos nextPos :=
      ⟨Nat.lt_of_le_of_lt (Nat.zero_le _) later, inRange⟩
    have occupied := Tables.occupant_eq_some_iff.mpr ⟨isNext, rfl, held⟩
    have change :=
      Tables.tlSwapCrts_moved tid isPos free occupied
    refine .of_hostsNoMore rfl (.tlSwapCrts _ _ _ _) ?_
      fun other => .shifted change.toShifted occupied id
    intro idx nonneg
    rw [change.finished idx nonneg]
    simp [finishes]

/-- What one step does to the scavengers, whoever takes it. -/
theorem StepCase.life {maxScavPerThread : Int}
    (taken : StepCase maxScavPerThread config action next)
    (inv : config.Inv) :
    LifeStep config action next := by
  cases taken with
  | allocCtx =>
      exact .of_sameSlots rfl rfl (.of_scavTable rfl) (.refl _)
  | finishLast _ _ inRange =>
      refine LifeStep.setCleanup ?_ false
      refine .returned inv.hosting inRange rfl fun other => ?_
      exact ((Tables.SameSlots.tlUpdateNextMap _ _).trans
        (.resetPrimaryNext _ _)).idxList other
  | finishNext _ inRange =>
      refine .returned inv.hosting inRange rfl fun other => ?_
      exact (Tables.SameSlots.tlUpdateNextMap _ _).idxList other
  | finish _ inRange =>
      refine .returned inv.hosting inRange rfl fun other => ?_
      exact (Tables.SameSlots.tlUpdateNextMap _ _).idxList other
  | pack isPacking inLoop =>
      exact .packed ⟨inv.packing _ _ isPacking, inLoop⟩
  | packed =>
      exact .of_sameSlots rfl rfl (.of_scavTable rfl) (.setSpecialNext _ _)
  | allocateNone =>
      exact .of_sameSlots rfl rfl (.resumeWith _ _ _ _) (.resumeWith _ _ _ _)
  | allocateLocked isAllocating =>
      exact .allocated inv isAllocating
  | initScavs =>
      exact .initialised
  | enterBlockableCall =>
      exact .of_sameSlots rfl rfl (.of_scavTable rfl)
        (.setReallocatable _ _ _)
  | exitSlow =>
      exact .of_sameSlots rfl rfl (.of_scavTable rfl)
        (.setReallocatable _ _ _)
  | exitFast =>
      exact .of_sameSlots rfl rfl (.of_scavTable rfl)
        (.setReallocatable _ _ _)
  | @cleanupNone tid =>
      have linked := Tables.SameSlots.linkToSelf config.tables tid
      refine LifeStep.setCleanup ?_ false
      exact .of_sameSlots rfl rfl (.of_scavTable rfl)
        (linked.trans (.resetPrimaryNext _ _))
  | @cleanupNext tid =>
      have linked := Tables.SameSlots.linkToSelf config.tables tid
      have free :
          ((config.tables.updatePrim tid (·.linkToSelf)).primTable
            tid).idxList 0 = -1 := by
        rw [linked.idxList]
        exact inv.hosting.primarySlot tid
      rw [Tables.tlFinishCrt_of_free _ _ (Nat.zero_le _) free]
      refine LifeStep.setCleanup ?_ true
      refine .of_sameSlots rfl rfl (.of_scavTable rfl) (linked.trans ?_)
      refine .updatePrim _ tid rfl ?_
      intro query isQuery
      have notPrimary : query ≠ 0 := by
        have := isQuery.1
        omega
      simp [PrimaryThreadCtx.updateYc, notPrimary]
  | countLoop =>
      exact .of_sameSlots rfl rfl (.of_scavTable rfl)
        (.writeCounter _ _ _ _ _)

/-- What the steps so far have made of the scavengers. -/
structure LifeInv (pool : List PoolEntry) (config : Config)
    (calls : List Int) : Prop where
  inv : config.Inv
  loaded :
    ∀ idx, Tables.ScavIdx idx →
      ((config.tables.scavTable idx).libHandle.isSome = true ↔
        idx < pool.length)
  known :
    ∀ idx, Tables.ScavIdx idx →
      (∃ tid, config.tables.Hosts tid idx) ∨
          (config.tables.scavTable idx).finished = true →
        idx < pool.length
  once : calls.Nodup
  inited :
    ∀ idx, Tables.ScavIdx idx → idx < pool.length →
      ((config.tables.scavTable idx).inited = true ↔ idx ∈ calls)
  called :
    ∀ idx ∈ calls,
      Tables.ScavIdx idx ∧ idx < pool.length ∧
        (config.tables.scavTable idx).init ≠ none
  ready :
    ∀ tid idx, config.tables.Hosts tid idx → ¬ config.Allocated tid →
      (config.tables.scavTable idx).init ≠ none →
        (config.tables.scavTable idx).inited = true

theorem Initial.unfinished {pool : List PoolEntry}
    (initial : Initial pool config) (idx : Nat) :
    (config.tables.scavTable idx).finished = false := by
  obtain ⟨tables, static, rfl⟩ := initial
  simp only [Tables.mshInit, if_neg (Int.not_lt_of_ge (Int.natCast_nonneg _))]
  split
  · rfl
  · exact static.finished idx

theorem Initial.life {pool : List PoolEntry}
    (initial : Initial pool config) :
    LifeInv pool config [] := by
  have inv := initial.inv
  have unfinished := initial.unfinished
  obtain ⟨tables, static, rfl⟩ := initial
  have notHosted (tid : Tid) (idx : Int) :
      ¬ (tables.mshInit pool).Hosts tid idx := by
    rintro ⟨pos, held⟩
    obtain ⟨isPos, atPos, notFree⟩ := Tables.occupant_eq_some_iff.mp held
    have inRange := isPos.2
    simp [Tables.mshInit, PrimaryThreadCtx.initPrimTableEntry,
      inRange] at atPos
    exact notFree atPos.symm
  have entry (idx : Int) (isIdx : Tables.ScavIdx idx) :
      (tables.mshInit pool).scavTable idx =
        (pool[idx.toNat]?.elim { tables.scavTable idx with libHandle := none }
          (tables.scavTable idx).initScavTableEntry) := by
    simp only [Tables.mshInit, if_neg (Int.not_lt_of_ge isIdx.1)]
    cases pool[idx.toNat]? <;> rfl
  refine ⟨inv, ?_, ?_, .nil, ?_, fun _ member => absurd member
    List.not_mem_nil, fun tid idx hosts => absurd hosts (notHosted tid idx)⟩
  · intro idx isIdx
    have nonneg := isIdx.1
    rw [entry idx isIdx]
    by_cases inPool : idx.toNat < pool.length
    · rw [List.getElem?_eq_getElem inPool]
      exact iff_of_true rfl (by omega)
    · rw [List.getElem?_eq_none (Nat.le_of_not_lt inPool)]
      exact iff_of_false Bool.false_ne_true (by omega)
  · rintro idx isIdx (⟨tid, hosts⟩ | isFinished)
    · exact absurd hosts (notHosted tid idx)
    · obtain ⟨index, rfl⟩ := Int.eq_ofNat_of_zero_le isIdx.1
      rw [unfinished index] at isFinished
      cases isFinished
  · intro idx isIdx inPool
    have nonneg := isIdx.1
    rw [entry idx isIdx, List.getElem?_eq_getElem (by omega)]
    exact iff_of_false Bool.false_ne_true List.not_mem_nil

section Steps

variable {maxScavPerThread : Int}

/-- Only hosted scavengers are marked as finished. -/
theorem StepCase.hosts_of_finishes
    (taken : StepCase maxScavPerThread config action next)
    (inv : config.Inv) {idx : Int} (isMarked : idx ∈ config.finishes action) :
    ∃ tid, config.tables.Hosts tid idx := by
  have hosted {tid : Tid} {pos : Nat} (inRange : pos ≤ maxCrtPerThread)
      (member : idx ∈ config.tables.marked tid pos) :
      ∃ tid, config.tables.Hosts tid idx := by
    simp only [Tables.marked, Tables.tlGetCrtIdxAt_of_le _ inRange] at member
    split at member
    · cases member
    · next notFree =>
        obtain rfl := List.mem_singleton.mp member
        have notPrimary : pos ≠ 0 := by
          rintro rfl
          exact notFree (inv.hosting.primarySlot tid)
        exact ⟨tid, pos, Tables.occupant_eq_some_iff.mpr
          ⟨⟨Nat.pos_of_ne_zero notPrimary, inRange⟩, rfl, notFree⟩⟩
  cases taken with
  | finishLast _ _ inRange => exact hosted inRange isMarked
  | finishNext _ inRange => exact hosted inRange isMarked
  | finish _ inRange => exact hosted inRange isMarked
  | _ => cases isMarked

/-- A thread calls the `init` functions before it does anything else. -/
theorem StepCase.eq_initScavs
    (taken : StepCase maxScavPerThread config action next) {tid : Tid}
    (was : config.Allocated tid) (isNot : ¬ next.Allocated tid) :
    action = .initScavs tid := by
  obtain ⟨resume, ret, isAllocated⟩ := was
  have stays {actor : Tid} {phase : Phase}
      (elsewhere : config.phase actor ≠ .allocated resume ret)
      (isNext : next.phase = update config.phase actor phase) :
      action = .initScavs tid := by
    have other : tid ≠ actor := by
      rintro rfl
      exact elsewhere isAllocated
    refine absurd ⟨resume, ret, ?_⟩ isNot
    rw [isNext, update_of_ne other, isAllocated]
  cases taken with
  | allocCtx isAt => exact stays (by simp [isAt]) rfl
  | finishLast isAt => exact stays (by simp [isAt]) rfl
  | finishNext isAt => exact stays (by simp [isAt]) rfl
  | finish isAt => exact stays (by simp [isAt]) rfl
  | pack isAt => exact stays (by simp [isAt]) rfl
  | packed isAt => exact stays (by simp [isAt]) rfl
  | allocateNone isAt => exact stays (by simp [isAt]) rfl
  | allocateLocked isAt => exact stays (by simp [isAt]) rfl
  | @initScavs actor _ _ isAt =>
      by_cases own : tid = actor
      · rw [own]
      · exact absurd ⟨resume, ret, by
          simp only [goto, update_of_ne own, isAllocated]⟩ isNot
  | enterBlockableCall isAt => exact stays (by simp [isAt]) rfl
  | exitSlow isAt => exact stays (by simp [isAt]) rfl
  | exitFast isAt => exact stays (by simp [isAt]) rfl
  | cleanupNone isAt => exact stays (by simp [isAt]) rfl
  | cleanupNext isAt => exact stays (by simp [isAt]) rfl
  | countLoop isAt => exact stays (by simp [isAt]) rfl

/-- What a call of `init` is made for. -/
theorem hosts_of_initCalls {idx : Int}
    (member : idx ∈ config.initCalls action) :
    ∃ tid, config.tables.Hosts tid idx ∧
      (config.tables.scavTable idx).inited = false ∧
      (config.tables.scavTable idx).init ≠ none := by
  cases action with
  | initScavs tid =>
      obtain ⟨notInited, hasInit, pos, isIn, atPos, notFree⟩ :=
        (config.tables.callInits_eq tid).2.called idx member
      rw [List.mem_range'_1] at isIn
      have inRange : pos ≤ maxCrtPerThread := by omega
      rw [Tables.tlGetCrtIdxAt_of_le _ inRange] at atPos
      exact ⟨tid, ⟨pos, Tables.occupant_eq_some_iff.mpr
        ⟨⟨isIn.1, inRange⟩, atPos, notFree⟩⟩, notInited, hasInit⟩
  | _ => cases member

theorem initCalls_nodup (config : Config) (action : Action) :
    (config.initCalls action).Nodup := by
  cases action with
  | initScavs tid => exact (config.tables.callInits_eq tid).2.nodup
  | _ => exact .nil

theorem LifeInv.step {pool : List PoolEntry} {calls : List Int}
    (life : LifeInv pool config calls)
    (taken : StepCase maxScavPerThread config action next) :
    LifeInv pool next (calls ++ config.initCalls action) := by
  have change := taken.life life.inv
  have inTable {tid : Tid} {idx : Int}
      (hosts : config.tables.Hosts tid idx) : Tables.ScavIdx idx :=
    hosts.elim fun _ held => life.inv.hosting.inTable held
  have calledNow {idx : Int} (member : idx ∈ config.initCalls action) :
      Tables.ScavIdx idx ∧ idx < pool.length := by
    obtain ⟨tid, hosts, _⟩ := hosts_of_initCalls member
    exact ⟨inTable hosts, life.known idx (inTable hosts) (.inl ⟨tid, hosts⟩)⟩
  refine ⟨taken.inv life.inv, ?_, ?_, ?_, ?_, ?_, ?_⟩
  · intro idx isIdx
    rw [change.libHandle]
    exact life.loaded idx isIdx
  · rintro idx isIdx (⟨tid, hosts⟩ | isFinished)
    · rcases change.wasHosted tid idx hosts with hosted | idle
      · exact life.known idx isIdx (.inl hosted)
      · exact (life.loaded idx isIdx).mp (Tables.Idle_iff.mp idle).1
    · rw [change.finished idx isIdx.1, Bool.or_eq_true,
        decide_eq_true_eq] at isFinished
      rcases isFinished with already | marked
      · exact life.known idx isIdx (.inr already)
      · exact life.known idx isIdx
          (.inl (taken.hosts_of_finishes life.inv marked))
  · refine List.nodup_append.mpr
      ⟨life.once, initCalls_nodup config action, ?_⟩
    rintro idx before _ again rfl
    obtain ⟨isIdx, inPool, _⟩ := life.called idx before
    obtain ⟨_, _, notInited, _⟩ := hosts_of_initCalls again
    rw [(life.inited idx isIdx inPool).mpr before] at notInited
    cases notInited
  · intro idx isIdx inPool
    rw [change.inited, Bool.or_eq_true, decide_eq_true_eq,
      life.inited idx isIdx inPool, List.mem_append]
  · intro idx member
    rw [change.init]
    rcases List.mem_append.mp member with before | now
    · exact life.called idx before
    · obtain ⟨_, _, _, hasInit⟩ := hosts_of_initCalls now
      exact ⟨(calledNow now).1, (calledNow now).2, hasInit⟩
  · intro tid idx hosts notAllocated hasInit
    rw [change.init] at hasInit
    have wasHosted :=
      ((change.hosts tid).resolve_right notAllocated) idx hosts
    by_cases was : config.Allocated tid
    · obtain rfl := taken.eq_initScavs was notAllocated
      obtain ⟨pos, held⟩ := wasHosted
      obtain ⟨isPos, atPos, notFree⟩ :=
        Tables.occupant_eq_some_iff.mp held
      have covered := (config.tables.callInits_eq tid).2.covers pos
        (List.mem_range'_1.mpr ⟨isPos.1, by have := isPos.2; omega⟩) idx
        ((Tables.tlGetCrtIdxAt_of_le _ isPos.2).trans atPos) notFree hasInit
      rw [(config.tables.callInits_eq tid).2.entry] at covered
      rw [change.inited]
      exact covered
    · rw [change.inited, life.ready tid idx wasHosted was hasInit]
      rfl

end Steps

/--
In every run each `init` is called at most once, and it has been called when
code of its scavenger can run: whenever the thread that hosts the scavenger is
not just about to call it.  However the functions yield, they all come to an
end and leave the slots as they were.
-/
theorem scavengers_initialisedOnce
    {maxScavPerThread : Int} {pool : List PoolEntry}
    {run : List (Action × Config)}
    (initial : Initial pool config)
    (valid : FiniteRun (Step maxScavPerThread) config run) :
    (emitted initCalls config run).Nodup ∧
      (∀ tid idx,
        (lastState config run).tables.Hosts tid idx →
        ¬ (lastState config run).Allocated tid →
          (((lastState config run).tables.scavTable idx).init ≠ none ↔
            idx ∈ emitted initCalls config run)) ∧
      ∀ tid yields,
        (lastState config run).tables.callInits tid yields
            (List.range' 1 maxCrtPerThread) =
          some
            ((lastState config run).tables.callInitForNewScav tid,
              (lastState config run).initCalls (.initScavs tid)) := by
  have life : LifeInv pool (lastState config run)
      ([] ++ emitted initCalls config run) :=
    valid.emitted_invariant
      (fun _ _ _ _ life taken => life.step taken.cases) initial.life
  rw [List.nil_append] at life
  refine ⟨life.once, ?_, ?_⟩
  · intro tid idx hosts ready
    obtain ⟨pos, held⟩ := hosts
    have isIdx := life.inv.hosting.inTable held
    have inPool := life.known idx isIdx (.inl ⟨tid, pos, held⟩)
    constructor
    · intro hasInit
      exact (life.inited idx isIdx inPool).mp
        (life.ready tid idx ⟨pos, held⟩ ready hasInit)
    · intro called
      exact (life.called idx called).2.2
  · intro tid yields
    exact ((lastState config run).tables.callInits_eq tid).1 yields

/-- A pool of two scavengers, the first of which has an `init`. -/
def firstHasInit : List PoolEntry :=
  [⟨0, 0, 0, [], some 64⟩, ⟨1, 0, 0, [], none⟩]

/-- A thread allocates both and returns from the second. -/
def initialisedRun : List (Action × Config) :=
  (started firstHasInit).trace 2
    [.allocCtx 0, .allocateScav 0, .initScavs 0, .schedNextCrt 0 40]

theorem scavengers_initialisedOnce_initialisedRun :
    0 ∈ emitted initCalls (started firstHasInit) initialisedRun := by
  have hosts :
      (lastState (started firstHasInit) initialisedRun).tables.Hosts 0 0 :=
    ⟨1, by decide +kernel⟩
  have packing :
      (lastState (started firstHasInit) initialisedRun).phase 0 =
        .packing 1 := by
    decide +kernel
  have notAllocated :
      ¬ (lastState (started firstHasInit) initialisedRun).Allocated 0 := by
    rintro ⟨resume, ret, isAllocated⟩
    rw [packing] at isAllocated
    cases isAllocated
  refine ((scavengers_initialisedOnce (started_initial firstHasInit)
    (trace_valid 2 _ _)).2.1 0 0 hosts notAllocated).mp ?_
  decide +kernel

end Config

end Msh
