import Msh.Runtime.StolenScavs

namespace Msh

open Function BoundedSearch SlotAssignment Config

/-!
# What one step can do

The branches of the step function, one constructor each, and the frame of
every operation that a thread applies to its own entry of `PRIM_TABLE`: the
entries of the other threads, and who holds the flag, are as before.
-/

namespace Tables

/-- `tl_finish_crt` and the `tl_update_next_map` after it. -/
def afterReturn (tables : Tables) (tid : Tid) (pos : Nat) : Tables :=
  (tables.tlFinishCrt tid pos).updatePrim tid (·.tlUpdateNextMap)

end Tables

namespace Config

/-- The branches of `step?`. -/
inductive StepCase (maxScavPerThread : Int) (config : Config) :
    Action → Config → Prop where
  | allocCtx {tid : Tid} :
      config.phase tid = .idle →
      StepCase maxScavPerThread config (.allocCtx tid)
        (config.goto tid config.tables (.allocating .initPrimary))
  /-- The last scavenger that `msh_cleanup` runs has returned. -/
  | finishLast {tid : Tid} {retCrtPos : Nat} :
      config.phase tid = .app →
      config.inCleanup tid = true →
      retCrtIdx retCrtPos ≤ maxCrtPerThread →
      (((config.tables.afterReturn tid
        (retCrtIdx retCrtPos)).primTable tid).ycs 0).normalNext = -1 →
      ((config.tables.afterReturn tid
        (retCrtIdx retCrtPos)).primTable tid).tlFindUnfinishedCrt = 0 →
      StepCase maxScavPerThread config (.schedNextCrt tid retCrtPos)
        ((config.goto tid
          ((config.tables.afterReturn tid
            (retCrtIdx retCrtPos)).updatePrim tid (·.resetPrimaryNext))
          .app).setCleanup tid false)
  /-- The primary is finished and another scavenger remains. -/
  | finishNext {tid : Tid} {retCrtPos : Nat} :
      config.phase tid = .app →
      retCrtIdx retCrtPos ≤ maxCrtPerThread →
      (((config.tables.afterReturn tid
        (retCrtIdx retCrtPos)).primTable tid).ycs 0).normalNext = -1 →
      ((config.tables.afterReturn tid
        (retCrtIdx retCrtPos)).primTable tid).tlFindUnfinishedCrt ≠ 0 →
      StepCase maxScavPerThread config (.schedNextCrt tid retCrtPos)
        (config.goto tid
          (config.tables.afterReturn tid (retCrtIdx retCrtPos)) .app)
  | finish {tid : Tid} {retCrtPos : Nat} :
      config.phase tid = .app →
      retCrtIdx retCrtPos ≤ maxCrtPerThread →
      (((config.tables.afterReturn tid
        (retCrtIdx retCrtPos)).primTable tid).ycs 0).normalNext ≠ -1 →
      StepCase maxScavPerThread config (.schedNextCrt tid retCrtPos)
        (config.goto tid
          (config.tables.afterReturn tid (retCrtIdx retCrtPos))
          (.packing 1))
  | pack {tid : Tid} {pos : Nat} :
      config.phase tid = .packing pos →
      pos ≤ maxCrtPerThread →
      StepCase maxScavPerThread config (.packCrts tid)
        (config.goto tid (config.tables.packAt tid pos)
          (.packing (pos + 1)))
  | packed {tid : Tid} {pos : Nat} :
      config.phase tid = .packing pos →
      maxCrtPerThread < pos →
      StepCase maxScavPerThread config (.packCrts tid)
        (config.goto tid
          (config.tables.updatePrim tid (·.setSpecialNext))
          (.allocating .sched))
  | allocateNone {tid : Tid} {resume : Resume} :
      config.phase tid = .allocating resume →
      (config.tables.primTable tid).needMoreScav maxScavPerThread = 0 →
      StepCase maxScavPerThread config (.allocateScav tid)
        (config.goto tid (config.tables.resumeWith tid 0 resume) .app)
  | allocateLocked {tid : Tid} {resume : Resume} {counts : Nat} :
      config.phase tid = .allocating resume →
      (config.tables.primTable tid).needMoreScav maxScavPerThread =
        counts →
      0 < counts →
      StepCase maxScavPerThread config (.allocateScav tid)
        (config.goto tid
          (config.tables.allocateScavLocked tid counts).1
          (.allocated resume
            (config.tables.allocateScavLocked tid counts).2))
  | initScavs {tid : Tid} {resume : Resume} {ret : Nat} :
      config.phase tid = .allocated resume ret →
      StepCase maxScavPerThread config (.initScavs tid)
        (config.goto tid
          ((config.tables.initNewScavs tid).resumeWith tid ret resume)
          .app)
  | enterBlockableCall {tid : Tid} :
      config.phase tid = .app →
      StepCase maxScavPerThread config (.enterBlockableCall tid)
        (config.goto tid
          (config.tables.updatePrim tid fun ctx =>
            { ctx with reallocatable := true })
          .blocked)
  /-- The call left through the slow path of `msh_exit_blockable_call`. -/
  | exitSlow {tid : Tid} :
      config.phase tid = .blocked →
      (config.tables.primTable tid).reallocatable = true →
      (config.tables.primTable tid).reallocated = true →
      StepCase maxScavPerThread config (.exitBlockableCall tid)
        (config.goto tid
          (config.tables.updatePrim tid fun ctx =>
            { ctx with reallocatable := false })
          (.allocating .exitCall))
  | exitFast {tid : Tid} :
      config.phase tid = .blocked →
      (config.tables.primTable tid).reallocatable = true →
      (config.tables.primTable tid).reallocated = false →
      StepCase maxScavPerThread config (.exitBlockableCall tid)
        (config.goto tid
          (config.tables.updatePrim tid fun ctx =>
            { ctx with reallocatable := false })
          .app)
  | cleanupNone {tid : Tid} :
      config.phase tid = .app →
      ((config.tables.updatePrim tid
        (·.linkToSelf)).primTable tid).tlFindUnfinishedCrt = 0 →
      StepCase maxScavPerThread config (.cleanup tid)
        ((config.goto tid
          ((config.tables.updatePrim tid (·.linkToSelf)).updatePrim
            tid (·.resetPrimaryNext))
          .app).setCleanup tid false)
  | cleanupNext {tid : Tid} :
      config.phase tid = .app →
      StepCase maxScavPerThread config (.cleanup tid)
        ((config.goto tid
          ((config.tables.updatePrim tid (·.linkToSelf)).tlFinishCrt tid 0)
          .app).setCleanup tid true)
  | countLoop {tid : Tid} {pos : Nat} {byte : Fin loopCounterBytes}
      {val : BitVec 8} {loc : Int} :
      config.phase tid = .app →
      config.tables.loopCounterLoc
        ((config.tables.primTable tid).tlGetCrtIdxAt pos) = some loc →
      StepCase maxScavPerThread config (.countLoop tid pos byte val)
        (config.goto tid
          (config.tables.writeCounter tid (Tables.counterArea loc) byte val)
          .app)

/-- `need_more_scav` never returns a negative number. -/
theorem needMoreScav_nonneg (maxScavPerThread : Int)
    (ctx : PrimaryThreadCtx) :
    0 ≤ ctx.needMoreScav maxScavPerThread := by
  unfold PrimaryThreadCtx.needMoreScav
  split <;> omega

/-- Every step is one of the branches. -/
theorem Step.cases
    {maxScavPerThread : Int} {config next : Config} {action : Action}
    (taken : Step maxScavPerThread config action next) :
    StepCase maxScavPerThread config action next := by
  unfold Step at taken
  cases action with
  | allocCtx tid =>
      simp only [step?] at taken
      split at taken
      · next isIdle =>
          cases taken
          exact .allocCtx isIdle
      · cases taken
  | schedNextCrt tid retCrtPos =>
      simp only [step?] at taken
      split at taken
      · next enabled =>
          split at taken
          · next primaryFinished =>
              split at taken
              · next noneLeft =>
                  split at taken
                  · next isCleanup =>
                      cases taken
                      exact .finishLast enabled.1 isCleanup enabled.2
                        primaryFinished noneLeft
                  · cases taken
              · next someLeft =>
                  cases taken
                  exact .finishNext enabled.1 enabled.2 primaryFinished
                    someLeft
          · next primaryRuns =>
              cases taken
              exact .finish enabled.1 enabled.2 primaryRuns
      · cases taken
  | packCrts tid =>
      simp only [step?] at taken
      split at taken
      · next pos isPacking =>
          split at taken
          · next inLoop =>
              cases taken
              exact .pack isPacking (Nat.le_of_lt_succ inLoop)
          · next ended =>
              cases taken
              exact .packed isPacking (Nat.le_of_not_lt ended)
      · cases taken
  | allocateScav tid =>
      simp only [step?] at taken
      split at taken
      · next resume isAllocating =>
          split at taken
          · next noneNeeded =>
              cases taken
              exact .allocateNone isAllocating noneNeeded
          · next needed =>
              cases taken
              have nonneg :=
                needMoreScav_nonneg maxScavPerThread
                  (config.tables.primTable tid)
              exact .allocateLocked isAllocating
                (Int.toNat_of_nonneg nonneg).symm (by omega)
      · cases taken
  | initScavs tid =>
      simp only [step?] at taken
      split at taken
      · next resume ret isAllocated =>
          cases taken
          exact .initScavs isAllocated
      · cases taken
  | enterBlockableCall tid =>
      simp only [step?] at taken
      split at taken
      · next isApp =>
          cases taken
          exact .enterBlockableCall isApp
      · cases taken
  | exitBlockableCall tid =>
      simp only [step?] at taken
      split at taken
      · next isBlocked =>
          split at taken
          · next flagged =>
              split at taken
              · next stolen =>
                  cases taken
                  exact .exitSlow isBlocked flagged stolen
              · next notStolen =>
                  cases taken
                  exact .exitFast isBlocked flagged
                    (Bool.eq_false_iff.mpr notStolen)
          · cases taken
      · cases taken
  | cleanup tid =>
      simp only [step?] at taken
      split at taken
      · next isApp =>
          split at taken
          · next noneLeft =>
              cases taken
              exact .cleanupNone isApp noneLeft
          · cases taken
            exact .cleanupNext isApp
      · cases taken
  | countLoop tid pos byte val =>
      simp only [step?] at taken
      split at taken
      · next enabled =>
          split at taken
          · cases taken
          · next loc located =>
              cases taken
              exact .countLoop enabled located
      · cases taken

end Config

namespace Tables

/--
`after` differs from `before` in one thread's entry of `PRIM_TABLE` at most,
and not in that thread's flag.
-/
structure Local (tid : Tid) (before after : Tables) : Prop where
  other :
    ∀ other, other ≠ tid →
      after.primTable other = before.primTable other
  reallocatable :
    (after.primTable tid).reallocatable =
      (before.primTable tid).reallocatable

namespace Local

variable {tid : Tid} {first second third : Tables}

theorem refl (tables : Tables) : Local tid tables tables :=
  ⟨fun _ _ => rfl, rfl⟩

/-- What two operations leave as it is, both leave as it is. -/
theorem trans
    (earlier : Local tid first second)
    (later : Local tid second third) :
    Local tid first third where
  other other different :=
    (later.other other different).trans (earlier.other other different)
  reallocatable := later.reallocatable.trans earlier.reallocatable

/-- An operation on the other tables leaves the whole `PRIM_TABLE`. -/
theorem of_primTable
    (same : second.primTable = first.primTable) :
    Local tid first second where
  other other _ := by rw [same]
  reallocatable := by rw [same]

/-- An operation on the thread's own entry that keeps the flag -/
theorem updatePrim
    (tables : Tables) {f : PrimaryThreadCtx → PrimaryThreadCtx}
    (reallocatable :
      (f (tables.primTable tid)).reallocatable =
        (tables.primTable tid).reallocatable) :
    Local tid tables (tables.updatePrim tid f) where
  other other different := updatePrim_of_ne _ _ different _
  reallocatable := by simpa using reallocatable

theorem tlUpdateNextMap (tables : Tables) :
    Local tid tables (tables.updatePrim tid (·.tlUpdateNextMap)) := by
  apply updatePrim
  unfold PrimaryThreadCtx.tlUpdateNextMap
  split <;> rfl

/-- `tl_finish_crt` changes the thread's entry and `SCAV_TABLE`. -/
theorem tlFinishCrt (tables : Tables) (pos : Nat) :
    Local tid tables (tables.tlFinishCrt tid pos) := by
  simp only [Tables.tlFinishCrt]
  split
  · exact .updatePrim tables rfl
  · refine Local.trans ?_ (.of_primTable (updateScav_primTable _ _ _))
    exact (Local.updatePrim tables rfl).trans (.updatePrim _ rfl)

theorem afterReturn (tables : Tables) (pos : Nat) :
    Local tid tables (tables.afterReturn tid pos) :=
  (Local.tlFinishCrt tables pos).trans (.tlUpdateNextMap _)

/-- A swap of `tl_pack_crts` stays in the list of the thread. -/
theorem packAt (tables : Tables) (pos : Nat) :
    Local tid tables (tables.packAt tid pos) := by
  simp only [Tables.packAt]
  split
  · split
    · exact
        (Local.updatePrim tables rfl).trans
          (.of_primTable (tlSwapCrts_primTable _ _ _ _))
    · exact .refl tables
  · exact .refl tables

/-- The calls of the inits change no entry of `PRIM_TABLE`. -/
theorem callInitForNewScav (tables : Tables) :
    (tables.callInitForNewScav tid).primTable = tables.primTable := by
  unfold Tables.callInitForNewScav
  generalize List.range' 1 maxCrtPerThread = positions
  induction positions generalizing tables with
  | nil =>
      rfl
  | cons pos rest inductionHypothesis =>
      rw [List.foldl_cons, inductionHypothesis]
      simp only
      split <;> rfl

theorem setSpecialNext (tables : Tables) :
    Local tid tables (tables.updatePrim tid (·.setSpecialNext)) :=
  .updatePrim tables rfl

theorem initNewScavs (tables : Tables) :
    Local tid tables (tables.initNewScavs tid) :=
  (Local.of_primTable (callInitForNewScav tables)).trans
    (.setSpecialNext _)

end Local

/-- A thread that returns from `allocate_scav` holds no flag it did not hold. -/
theorem resumeWith_reallocatable
    (tables : Tables) (tid : Tid) (ret : Nat) (resume : Resume)
    (notFlagged : (tables.primTable tid).reallocatable = false) :
    ((tables.resumeWith tid ret resume).primTable tid).reallocatable =
      false := by
  cases resume with
  | initPrimary =>
      simp [resumeWith, PrimaryThreadCtx.initPrimaryCtx]
  | sched =>
      exact (Local.tlUpdateNextMap tables).reallocatable.trans notFlagged
  | exitCall =>
      have mapped : Local tid tables _ := Local.tlUpdateNextMap tables
      simpa [resumeWith] using mapped.reallocatable.trans notFlagged

/-- The threads that do not return from `allocate_scav` are as before. -/
theorem resumeWith_other
    (tables : Tables) {tid other : Tid} (ret : Nat) (resume : Resume)
    (different : other ≠ tid) :
    (tables.resumeWith tid ret resume).primTable other =
      tables.primTable other := by
  cases resume <;> simp [resumeWith, updatePrim_of_ne, different]

end Tables

end Msh
