import Msh.Runtime.YieldRing

namespace Msh

open Function BoundedSearch SlotAssignment TransitionSystem Config
open PrimaryThreadCtx

/-!
# Every yield has a live target

A run keeps the links of every thread in application code right exactly when
none of its steps is one of four: a return that names the primary's own slot,
a `set_special_next` that runs on a full list, where it takes `scav_num` for
the entry after the last, a slow path of `msh_exit_blockable_call` that still
hosts scavengers, needs no more, and returns without rebuilding the ring that
a theft has broken, and a `tl_update_next_map` that finds no scavenger but a
slot that a rollback during `msh_cleanup` left linked.
-/

namespace Config

/-- `need_more_scav` returns zero for threads that host enough. -/
theorem needMoreScav_eq_zero
    {maxScavPerThread : Int} {ctx : PrimaryThreadCtx} :
    ctx.needMoreScav maxScavPerThread = 0 ↔
      maxScavPerThread ≤ ctx.hostedCount := by
  unfold needMoreScav
  split <;> omega

/-- The entry of a thread that has rebuilt its ring. -/
theorem initNewScavs_primTable (tables : Tables) (tid : Tid) :
    (tables.initNewScavs tid).primTable tid =
      (tables.primTable tid).setSpecialNext := by
  rw [Tables.initNewScavs, Tables.updatePrim_self,
    Tables.Local.callInitForNewScav]

/-- Every yield of every thread in application code has a live target. -/
def YieldTargetsLive (config : Config) : Prop :=
  ∀ tid, config.phase tid = .app → config.inCleanup tid = false →
    (config.tables.primTable tid).LiveTargets

/-- A thread that hosts nothing has a slot that is linked all the same. -/
def StaleLink (ctx : PrimaryThreadCtx) : Prop :=
  ctx.hostedCount = 0 ∧ ctx.tlNextAvailableCrt ≠ 0

instance (ctx : PrimaryThreadCtx) : Decidable (StaleLink ctx) :=
  inferInstanceAs (Decidable (_ ∧ _))

/--
The `allocate_scav` that needs nothing comes back to a dead link: the ring was
broken by a theft, or a slot without a scavenger is linked.
-/
def DeadAfterNone (ctx : PrimaryThreadCtx) : Resume → Prop
  | .initPrimary => False
  | .sched => StaleLink ctx
  | .exitCall => 0 < ctx.hostedCount ∨ StaleLink ctx

/--
The `allocate_scav` that rebuilds the ring comes back to a dead link: the list
is full, or a slot without a scavenger is linked.
-/
def DeadAfterInit (ctx : PrimaryThreadCtx) : Resume → Prop
  | .initPrimary => ctx.idxList maxCrtPerThread ≠ -1
  | _ => ctx.idxList maxCrtPerThread ≠ -1 ∨ StaleLink ctx

instance (ctx : PrimaryThreadCtx) (resume : Resume) :
    Decidable (DeadAfterNone ctx resume) := by
  unfold DeadAfterNone
  split <;> infer_instance

instance (ctx : PrimaryThreadCtx) (resume : Resume) :
    Decidable (DeadAfterInit ctx resume) := by
  unfold DeadAfterInit
  split <;> infer_instance

/-- The steps of threads outside `msh_cleanup` that leave a dead link. -/
def BreaksRing (maxScavPerThread : Int) (config : Config) :
    Action → Prop
  | .schedNextCrt tid retCrtPos =>
      config.inCleanup tid = false ∧ retCrtIdx retCrtPos = 0
  | .allocateScav tid =>
      let ctx := config.tables.primTable tid
      match config.phase tid with
      | .allocating resume =>
          config.inCleanup tid = false ∧
            maxScavPerThread ≤ ctx.hostedCount ∧ DeadAfterNone ctx resume
      | _ => False
  | .initScavs tid =>
      match config.phase tid with
      | .allocated resume _ =>
          config.inCleanup tid = false ∧
            DeadAfterInit (config.tables.primTable tid) resume
      | _ => False
  | _ => False

instance (maxScavPerThread : Int) (config : Config) (action : Action) :
    Decidable (config.BreaksRing maxScavPerThread action) := by
  unfold BreaksRing
  split
  · infer_instance
  · dsimp only
    split <;> infer_instance
  · split <;> infer_instance
  · infer_instance

/-- The invariant behind the links. -/
structure RingInv (config : Config) : Prop where
  links :
    ∀ tid, config.inCleanup tid = false →
      (config.tables.primTable tid).PhaseLinks (config.phase tid)
  robbed :
    ∀ tid, (config.tables.primTable tid).reallocated = true →
      MayBeRobbed (config.phase tid)
  scavNum : ∀ tid, 0 ≤ (config.tables.primTable tid).scavNum

namespace RingInv

variable {config : Config}

/-- In application code the links are right. -/
theorem live (ring : config.RingInv) : config.YieldTargetsLive := by
  intro tid isApp outside
  have links := ring.links tid outside
  rw [isApp] at links
  obtain ⟨hosted, compact, scavLinks, primary, chained⟩ := links
  exact liveTargets_of_chained compact scavLinks primary chained

/--
A step on one thread's own entry keeps the other threads' links; in
`msh_cleanup` the thread's own links need not be right.
-/
theorem gotoCleanup
    (ring : config.RingInv) {tid : Tid} {tables : Tables} {phase : Phase}
    {flag : Bool}
    (other :
      ∀ other, other ≠ tid →
        tables.primTable other = config.tables.primTable other)
    (links : flag = false → (tables.primTable tid).PhaseLinks phase)
    (robbed :
      (tables.primTable tid).reallocated = true → MayBeRobbed phase)
    (scavNum : 0 ≤ (tables.primTable tid).scavNum) :
    ((config.goto tid tables phase).setCleanup tid flag).RingInv where
  links := by
    intro query outside
    by_cases same : query = tid
    · subst query
      simp only [Config.goto, Config.setCleanup, update_self] at outside ⊢
      exact links outside
    · simp only [Config.goto, Config.setCleanup, update_of_ne same]
        at outside ⊢
      rw [other query same]
      exact ring.links query outside
  robbed := by
    intro query isRobbed
    by_cases same : query = tid
    · subst query
      simp only [Config.goto, Config.setCleanup, update_self]
      exact robbed isRobbed
    · simp only [Config.goto, Config.setCleanup, update_of_ne same]
        at isRobbed ⊢
      rw [other query same] at isRobbed
      exact ring.robbed query isRobbed
  scavNum := by
    intro query
    by_cases same : query = tid
    · subst query
      exact scavNum
    · simpa [Config.goto, Config.setCleanup, other query same] using
        ring.scavNum query

/-- The same for a step that neither enters nor leaves `msh_cleanup`. -/
theorem goto
    (ring : config.RingInv) {tid : Tid} {tables : Tables} {phase : Phase}
    (other :
      ∀ other, other ≠ tid →
        tables.primTable other = config.tables.primTable other)
    (links :
      config.inCleanup tid = false →
        (tables.primTable tid).PhaseLinks phase)
    (robbed :
      (tables.primTable tid).reallocated = true → MayBeRobbed phase)
    (scavNum : 0 ≤ (tables.primTable tid).scavNum) :
    (config.goto tid tables phase).RingInv := by
  have kept := ring.gotoCleanup other links robbed scavNum
  simpa [Config.goto, Config.setCleanup] using kept

/-- The same for an update of the thread's own entry. -/
theorem gotoOwn
    (ring : config.RingInv) {tid : Tid} {phase : Phase}
    {f : PrimaryThreadCtx → PrimaryThreadCtx}
    (links :
      config.inCleanup tid = false →
        (f (config.tables.primTable tid)).PhaseLinks phase)
    (robbed :
      (f (config.tables.primTable tid)).reallocated = true →
        MayBeRobbed phase)
    (scavNum :
      (f (config.tables.primTable tid)).scavNum =
        (config.tables.primTable tid).scavNum) :
    (config.goto tid (config.tables.updatePrim tid f) phase).RingInv := by
  refine ring.goto
    (fun _ different => Tables.updatePrim_of_ne _ _ different _) ?_ ?_ ?_
  · rw [Tables.updatePrim_self]
    exact links
  · rw [Tables.updatePrim_self]
    exact robbed
  · rw [Tables.updatePrim_self, scavNum]
    exact ring.scavNum tid

/-- What is known of a thread's links in the phase it is in. -/
theorem links_of
    (ring : config.RingInv) {tid : Tid} {phase : Phase}
    (isPhase : config.phase tid = phase)
    (outside : config.inCleanup tid = false) :
    (config.tables.primTable tid).PhaseLinks phase := by
  rw [← isPhase]
  exact ring.links tid outside

/-- A thread that cannot be robbed was not robbed. -/
theorem not_robbed
    (ring : config.RingInv) {tid : Tid} {phase : Phase}
    (isPhase : config.phase tid = phase)
    (notRobbed : ¬ MayBeRobbed phase) :
    (config.tables.primTable tid).reallocated = false := by
  rw [← Bool.not_eq_true]
  exact fun isRobbed => notRobbed (isPhase ▸ ring.robbed tid isRobbed)

/-- It stays so through steps that leave the mark alone. -/
theorem robbed_of_same
    (ring : config.RingInv) {tid : Tid} {phase after : Phase}
    (isPhase : config.phase tid = phase)
    (notRobbed : ¬ MayBeRobbed phase) {ctx : PrimaryThreadCtx}
    (same :
      ctx.reallocated = (config.tables.primTable tid).reallocated) :
    ctx.reallocated = true → MayBeRobbed after := by
  intro isRobbed
  rw [same, ring.not_robbed isPhase notRobbed] at isRobbed
  cases isRobbed

/-- `scav_num` is only ever set to a number of scavengers. -/
theorem resumeWith_scavNum
    {tables : Tables} {tid : Tid}
    (scavNum : 0 ≤ (tables.primTable tid).scavNum)
    (ret : Nat) (resume : Resume) :
    0 ≤ ((tables.resumeWith tid ret resume).primTable tid).scavNum := by
  cases resume with
  | initPrimary =>
      simp [Tables.resumeWith, initPrimaryCtx]
  | sched =>
      simpa [Tables.resumeWith, tlUpdateNextMap_scavNum] using scavNum
  | exitCall =>
      simpa [Tables.resumeWith, tlUpdateNextMap_scavNum] using scavNum

/-- A thread that returns from `allocate_scav` is not marked as robbed. -/
theorem resumeWith_reallocated
    {tables : Tables} {tid : Tid} {resume : Resume}
    (unrobbed :
      resume = .sched → (tables.primTable tid).reallocated = false)
    (ret : Nat) :
    ((tables.resumeWith tid ret resume).primTable tid).reallocated =
      false := by
  cases resume with
  | initPrimary =>
      simp [Tables.resumeWith, initPrimaryCtx]
  | sched =>
      simpa [Tables.resumeWith, tlUpdateNextMap_reallocated] using
        unrobbed rfl
  | exitCall =>
      simp [Tables.resumeWith]

/-- A return to a scavenger's slot leaves the primary running. -/
theorem running_of_return
    (ring : config.RingInv) {tid : Tid} {pos : Nat}
    (isApp : config.phase tid = .app)
    (outside : config.inCleanup tid = false) (notPrimary : pos ≠ 0) :
    (((config.tables.primTable tid).finishedAt
      pos).tlUpdateNextMap).Running := by
  obtain ⟨_, _, _, primary, _⟩ := ring.links_of isApp outside
  refine tlUpdateNextMap_running ?_
  simpa [Running, finishedAt, update_of_ne notPrimary.symm] using
    running_of_primaryLinked primary

/-- Where the primary still runs, the return was not to its slot. -/
theorem notPrimary_of_running
    {ctx : PrimaryThreadCtx} {pos : Nat}
    (running : ((ctx.finishedAt pos).tlUpdateNextMap).Running) :
    pos ≠ 0 := by
  rintro rfl
  have finished : ((ctx.finishedAt 0).ycs 0).normalNext = -1 := by
    simp [finishedAt]
  rw [tlUpdateNextMap_finished finished] at running
  exact running finished

/-- The locked section keeps the links of all threads. -/
theorem goto_locked
    (ring : config.RingInv) (inv : config.Inv)
    {tid : Tid} {resume : Resume}
    (isAllocating : config.phase tid = .allocating resume)
    (counts : Nat) :
    (config.goto tid (config.tables.allocateScavLocked tid counts).1
      (.allocated resume
        (config.tables.allocateScavLocked tid counts).2)).RingInv := by
  have notFlagged := inv.notFlagged_of_allocating isAllocating
  obtain ⟨_, _, _, _, hostedAfter, _⟩ :=
    Tables.allocateScavLocked_spec notFlagged counts
  have run := Tables.allocateScavLocked_run notFlagged counts
  have takerLinks :
      config.inCleanup tid = false →
        (config.tables.primTable tid).ScavLinks ∧
          ∃ hosted,
            Compact (config.tables.primTable tid).idxList hosted := by
    intro outside
    have links := ring.links_of isAllocating outside
    cases resume with
    | initPrimary =>
        exact ⟨scavLinks_of_empty links, 0, links⟩
    | sched =>
        obtain ⟨_, scavLinks, hosted, compact, _⟩ := links
        exact ⟨scavLinks, hosted, compact⟩
    | exitCall =>
        obtain ⟨_, scavLinks, hosted, compact, _⟩ := links
        exact ⟨scavLinks, hosted, compact⟩
  have donorLinks :
      ∀ other, config.inCleanup other = false →
        (config.tables.primTable other).reallocatable = true →
          (config.tables.primTable other).PhaseLinks .blocked :=
    fun other outside flagged =>
      ring.links_of (inv.flag other flagged) outside
  have linked :
      Tables.LockLinks (fun other => config.inCleanup other = false) tid
        config.tables :=
    ⟨takerLinks, donorLinks⟩
  obtain ⟨linksAfter, frame⟩ :=
    Tables.LockedRun.links notFlagged linked run
  refine ⟨?_, ?_, ?_⟩
  · intro other outside
    by_cases same : other = tid
    · subst other
      simp only [Config.goto, update_self]
      have links := ring.links_of isAllocating outside
      obtain ⟨scavLinks, hosted, compact⟩ := linksAfter.taker outside
      cases resume with
      | initPrimary =>
          have before : Compact _ 0 := links
          rw [before.hostedCount_eq, Nat.zero_add,
            compact.hostedCount_eq] at hostedAfter
          exact ⟨scavLinks, hostedAfter ▸ compact⟩
      | sched =>
          exact ⟨frame.running links.1, scavLinks, hosted, compact⟩
      | exitCall =>
          exact ⟨frame.running links.1, scavLinks, hosted, compact⟩
    · simp only [Config.goto, update_of_ne same]
      by_cases flagged :
          (config.tables.primTable other).reallocatable = true
      · rw [inv.flag other flagged]
        exact linksAfter.donors other outside
          ((Tables.LockedRun.reallocatable run other).trans flagged)
      · rw [Tables.LockedRun.other run same
          (Bool.eq_false_iff.mpr flagged)]
        exact ring.links other outside
  · intro other isRobbed
    by_cases same : other = tid
    · subst other
      have before := ring.robbed _ (frame.reallocated.symm.trans isRobbed)
      rw [isAllocating] at before
      simp only [Config.goto, update_self]
      cases resume with
      | initPrimary => exact before
      | sched => exact before
      | exitCall => exact trivial
    · simp only [Config.goto, update_of_ne same]
      by_cases flagged :
          (config.tables.primTable other).reallocatable = true
      · rw [inv.flag other flagged]
        trivial
      · simp only [Config.goto] at isRobbed
        rw [Tables.LockedRun.other run same
          (Bool.eq_false_iff.mpr flagged)] at isRobbed
        exact ring.robbed other isRobbed
  · intro other
    simp only [Config.goto]
    rw [frame.scavNum]
    exact ring.scavNum other

/-- The slot that a return frees stays free through packing. -/
theorem finish
    (ring : config.RingInv) {tid : Tid} {pos : Nat}
    (isApp : config.phase tid = .app)
    (outside : config.inCleanup tid = false)
    (inRange : pos ≤ maxCrtPerThread)
    (running :
      (((config.tables.afterReturn tid pos).primTable tid).ycs
        0).normalNext ≠ -1) :
    ((config.tables.afterReturn tid pos).primTable tid).PhaseLinks
      (.packing 1) := by
  rw [Tables.afterReturn_primTable inRange] at running ⊢
  have notPrimary := notPrimary_of_running running
  obtain ⟨hosted, compact, scavLinks, primary, _⟩ :=
    ring.links_of isApp outside
  refine ⟨running, ?_, .start _, pos, ⟨by omega, inRange⟩, ?_⟩
  · exact tlUpdateNextMap_scavLinks (finishedAt_scavLinks scavLinks pos)
  · rw [tlUpdateNextMap_idxList]
    simp [finishedAt]

/-- A returned thread's count and robbery mark are as before. -/
theorem afterReturn_fields
    (config : Config) (tid : Tid) {pos : Nat}
    (inRange : pos ≤ maxCrtPerThread) :
    ((config.tables.afterReturn tid pos).primTable tid).scavNum =
        (config.tables.primTable tid).scavNum ∧
      ((config.tables.afterReturn tid pos).primTable tid).reallocated =
        (config.tables.primTable tid).reallocated := by
  rw [Tables.afterReturn_primTable inRange, tlUpdateNextMap_scavNum,
    tlUpdateNextMap_reallocated]
  exact ⟨rfl, rfl⟩

/-- Packing ends with a compact list that is not full. -/
theorem packed
    (ring : config.RingInv) {tid : Tid} {pos : Nat}
    (isPacking : config.phase tid = .packing pos)
    (outside : config.inCleanup tid = false)
    (ended : maxCrtPerThread < pos) :
    ((config.tables.primTable tid).setSpecialNext).PhaseLinks
      (.allocating .sched) := by
  obtain ⟨running, scavLinks, packedBelow, free, isFree, atFree⟩ :=
    ring.links_of isPacking outside
  obtain ⟨hosted, compact⟩ := (packedBelow.mono ended).compact
  have notFull : hosted < maxCrtPerThread := by
    by_contra full
    have upper := isFree.2
    exact compact.occupied isFree.1 (by omega) atFree
  exact ⟨setSpecialNext_running running,
    setSpecialNext_scavLinks scavLinks, hosted, compact,
    setSpecialNext_chained compact notFull⟩

/-- Links without scavengers and without stale ones. -/
theorem links_of_empty
    {ctx : PrimaryThreadCtx} (empty : Compact ctx.idxList 0)
    (primary : (ctx.ycs 0).normalNext = 0) :
    ctx.PhaseLinks .app :=
  ⟨0, empty, scavLinks_of_empty empty, primary, chained_zero ctx⟩

/-- An `allocate_scav` that needs nothing returns to right links, unless the
thread was robbed and still hosts something, or a stale link remains. -/
theorem resumeNone
    (ring : config.RingInv) {tid : Tid} {resume : Resume}
    (isAllocating : config.phase tid = .allocating resume)
    (outside : config.inCleanup tid = false)
    (keeps :
      ¬ DeadAfterNone (config.tables.primTable tid) resume) :
    ((config.tables.resumeWith tid 0 resume).primTable
      tid).PhaseLinks .app := by
  have links := ring.links_of isAllocating outside
  cases resume with
  | initPrimary =>
      simp only [Tables.resumeWith, Tables.updatePrim_self]
      exact links_of_empty links (by simp [initPrimaryCtx])
  | sched =>
      obtain ⟨running, scavLinks, hosted, compact, chained⟩ := links
      simp only [Tables.resumeWith, Tables.updatePrim_self]
      refine tlUpdateNextMap_links compact ?_ running scavLinks chained
      intro none
      by_contra stale
      exact keeps ⟨compact.hostedCount_eq.trans none, stale⟩
  | exitCall =>
      obtain ⟨running, scavLinks, hosted, compact, _⟩ := links
      simp only [DeadAfterNone, StaleLink, not_or, not_and, not_not,
        compact.hostedCount_eq] at keeps
      have none := Nat.eq_zero_of_not_pos keeps.1
      subst none
      simp only [Tables.resumeWith, Tables.updatePrim_self]
      exact tlUpdateNextMap_links compact keeps.2 running scavLinks
        (chained_zero _)

/-- Rebuilding the ring of a list that is not full ends in right links, unless
a stale link remains. -/
theorem resumeLocked
    (ring : config.RingInv) {tid : Tid} {resume : Resume} {ret : Nat}
    (isAllocated : config.phase tid = .allocated resume ret)
    (outside : config.inCleanup tid = false)
    (keeps :
      ¬ DeadAfterInit (config.tables.primTable tid) resume) :
    (((config.tables.initNewScavs tid).resumeWith tid ret
      resume).primTable tid).PhaseLinks .app := by
  have links := ring.links_of isAllocated outside
  have ctxEq := initNewScavs_primTable config.tables tid
  have chained_of :
      ∀ {hosted},
        Compact (config.tables.primTable tid).idxList hosted →
        (config.tables.primTable tid).idxList maxCrtPerThread = -1 →
          (config.tables.primTable tid).setSpecialNext.Chained hosted := by
    intro hosted compact notFull
    refine setSpecialNext_chained compact ?_
    by_contra full
    exact compact.occupied (by decide : 1 ≤ maxCrtPerThread)
      (Nat.le_of_not_lt full) notFull
  have mapped :
      (config.tables.primTable tid).idxList maxCrtPerThread = -1 →
      ¬ StaleLink (config.tables.primTable tid) →
      (config.tables.primTable tid).Running →
      (config.tables.primTable tid).ScavLinks →
      (∃ hosted, Compact (config.tables.primTable tid).idxList hosted) →
        (config.tables.primTable tid).setSpecialNext.tlUpdateNextMap.PhaseLinks
          .app := by
    rintro notFull noneStale running scavLinks ⟨hosted, compact⟩
    refine tlUpdateNextMap_links compact ?_
      (setSpecialNext_running running)
      (setSpecialNext_scavLinks scavLinks) (chained_of compact notFull)
    intro none
    rw [setSpecialNext_tlNextAvailableCrt]
    by_contra stale
    exact noneStale ⟨compact.hostedCount_eq.trans none, stale⟩
  cases resume with
  | initPrimary =>
      obtain ⟨scavLinks, compact⟩ := links
      have chained := chained_of compact (not_not.mp keeps)
      simp only [Tables.resumeWith, Tables.updatePrim_self, ctxEq]
      refine ⟨ret, compact, ?_, ?_, ?_, ?_⟩
      · rintro query ⟨isQuery, held⟩
        rw [initPrimaryCtx_ycs _ _ isQuery.1]
        exact setSpecialNext_scavLinks scavLinks query ⟨isQuery, held⟩
      · simp [PrimaryLinked, initPrimaryCtx]
      · intro pos lower below
        rw [initPrimaryCtx_ycs _ _ lower]
        exact chained.1 pos lower below
      · intro some
        rw [initPrimaryCtx_ycs _ _ some]
        exact chained.2 some
  | sched =>
      obtain ⟨running, scavLinks, compact⟩ := links
      obtain ⟨notFull, noneStale⟩ := not_or.mp keeps
      simp only [Tables.resumeWith, Tables.updatePrim_self, ctxEq]
      exact mapped (not_not.mp notFull) noneStale running scavLinks compact
  | exitCall =>
      obtain ⟨running, scavLinks, compact⟩ := links
      obtain ⟨notFull, noneStale⟩ := not_or.mp keeps
      simp only [Tables.resumeWith, Tables.updatePrim_self, ctxEq]
      exact mapped (not_not.mp notFull) noneStale running scavLinks compact

/-- A thread that hosts nothing leaves `msh_cleanup` with right links. -/
theorem leaveCleanup
    (ring : config.RingInv) {tid : Tid} {tables : Tables}
    (isApp : config.phase tid = .app)
    (other :
      ∀ other, other ≠ tid →
        tables.primTable other = config.tables.primTable other)
    (empty : (tables.primTable tid).tlFindUnfinishedCrt = 0)
    (reallocated :
      (tables.primTable tid).reallocated =
        (config.tables.primTable tid).reallocated)
    (scavNum :
      (tables.primTable tid).scavNum =
        (config.tables.primTable tid).scavNum) :
    ((config.goto tid (tables.updatePrim tid (·.resetPrimaryNext))
      .app).setCleanup tid false).RingInv := by
  refine ring.gotoCleanup ?_ ?_ ?_ ?_
  · intro query different
    rw [Tables.updatePrim_of_ne _ _ different, other query different]
  · intro _
    rw [Tables.updatePrim_self]
    exact links_of_empty (Compact.of_tlFindUnfinishedCrt empty)
      (by simp [resetPrimaryNext, updateYc])
  · rw [Tables.updatePrim_self]
    exact ring.robbed_of_same isApp id reallocated
  · rw [Tables.updatePrim_self]
    exact (ring.scavNum tid).trans_eq scavNum.symm

/-- Returning from `allocate_scav` to right links. -/
theorem gotoResume
    (ring : config.RingInv) {tid : Tid} {tables : Tables} {ret : Nat}
    {resume : Resume}
    (isLocal : Tables.Local tid config.tables tables)
    (links :
      config.inCleanup tid = false →
        ((tables.resumeWith tid ret resume).primTable tid).PhaseLinks .app)
    (unrobbed :
      resume = .sched → (tables.primTable tid).reallocated = false)
    (scavNum : 0 ≤ (tables.primTable tid).scavNum) :
    (config.goto tid (tables.resumeWith tid ret resume) .app).RingInv := by
  refine ring.goto ?_ links ?_ (resumeWith_scavNum scavNum ret resume)
  · intro other different
    rw [Tables.resumeWith_other _ _ _ different,
      isLocal.other other different]
  · rw [resumeWith_reallocated unrobbed]
    exact fun isRobbed => Bool.noConfusion isRobbed

/-- A robbed thread leaves its call with a ring that may be broken. -/
theorem leaveRobbed
    (ring : config.RingInv) {tid : Tid}
    (isBlocked : config.phase tid = .blocked)
    (outside : config.inCleanup tid = false)
    (robbed : (config.tables.primTable tid).reallocated = true) :
    (config.tables.primTable tid).PhaseLinks (.allocating .exitCall) := by
  obtain ⟨running, scavLinks, hosted, compact, state⟩ :=
    ring.links_of isBlocked outside
  rcases state with ⟨notRobbed, _⟩ | ⟨_, dangling⟩
  · rw [robbed] at notRobbed
    cases notRobbed
  · exact ⟨running, scavLinks, hosted, compact, dangling⟩

/-- A thread that was not robbed leaves its call with the ring it had. -/
theorem leaveIntact
    (ring : config.RingInv) {tid : Tid}
    (isBlocked : config.phase tid = .blocked)
    (outside : config.inCleanup tid = false)
    (notRobbed : (config.tables.primTable tid).reallocated = false) :
    (config.tables.primTable tid).PhaseLinks .app := by
  obtain ⟨_, scavLinks, hosted, compact, state⟩ :=
    ring.links_of isBlocked outside
  rcases state with ⟨_, primary, chained⟩ | ⟨robbed, _⟩
  · exact ⟨hosted, compact, scavLinks, primary, chained⟩
  · rw [robbed] at notRobbed
    cases notRobbed

end RingInv

/-- A step that does not break the ring keeps the links of all threads. -/
theorem StepCase.ring
    {maxScavPerThread : Int} {config next : Config} {action : Action}
    (taken : StepCase maxScavPerThread config action next)
    (inv : config.Inv) (ring : config.RingInv)
    (keeps : ¬ config.BreaksRing maxScavPerThread action) :
    next.RingInv := by
  cases taken with
  | @allocCtx tid isIdle =>
      have empty :
          config.inCleanup tid = false →
            (config.tables.primTable tid).PhaseLinks .idle :=
        ring.links_of isIdle
      exact ring.goto (fun _ _ => rfl) empty
        (ring.robbed_of_same isIdle id rfl) (ring.scavNum tid)
  | @finishLast tid retCrtPos isApp _ inRange finished noneLeft =>
      obtain ⟨scavNum, reallocated⟩ :=
        RingInv.afterReturn_fields config tid inRange
      have returned : Tables.Local tid config.tables _ :=
        .afterReturn config.tables (retCrtIdx retCrtPos)
      exact ring.leaveCleanup isApp returned.other noneLeft reallocated
        scavNum
  | @finishNext tid retCrtPos isApp inRange finished =>
      obtain ⟨scavNum, reallocated⟩ :=
        RingInv.afterReturn_fields config tid inRange
      have returned : Tables.Local tid config.tables _ :=
        .afterReturn config.tables (retCrtIdx retCrtPos)
      refine ring.goto returned.other ?_
        (ring.robbed_of_same isApp id reallocated)
        ((ring.scavNum tid).trans_eq scavNum.symm)
      intro outside
      have notPrimary : retCrtIdx retCrtPos ≠ 0 :=
        fun isPrimary => keeps ⟨outside, isPrimary⟩
      rw [Tables.afterReturn_primTable inRange] at finished
      exact absurd finished
        (ring.running_of_return isApp outside notPrimary)
  | @finish tid retCrtPos isApp inRange running =>
      have returned : Tables.Local tid config.tables _ :=
        .afterReturn config.tables (retCrtIdx retCrtPos)
      obtain ⟨scavNum, reallocated⟩ :=
        RingInv.afterReturn_fields config tid inRange
      exact ring.goto returned.other
        (fun outside => ring.finish isApp outside inRange running)
        (ring.robbed_of_same isApp id reallocated)
        ((ring.scavNum tid).trans_eq scavNum.symm)
  | @pack tid pos isPacking inLoop =>
      have isPos : ScavPos pos :=
        ⟨inv.packing tid pos isPacking, inLoop⟩
      obtain ⟨scavNum, reallocated⟩ :=
        Tables.packAt_fields config.tables tid pos
      have packs : Tables.Local tid config.tables _ :=
        .packAt config.tables pos
      exact ring.goto packs.other
        (fun outside =>
          Tables.packAt_links isPos (ring.links_of isPacking outside))
        (ring.robbed_of_same isPacking id reallocated)
        ((ring.scavNum tid).trans_eq scavNum.symm)
  | @packed tid pos isPacking ended =>
      exact ring.gotoOwn
        (fun outside => ring.packed isPacking outside ended)
        (ring.robbed_of_same isPacking id rfl) rfl
  | @allocateNone tid resume isAllocating noneNeeded =>
      refine ring.gotoResume (.refl _) ?_ ?_ (ring.scavNum tid)
      · intro outside
        refine ring.resumeNone isAllocating outside ?_
        intro dead
        refine keeps ?_
        simp only [BreaksRing, isAllocating]
        exact ⟨outside, needMoreScav_eq_zero.mp noneNeeded, dead⟩
      · rintro rfl
        exact ring.not_robbed isAllocating id
  | @allocateLocked tid resume counts isAllocating =>
      exact ring.goto_locked inv isAllocating counts
  | @initScavs tid resume ret isAllocated =>
      refine ring.gotoResume (.initNewScavs config.tables) ?_ ?_ ?_
      · intro outside
        refine ring.resumeLocked isAllocated outside ?_
        intro dead
        refine keeps ?_
        simp only [BreaksRing, isAllocated]
        exact ⟨outside, dead⟩
      · rintro rfl
        rw [initNewScavs_primTable]
        exact ring.not_robbed isAllocated id
      · rw [initNewScavs_primTable]
        exact ring.scavNum tid
  | @enterBlockableCall tid isApp =>
      refine ring.gotoOwn ?_ (fun _ => trivial) rfl
      intro outside
      obtain ⟨hosted, compact, scavLinks, primary, chained⟩ :=
        ring.links_of isApp outside
      exact ⟨running_of_primaryLinked primary, scavLinks, hosted,
        compact, .inl ⟨ring.not_robbed isApp id, primary, chained⟩⟩
  | @exitSlow tid isBlocked _ robbed =>
      exact ring.gotoOwn
        (fun outside => ring.leaveRobbed isBlocked outside robbed)
        (fun _ => trivial) rfl
  | @exitFast tid isBlocked _ notRobbed =>
      refine ring.gotoOwn
        (fun outside => ring.leaveIntact isBlocked outside notRobbed)
        ?_ rfl
      intro isRobbed
      rw [notRobbed] at isRobbed
      cases isRobbed
  | @cleanupNone tid isApp noneLeft =>
      refine ring.leaveCleanup isApp
        (fun _ different => Tables.updatePrim_of_ne _ _ different _)
        noneLeft ?_ ?_
      · rw [Tables.updatePrim_self]
        rfl
      · rw [Tables.updatePrim_self]
        rfl
  | @cleanupNext tid isApp =>
      have finishes : Tables.Local tid
          (config.tables.updatePrim tid (·.linkToSelf)) _ :=
        .tlFinishCrt _ 0
      have ctxEq :
          (((config.tables.updatePrim tid (·.linkToSelf)).tlFinishCrt tid
            0).primTable tid) =
            ((config.tables.primTable tid).linkToSelf).finishedAt 0 := by
        rw [Tables.tlFinishCrt_primTable (Nat.zero_le _),
          Tables.updatePrim_self]
      refine ring.gotoCleanup ?_ (fun outside => Bool.noConfusion outside)
        ?_ ?_
      · intro other different
        rw [finishes.other other different,
          Tables.updatePrim_of_ne _ _ different]
      · rw [ctxEq]
        exact ring.robbed_of_same isApp id rfl
      · rw [ctxEq]
        exact ring.scavNum tid
  | @countLoop tid pos byte val loc isApp =>
      exact ring.gotoOwn (ring.links_of isApp)
        (ring.robbed_of_same isApp id rfl) rfl

/-- Returning from `allocate_scav` does not touch the scavengers' slots. -/
theorem resumeWith_slots
    (tables : Tables) (tid : Tid) (ret : Nat) (resume : Resume) {pos : Nat}
    (lower : 1 ≤ pos) :
    ((tables.resumeWith tid ret resume).primTable tid).ycs pos =
        (tables.primTable tid).ycs pos ∧
      ((tables.resumeWith tid ret resume).primTable tid).idxList =
        (tables.primTable tid).idxList := by
  have notPrimary : pos ≠ 0 := Nat.ne_of_gt lower
  cases resume with
  | initPrimary =>
      simp only [Tables.resumeWith, Tables.updatePrim_self]
      exact ⟨initPrimaryCtx_ycs _ _ lower, rfl⟩
  | sched =>
      simp only [Tables.resumeWith, Tables.updatePrim_self]
      exact ⟨tlUpdateNextMap_ycs _ notPrimary, tlUpdateNextMap_idxList _⟩
  | exitCall =>
      simp only [Tables.resumeWith, Tables.updatePrim_self]
      exact ⟨tlUpdateNextMap_ycs _ notPrimary, tlUpdateNextMap_idxList _⟩

/-- A stale link is taken up by the primary. -/
theorem resumeWith_stale
    {tables : Tables} {tid : Tid} {resume : Resume}
    (stale : StaleLink (tables.primTable tid))
    (running : (tables.primTable tid).Running)
    (notInit : resume ≠ .initPrimary) (ret : Nat) :
    ¬ ((tables.resumeWith tid ret resume).primTable tid).LiveTargets := by
  intro live
  have empty : Compact (tables.primTable tid).idxList 0 :=
    .of_hostedCount stale.1
  have sameList :=
    (resumeWith_slots tables tid ret resume (Nat.le_refl 1)).2
  have noLink := live.primary_of_empty (sameList ▸ empty)
  have linked := tlUpdateNextMap_stale stale.2 running
  cases resume with
  | initPrimary =>
      exact notInit rfl
  | sched =>
      simp only [Tables.resumeWith, Tables.updatePrim_self] at noLink
      exact linked noLink
  | exitCall =>
      simp only [Tables.resumeWith, Tables.updatePrim_self] at noLink
      exact linked noLink

/-- So is the link of a full list's last scavenger, past the list. -/
theorem resumeWith_full
    {tables : Tables} {tid : Tid} {hosted : Nat}
    (compact : Compact (tables.primTable tid).idxList hosted)
    (full : (tables.primTable tid).idxList maxCrtPerThread ≠ -1)
    (scavNum : 0 ≤ (tables.primTable tid).scavNum)
    (ret : Nat) (resume : Resume) :
    ¬ (((tables.initNewScavs tid).resumeWith tid ret resume).primTable
      tid).LiveTargets := by
  have isFull : hosted = maxCrtPerThread := by
    by_contra notFull
    have bound := compact.bound
    exact full (compact.free (by omega) (Nat.le_refl _))
  subst isFull
  obtain ⟨ycs, idxList⟩ :=
    resumeWith_slots (tables.initNewScavs tid) tid ret resume
      (by decide : 1 ≤ maxCrtPerThread)
  rw [initNewScavs_primTable] at ycs idxList
  refine not_liveTargets_of_past ?_ (by decide : 1 ≤ maxCrtPerThread) ?_
  · rw [idxList]
    exact compact
  · rw [ycs]
    exact setSpecialNext_full scavNum

/-- A step that breaks the ring ends in application code with a dead link. -/
theorem StepCase.not_live
    {maxScavPerThread : Int} {config next : Config} {action : Action}
    (taken : StepCase maxScavPerThread config action next)
    (ring : config.RingInv)
    (breaks : config.BreaksRing maxScavPerThread action) :
    ¬ next.YieldTargetsLive := by
  intro live
  cases taken with
  | @finishLast tid retCrtPos _ isCleanup =>
      rw [breaks.1] at isCleanup
      cases isCleanup
  | @finishNext tid retCrtPos isApp inRange finished =>
      have targets := live tid (by simp [Config.goto]) breaks.1
      exact targets.running finished
  | @finish tid retCrtPos isApp inRange running =>
      rw [Tables.afterReturn_primTable inRange] at running
      exact RingInv.notPrimary_of_running running breaks.2
  | @allocateNone tid resume isAllocating noneNeeded =>
      simp only [BreaksRing, isAllocating] at breaks
      obtain ⟨outside, _, dead⟩ := breaks
      have targets :
          ((config.tables.resumeWith tid 0 resume).primTable
            tid).LiveTargets :=
        live tid (by simp [Config.goto]) outside
      have links := ring.links_of isAllocating outside
      cases resume with
      | initPrimary =>
          exact dead
      | sched =>
          exact resumeWith_stale dead links.1 (by simp) 0 targets
      | exitCall =>
          obtain ⟨running, _, hosted, compact, dangling⟩ := links
          rcases dead with some | stale
          · rw [compact.hostedCount_eq] at some
            obtain ⟨ycs, idxList⟩ :=
              resumeWith_slots config.tables tid 0 .exitCall some
            refine not_liveTargets_of_past ?_ some ?_ targets
            · simpa [Config.goto, idxList] using compact
            · simpa [Config.goto, ycs] using dangling.2 some
          · exact resumeWith_stale stale running (by simp) 0 targets
  | @allocateLocked tid resume counts isAllocating needed wanted =>
      simp only [BreaksRing, isAllocating] at breaks
      have none := needMoreScav_eq_zero.mpr breaks.2.1
      omega
  | @initScavs tid resume ret isAllocated =>
      simp only [BreaksRing, isAllocated] at breaks
      obtain ⟨outside, dead⟩ := breaks
      have targets :
          (((config.tables.initNewScavs tid).resumeWith tid ret
            resume).primTable tid).LiveTargets :=
        live tid (by simp [Config.goto]) outside
      have links := ring.links_of isAllocated outside
      have scavNum := ring.scavNum tid
      have staleAfter :
          StaleLink (config.tables.primTable tid) →
            StaleLink
              ((config.tables.initNewScavs tid).primTable tid) := by
        rw [initNewScavs_primTable]
        exact fun stale => ⟨stale.1,
          (setSpecialNext_tlNextAvailableCrt _).trans_ne stale.2⟩
      have runningAfter :
          (config.tables.primTable tid).Running →
            ((config.tables.initNewScavs tid).primTable tid).Running := by
        rw [initNewScavs_primTable]
        exact setSpecialNext_running
      cases resume with
      | initPrimary =>
          exact resumeWith_full links.2 dead scavNum ret _ targets
      | sched =>
          obtain ⟨running, _, hosted, compact⟩ := links
          rcases dead with full | stale
          · exact resumeWith_full compact full scavNum ret _ targets
          · exact resumeWith_stale (staleAfter stale)
              (runningAfter running) (by simp) ret targets
      | exitCall =>
          obtain ⟨running, _, hosted, compact⟩ := links
          rcases dead with full | stale
          · exact resumeWith_full compact full scavNum ret _ targets
          · exact resumeWith_stale (staleAfter stale)
              (runningAfter running) (by simp) ret targets
  | _ => exact breaks

/-- The indices at which `set_special_next` reads `idx_list`. -/
def setSpecialNextReads : List Nat :=
  (List.range' 1 maxCrtPerThread).map fun pos => pos + 1

/--
The indices at which a step may read or write `idx_list`: those of the loops
of the functions it runs, each loop to its end.
-/
def idxListAccesses (config : Config) : Action → List Nat
  | .allocCtx _ => []
  | .schedNextCrt _ retCrtPos =>
      -- `tl_finish_crt` and `tl_find_unfinished_crt`
      retCrtIdx retCrtPos :: List.range' 1 maxCrtPerThread
  | .packCrts tid =>
      match config.phase tid with
      | .packing pos =>
          if pos < maxCrtPerThread + 1 then
            pos :: List.range' (pos + 1) (maxCrtPerThread - pos)
          else setSpecialNextReads
      | _ => []
  | .allocateScav _ =>
      -- `need_more_scav`, `push_back_to_list` and `pop_back_from_list`
      List.range' 1 maxCrtPerThread
  | .initScavs _ =>
      -- `call_init_for_new_scav` and `set_special_next`
      List.range' 1 maxCrtPerThread ++ setSpecialNextReads
  | .enterBlockableCall _ => []
  | .exitBlockableCall _ => []
  | .cleanup _ => 0 :: List.range' 1 maxCrtPerThread
  | .countLoop .. => []

/-- Every access of a step is to an entry of the list. -/
def AccessesInBounds (config : Config) (action : Action) : Prop :=
  ∀ index ∈ config.idxListAccesses action, index ≤ maxCrtPerThread

instance (config : Config) (action : Action) :
    Decidable (config.AccessesInBounds action) :=
  inferInstanceAs (Decidable (∀ _ ∈ _, _))

/-- The steps that run `set_special_next`. -/
def RunsSetSpecialNext (config : Config) : Action → Prop
  | .packCrts tid =>
      match config.phase tid with
      | .packing pos => maxCrtPerThread < pos
      | _ => False
  | .initScavs _ => True
  | _ => False

instance (config : Config) (action : Action) :
    Decidable (config.RunsSetSpecialNext action) := by
  unfold RunsSetSpecialNext
  split
  · split <;> infer_instance
  · infer_instance
  · infer_instance

/-- `set_special_next` always reads one entry past the end of the list. -/
theorem setSpecialNextReads_past :
    maxCrtPerThread + 1 ∈ setSpecialNextReads :=
  List.mem_map.mpr
    ⟨maxCrtPerThread, List.mem_range'_1.mpr (by decide), rfl⟩

/-- No other function's loop reads past the end of the list. -/
theorem StepCase.accessesInBounds_iff
    {maxScavPerThread : Int} {config next : Config} {action : Action}
    (taken : StepCase maxScavPerThread config action next) :
    config.AccessesInBounds action ↔
      ¬ config.RunsSetSpecialNext action := by
  have loop :
      ∀ index ∈ List.range' 1 maxCrtPerThread,
        index ≤ maxCrtPerThread := by
    intro index member
    have := (List.mem_range'_1.mp member).2
    omega
  have past : ¬ maxCrtPerThread + 1 ≤ maxCrtPerThread :=
    Nat.not_succ_le_self _
  unfold AccessesInBounds
  cases taken with
  | finishLast _ _ inRange =>
      exact iff_of_true (List.forall_mem_cons.mpr ⟨inRange, loop⟩) id
  | finishNext _ inRange =>
      exact iff_of_true (List.forall_mem_cons.mpr ⟨inRange, loop⟩) id
  | finish _ inRange =>
      exact iff_of_true (List.forall_mem_cons.mpr ⟨inRange, loop⟩) id
  | @pack tid pos isPacking inLoop =>
      have bound : pos < maxCrtPerThread + 1 := Nat.lt_succ_of_le inLoop
      have notPast : ¬ maxCrtPerThread < pos := Nat.not_lt_of_le inLoop
      simp only [idxListAccesses, RunsSetSpecialNext, isPacking, bound,
        ↓reduceIte, notPast, not_false_eq_true, iff_true]
      refine List.forall_mem_cons.mpr ⟨inLoop, ?_⟩
      intro index member
      have := (List.mem_range'_1.mp member).2
      omega
  | @packed tid pos isPacking ended =>
      have notBound : ¬ pos < maxCrtPerThread + 1 := by omega
      simp only [idxListAccesses, RunsSetSpecialNext, isPacking, notBound,
        ↓reduceIte, ended, not_true_eq_false, iff_false]
      intro inBounds
      exact past (inBounds _ setSpecialNextReads_past)
  | initScavs =>
      refine iff_of_false ?_ (fun notRun => notRun trivial)
      intro inBounds
      exact past (inBounds _
        (List.mem_append_right _ setSpecialNextReads_past))
  | allocateNone =>
      exact iff_of_true loop id
  | allocateLocked =>
      exact iff_of_true loop id
  | cleanupNone =>
      exact iff_of_true
        (List.forall_mem_cons.mpr ⟨Nat.zero_le _, loop⟩) id
  | cleanupNext =>
      exact iff_of_true
        (List.forall_mem_cons.mpr ⟨Nat.zero_le _, loop⟩) id
  | _ => exact iff_of_true (by simp [idxListAccesses]) id

/-- The links are as `PhaseLinks` says once `msh_init` has run. -/
theorem Initial.ring
    {pool : List PoolEntry} {config : Config}
    (initial : Initial pool config) :
    config.RingInv := by
  obtain ⟨tables, static, rfl⟩ := initial
  refine ⟨?_, ?_, ?_⟩
  · intro tid _
    refine .of_all_free ?_
    intro pos isPos
    have inRange := isPos.2
    simp [Tables.mshInit, initPrimTableEntry, inRange]
  · intro tid isRobbed
    simp [Tables.mshInit, initPrimTableEntry] at isRobbed
  · intro tid
    simp [Tables.mshInit, initPrimTableEntry]

/--
From `msh_init` on: every yield has a live target in all states of a run
exactly when no step of the run finishes the primary's slot outside
`msh_cleanup`, rebuilds the ring of a full list, leaves the ring of a robbed
thread broken or takes up a stale link; and all accesses to `idx_list` are in
bounds exactly when no step runs `set_special_next`.
-/
theorem yieldTargetsLive_iff
    {maxScavPerThread : Int} {pool : List PoolEntry} {config : Config}
    {run : List (Action × Config)}
    (initial : Initial pool config)
    (valid : FiniteRun (Step maxScavPerThread) config run) :
    ((∀ entry ∈ run, entry.2.YieldTargetsLive) ↔
        EveryStep
          (fun before action => ¬ before.BreaksRing maxScavPerThread action)
          config run) ∧
      (EveryStep AccessesInBounds config run ↔
        EveryStep
          (fun before action => ¬ before.RunsSetSpecialNext action)
          config run) := by
  constructor
  · refine FiniteRun.forall_states_iff_everyStep
      (fun state => state.Inv ∧ state.RingInv) ?_ ?_ valid
      ⟨initial.inv, initial.ring⟩
    · rintro before action after ⟨inv, ring⟩ keeps taken
      exact ⟨taken.cases.inv inv, taken.cases.ring inv ring keeps⟩
    · rintro before action after ⟨inv, ring⟩ taken
      constructor
      · intro live breaks
        exact taken.cases.not_live ring breaks live
      · intro keeps
        exact (taken.cases.ring inv ring keeps).live
  · exact valid.everyStep_congr fun _ _ _ taken =>
      taken.cases.accessesInBounds_iff

/-- A thread allocates two scavengers, of which one finishes. -/
def ringOfTwo : List (Action × Config) :=
  (started twoScavs).trace 2
    [.allocCtx 0, .allocateScav 0, .initScavs 0, .enterBlockableCall 0,
      .exitBlockableCall 0, .schedNextCrt 0 40]

/-- The links of a small ring are right while it is used. -/
theorem yieldTargetsLive_ringOfTwo :
    ringOfTwo.length = 6 ∧
      (∀ entry ∈ ringOfTwo, entry.2.YieldTargetsLive) ∧
      ¬ EveryStep AccessesInBounds (started twoScavs) ringOfTwo := by
  have links :=
    yieldTargetsLive_iff (started_initial twoScavs)
      (trace_valid 2 (started twoScavs)
        [.allocCtx 0, .allocateScav 0, .initScavs 0, .enterBlockableCall 0,
          .exitBlockableCall 0, .schedNextCrt 0 40])
  exact ⟨by decide +kernel, links.1.mpr (by decide +kernel),
    fun inBounds => absurd (links.2.mp inBounds) (by decide +kernel)⟩

/-- A pool of five scavengers. -/
def fiveScavs : List PoolEntry :=
  [⟨0, 0, 0, [], none⟩, ⟨1, 0, 0, [], none⟩, ⟨2, 0, 0, [], none⟩,
    ⟨3, 0, 0, [], none⟩, ⟨4, 0, 0, [], none⟩]

/--
Thread 2 asks for two scavengers and takes one from thread 0 and two from
thread 1; while it blocks, thread 3 takes one of the three back.
-/
def robbedOnce : Config :=
  startedRun 2 fiveScavs
    ([.allocCtx 1, .allocateScav 1, .initScavs 1,
        .allocCtx 3, .allocateScav 3, .initScavs 3,
        .allocCtx 0, .allocateScav 0, .initScavs 0,
        .enterBlockableCall 0, .enterBlockableCall 1,
        .allocCtx 2, .allocateScav 2, .initScavs 2, .enterBlockableCall 2,
        .schedNextCrt 3 20] ++
      List.replicate 129 (.packCrts 3) ++
      [.allocateScav 3, .exitBlockableCall 2, .allocateScav 2])

/--
Thread 2 still hosts as many scavengers as it may, so its slow path rebuilds
nothing: its second scavenger's special yield leads to the empty position 3.
-/
theorem robbedOnce_deadLink :
    Config.Reachable 2 fiveScavs robbedOnce ∧
      robbedOnce.phase 2 = .app ∧ robbedOnce.inCleanup 2 = false ∧
      (robbedOnce.tables.primTable 2).Occupied 2 ∧
      ((robbedOnce.tables.primTable 2).ycs 2).specialNext = 60 ∧
      ¬ (robbedOnce.tables.primTable 2).Occupied 3 ∧
      ¬ robbedOnce.YieldTargetsLive := by
  have state :
      robbedOnce.phase 2 = .app ∧ robbedOnce.inCleanup 2 = false ∧
        (robbedOnce.tables.primTable 2).idxList 2 ≠ -1 ∧
        ((robbedOnce.tables.primTable 2).ycs 2).specialNext = 60 ∧
        (robbedOnce.tables.primTable 2).idxList 3 = -1 := by
    decide +kernel
  obtain ⟨isApp, outside, held, link, free⟩ := state
  have occupied : (robbedOnce.tables.primTable 2).Occupied 2 :=
    ⟨by decide, held⟩
  have notOccupied : ¬ (robbedOnce.tables.primTable 2).Occupied 3 :=
    fun isOccupied => isOccupied.2 free
  refine ⟨startedRun_reachable 2 fiveScavs _, isApp, outside, occupied, link,
    notOccupied, ?_⟩
  intro live
  have size : (sizeofYieldCtx : Int) = 20 := rfl
  rcases (live 2 isApp outside).special 2 occupied with
    ⟨nextPos, isNext, isLink⟩ | isLink
  · rw [link, size] at isLink
    have isThree : nextPos = 3 := by omega
    subst isThree
    exact notOccupied isNext
  · rw [link] at isLink
    cases isLink

end Config

end Msh
