import Msh.Runtime.StepCases

namespace Msh

open Function BoundedSearch SlotAssignment TransitionSystem Config

/-!
# Exclusive ownership of scavengers

In every reachable configuration each scavenger is in one list at most, and
exactly the hosted ones have a back pointer, whatever the threads have
allocated, stolen, packed and finished.  That the back pointer names the slot,
and that `normal_next` marks the free slots, is lost with the first rollback of
`realloc_scav` that finds a free position before the one its scavenger was
popped from, and kept by all other steps.
-/

namespace Tables

/-- `tl_finish_crt` releases an occupied slot and touches no other list. -/
theorem tlFinishCrt_slotStep
    {tables : Tables}
    (primarySlot : ∀ tid, (tables.primTable tid).idxList 0 = -1)
    (tid : Tid) {pos : Nat} (inRange : pos ≤ maxCrtPerThread) :
    SlotStep tables (tables.tlFinishCrt tid pos) := by
  by_cases free : (tables.primTable tid).idxList pos = -1
  · rw [tlFinishCrt_of_free tables tid inRange free]
    refine .same ⟨?_, fun _ => rfl, fun _ => rfl⟩
    intro other
    by_cases same : other = tid
    · subst other
      simp [PrimaryThreadCtx.updateYc]
    · rw [updatePrim_of_ne _ _ same]
  · have notPrimary : pos ≠ 0 := by
      rintro rfl
      exact free (primarySlot tid)
    have held :
        tables.occupant (tid, pos) =
          some ((tables.primTable tid).idxList pos) :=
      occupant_eq_some_iff.mpr ⟨⟨by omega, inRange⟩, rfl, free⟩
    exact .released (tlFinishCrt_released tid held) held

/-- It marks no occupied slot as free but the one it releases. -/
theorem tlFinishCrt_owned
    {tables : Tables} (owned : tables.Owned)
    (tid : Tid) {pos : Nat} (inRange : pos ≤ maxCrtPerThread) :
    (tables.tlFinishCrt tid pos).Owned := by
  by_cases free : (tables.primTable tid).idxList pos = -1
  · rw [tlFinishCrt_of_free tables tid inRange free]
    refine (SameSlots.updatePrim tables tid rfl ?_).owned owned
    intro query isQuery
    by_cases here : query = pos
    · subst query
      simpa [PrimaryThreadCtx.updateYc] using
        (owned.freeSlot tid pos isQuery).mp free
    · simp [PrimaryThreadCtx.updateYc, here]
  · have notPrimary : pos ≠ 0 := by
      rintro rfl
      exact free (owned.primarySlot tid)
    have held :
        tables.occupant (tid, pos) =
          some ((tables.primTable tid).idxList pos) :=
      occupant_eq_some_iff.mpr ⟨⟨by omega, inRange⟩, rfl, free⟩
    exact owned.released (tlFinishCrt_released tid held) held

theorem afterReturn_slotRun
    {tables : Tables}
    (primarySlot : ∀ tid, (tables.primTable tid).idxList 0 = -1)
    (tid : Tid) {pos : Nat} (inRange : pos ≤ maxCrtPerThread) :
    SlotRun tables (tables.afterReturn tid pos) :=
  .tail (.single (tlFinishCrt_slotStep primarySlot tid inRange))
    (.of_sameSlots (.tlUpdateNextMap _ tid))

theorem afterReturn_owned
    {tables : Tables} (owned : tables.Owned)
    (tid : Tid) {pos : Nat} (inRange : pos ≤ maxCrtPerThread) :
    (tables.afterReturn tid pos).Owned :=
  (SameSlots.tlUpdateNextMap _ tid).owned
    (tlFinishCrt_owned owned tid inRange)

/-- A rollback to another position is the end of ownership. -/
theorem BackRun.not_owned
    {target : Tid} {idxs : List Int} {before after : Tables}
    (run : BackRun target idxs before after)
    (owned : before.Owned) (isBack : idxs ≠ []) :
    ∃ tid pos idx, after.occupant (tid, pos) = some idx ∧
      (after.scavTable idx).yc ≠ some (tid, pos) := by
  obtain ⟨tid, fromPos, toPos, idx, heldFrom, heldTo, below⟩ :=
    run.lowers owned.hosting isBack
  refine ⟨tid, toPos, idx, heldTo, ?_⟩
  rw [run.scavTable.1, owned.yc_of_occupant heldFrom]
  intro same
  have := congrArg Prod.snd (Option.some.inj same)
  exact absurd this (Nat.ne_of_gt below)

end Tables

namespace Config

/-- The invariant of the machine. -/
structure Inv (config : Config) : Prop where
  hosting : config.tables.Hosting
  packing : ∀ tid pos, config.phase tid = .packing pos → 1 ≤ pos
  flag :
    ∀ tid, (config.tables.primTable tid).reallocatable = true →
      config.phase tid = .blocked

namespace Inv

variable {config : Config}

/-- A thread that is not in a blockable call does not have its flag set. -/
theorem notFlagged
    (inv : config.Inv) {tid : Tid}
    (notBlocked : config.phase tid ≠ .blocked) :
    (config.tables.primTable tid).reallocatable = false := by
  rw [← Bool.not_eq_true]
  exact fun flagged => notBlocked (inv.flag tid flagged)

/-- The locked section of a thread about to allocate. -/
theorem notFlagged_of_allocating
    (inv : config.Inv) {tid : Tid} {resume : Resume}
    (isAllocating : config.phase tid = .allocating resume) :
    (config.tables.primTable tid).reallocatable = false :=
  inv.notFlagged (by simp [isAllocating])

/-- A step that works on one thread's own entry keeps the invariant. -/
theorem goto_local
    (inv : config.Inv) {tid : Tid} {tables : Tables} {phase : Phase}
    (slots : Tables.SlotRun config.tables tables)
    (other :
      ∀ other, other ≠ tid →
        tables.primTable other = config.tables.primTable other)
    (packing : ∀ pos, phase = .packing pos → 1 ≤ pos)
    (flag :
      (tables.primTable tid).reallocatable = true → phase = .blocked) :
    (config.goto tid tables phase).Inv where
  hosting := slots.hosting inv.hosting
  packing := by
    intro query pos
    by_cases same : query = tid
    · subst query
      simpa [goto] using packing pos
    · simpa [goto, same] using inv.packing query pos
  flag := by
    intro query flagged
    by_cases same : query = tid
    · subst query
      simpa [goto] using flag (by simpa [goto] using flagged)
    · have flaggedBefore :
          (config.tables.primTable query).reallocatable = true := by
        simpa [goto, other query same] using flagged
      simpa [goto, same] using inv.flag query flaggedBefore

/-- A local step of a thread outside a blockable call, to such a phase. -/
theorem goto_unflagged
    (inv : config.Inv) {tid : Tid} {tables : Tables} {phase : Phase}
    (notBlocked : config.phase tid ≠ .blocked)
    (slots : Tables.SlotRun config.tables tables)
    (isLocal : Tables.Local tid config.tables tables)
    (packing : ∀ pos, phase = .packing pos → 1 ≤ pos) :
    (config.goto tid tables phase).Inv := by
  refine inv.goto_local slots isLocal.other packing ?_
  intro flagged
  rw [isLocal.reallocatable, inv.notFlagged notBlocked] at flagged
  cases flagged

/-- The invariant does not ask who is in `msh_cleanup`. -/
theorem setCleanup (inv : config.Inv) (tid : Tid) (flag : Bool) :
    (config.setCleanup tid flag).Inv :=
  ⟨inv.hosting, inv.packing, inv.flag⟩

/-- The locked section keeps the invariant, also for the threads it robs. -/
theorem goto_locked
    (inv : config.Inv) {tid : Tid} {resume : Resume}
    (isAllocating : config.phase tid = .allocating resume)
    (counts : Nat) :
    (config.goto tid (config.tables.allocateScavLocked tid counts).1
      (.allocated resume
        (config.tables.allocateScavLocked tid counts).2)).Inv := by
  have run :=
    Tables.allocateScavLocked_run
      (inv.notFlagged_of_allocating isAllocating) counts
  have flags := Tables.LockedRun.reallocatable run
  refine ⟨(Tables.LockedRun.slotRun run).hosting inv.hosting, ?_, ?_⟩
  · intro other pos
    by_cases same : other = tid
    · subst other
      simp [goto]
    · simpa [goto, same] using inv.packing other pos
  · intro other flaggedAfter
    have flagged :
        (config.tables.primTable other).reallocatable = true := by
      rw [← flags other]
      exact flaggedAfter
    have isBlocked := inv.flag other flagged
    by_cases same : other = tid
    · subst other
      simp [isAllocating] at isBlocked
    · simpa [goto, same] using isBlocked

end Inv

/-- Every step is a run of slot changes. -/
theorem StepCase.slotRun
    {maxScavPerThread : Int} {config next : Config} {action : Action}
    (taken : StepCase maxScavPerThread config action next)
    (inv : config.Inv) :
    Tables.SlotRun config.tables next.tables := by
  have primarySlot := inv.hosting.primarySlot
  cases taken with
  | allocCtx =>
      exact .refl
  | finishLast _ _ inRange =>
      exact .tail (Tables.afterReturn_slotRun primarySlot _ inRange)
        (.of_sameSlots (.resetPrimaryNext _ _))
  | finishNext _ inRange =>
      exact Tables.afterReturn_slotRun primarySlot _ inRange
  | finish _ inRange =>
      exact Tables.afterReturn_slotRun primarySlot _ inRange
  | @pack tid pos isPacking inLoop =>
      exact .single (Tables.packAt_slotStep _ tid
        ⟨inv.packing tid pos isPacking, inLoop⟩)
  | packed =>
      exact .single (.of_sameSlots (.setSpecialNext _ _))
  | allocateNone =>
      exact .single (.of_sameSlots (.resumeWith _ _ _ _))
  | allocateLocked isAllocating =>
      exact Tables.LockedRun.slotRun
        (Tables.allocateScavLocked_run
          (inv.notFlagged_of_allocating isAllocating) _)
  | initScavs =>
      exact .tail (.single (.of_sameSlots (.initNewScavs _ _)))
        (.of_sameSlots (.resumeWith _ _ _ _))
  | enterBlockableCall =>
      exact .single (.of_sameSlots (.setReallocatable _ _ _))
  | exitSlow =>
      exact .single (.of_sameSlots (.setReallocatable _ _ _))
  | exitFast =>
      exact .single (.of_sameSlots (.setReallocatable _ _ _))
  | cleanupNone =>
      exact .tail (.single (.of_sameSlots (.linkToSelf _ _)))
        (.of_sameSlots (.resetPrimaryNext _ _))
  | @cleanupNext tid =>
      have linked := Tables.SameSlots.linkToSelf config.tables tid
      exact .tail (.single (.of_sameSlots linked))
        (Tables.tlFinishCrt_slotStep
          (linked.hosting inv.hosting).primarySlot tid (Nat.zero_le _))
  | countLoop =>
      exact .single (.of_sameSlots (.writeCounter _ _ _ _ _))

/-- Every step keeps the invariant. -/
theorem StepCase.inv
    {maxScavPerThread : Int} {config next : Config} {action : Action}
    (taken : StepCase maxScavPerThread config action next)
    (inv : config.Inv) :
    next.Inv := by
  have slots := taken.slotRun inv
  cases taken with
  | allocCtx isIdle =>
      exact inv.goto_unflagged (by simp [isIdle]) slots (.refl _)
        (by simp)
  | @finishLast tid retCrtPos isApp =>
      have returned : Tables.Local tid config.tables _ :=
        .afterReturn config.tables (retCrtIdx retCrtPos)
      exact (inv.goto_unflagged (by simp [isApp]) slots
        (returned.trans (.updatePrim _ rfl)) (by simp)).setCleanup _ _
  | finishNext isApp =>
      exact inv.goto_unflagged (by simp [isApp]) slots (.afterReturn _ _)
        (by simp)
  | finish isApp =>
      refine inv.goto_unflagged (by simp [isApp]) slots (.afterReturn _ _)
        ?_
      rintro _ ⟨⟩
      exact Nat.le_refl 1
  | pack isPacking =>
      refine inv.goto_unflagged (by simp [isPacking]) slots (.packAt _ _)
        ?_
      rintro _ ⟨⟩
      exact Nat.succ_pos _
  | packed isPacking =>
      exact inv.goto_unflagged (by simp [isPacking]) slots
        (.setSpecialNext _) (by simp)
  | allocateNone isAllocating =>
      have notFlagged := inv.notFlagged_of_allocating isAllocating
      refine inv.goto_local slots
        (fun other => Tables.resumeWith_other _ _ _) (by simp) ?_
      intro flagged
      rw [Tables.resumeWith_reallocatable _ _ _ _ notFlagged] at flagged
      cases flagged
  | allocateLocked isAllocating =>
      exact inv.goto_locked isAllocating _
  | @initScavs tid resume ret isAllocated =>
      have isLocal : Tables.Local tid config.tables _ :=
        .initNewScavs config.tables
      have notFlagged :
          (config.tables.primTable tid).reallocatable = false :=
        inv.notFlagged (by simp [isAllocated])
      refine inv.goto_local slots ?_ (by simp) ?_
      · intro other different
        rw [Tables.resumeWith_other _ _ _ different,
          isLocal.other other different]
      · intro flagged
        rw [Tables.resumeWith_reallocatable _ _ _ _
          (isLocal.reallocatable.trans notFlagged)] at flagged
        cases flagged
  | enterBlockableCall =>
      exact inv.goto_local slots
        (fun other different => Tables.updatePrim_of_ne _ _ different _)
        (by simp) (fun _ => rfl)
  | exitSlow =>
      exact inv.goto_local slots
        (fun other different => Tables.updatePrim_of_ne _ _ different _)
        (by simp) (by simp)
  | exitFast =>
      exact inv.goto_local slots
        (fun other different => Tables.updatePrim_of_ne _ _ different _)
        (by simp) (by simp)
  | cleanupNone isApp =>
      exact (inv.goto_unflagged (by simp [isApp]) slots
        (Tables.Local.trans (.updatePrim _ rfl) (.updatePrim _ rfl))
        (by simp)).setCleanup _ _
  | cleanupNext isApp =>
      exact (inv.goto_unflagged (by simp [isApp]) slots
        (Tables.Local.trans (.updatePrim _ rfl) (.tlFinishCrt _ _))
        (by simp)).setCleanup _ _
  | countLoop isApp =>
      exact inv.goto_unflagged (by simp [isApp]) slots
        (.updatePrim _ rfl) (by simp)

/-- The records agree once `msh_init` has run. -/
theorem Initial.owned
    {pool : List PoolEntry} {config : Config}
    (initial : Initial pool config) :
    config.tables.Owned := by
  obtain ⟨tables, static, rfl⟩ := initial
  have idxList :
      ∀ tid pos, pos ≤ maxCrtPerThread →
        ((tables.mshInit pool).primTable tid).idxList pos = -1 := by
    intro tid pos inRange
    simp [Tables.mshInit, PrimaryThreadCtx.initPrimTableEntry, inRange]
  have yc : ∀ idx, ((tables.mshInit pool).scavTable idx).yc = none := by
    intro idx
    simp only [Tables.mshInit]
    split
    · exact static.yc idx
    · split
      · rfl
      · exact static.yc idx
  have occupant :
      (tables.mshInit pool).occupant = fun _ => none := by
    funext ⟨tid, pos⟩
    by_cases isPos : ScavPos pos
    · exact (Tables.occupant_eq_none_iff isPos).mpr
        (idxList tid pos isPos.2)
    · simp [Tables.occupant, isPos]
  have home : (tables.mshInit pool).home = fun _ => none := by
    funext idx
    simp [Tables.home, yc]
  refine ⟨?_, ?_, ?_, ?_⟩
  · rw [occupant, home]
    exact .empty
  · intro slot idx held
    simp [occupant] at held
  · intro tid pos isPos
    refine iff_of_true (idxList tid pos isPos.2) ?_
    have inRange := isPos.2
    simp [Tables.mshInit, PrimaryThreadCtx.initPrimTableEntry, inRange]
  · intro tid
    exact idxList tid 0 (Nat.zero_le _)

theorem Initial.inv
    {pool : List PoolEntry} {config : Config}
    (initial : Initial pool config) :
    config.Inv := by
  refine ⟨initial.owned.hosting, ?_, ?_⟩
  · obtain ⟨tables, static, rfl⟩ := initial
    exact nofun
  · obtain ⟨tables, static, rfl⟩ := initial
    intro tid flagged
    simp [Tables.mshInit, PrimaryThreadCtx.initPrimTableEntry] at flagged

/-- The invariant holds of every reachable configuration. -/
theorem Reachable.inv
    {maxScavPerThread : Int} {pool : List PoolEntry} {config : Config}
    (reachable : Config.Reachable maxScavPerThread pool config) :
    config.Inv :=
  TransitionSystem.Reachable.invariant
    (fun _ initial => initial.inv)
    (fun _ _ _ inv taken => taken.cases.inv inv)
    reachable

/-- A finished scavenger stays finished. -/
theorem finished_of_finiteRun
    {maxScavPerThread : Int} {config : Config}
    {run : List (Action × Config)}
    (valid : FiniteRun (Step maxScavPerThread) config run)
    (inv : config.Inv)
    {idx : Int} (nonneg : 0 ≤ idx)
    (isFinished : (config.tables.scavTable idx).finished = true) :
    ∀ entry ∈ run,
      (entry.2.tables.scavTable idx).finished = true ∧ entry.2.Inv := by
  induction valid with
  | nil =>
      simp
  | cons taken _ inductionHypothesis =>
      have stepCase := taken.cases
      have nextFinished :=
        (stepCase.slotRun inv).finished nonneg isFinished
      have nextInv := stepCase.inv inv
      intro entry member
      rcases List.mem_cons.mp member with isHead | inRest
      · subst entry
        exact ⟨nextFinished, nextInv⟩
      · exact inductionHypothesis nextInv nextFinished entry inRest

/-- An index of `SCAV_TABLE` occurs in a thread's list at a position. -/
def HostedAt (config : Config) (tid : Tid) (pos : Nat) (idx : Int) : Prop :=
  pos ≤ maxCrtPerThread ∧
    (config.tables.primTable tid).idxList pos = idx ∧ Tables.ScavIdx idx

/-- Under the invariant, occupying a slot is being hosted there. -/
theorem Inv.occupant_iff
    {config : Config} (inv : config.Inv)
    {tid : Tid} {pos : Nat} {idx : Int} :
    config.tables.occupant (tid, pos) = some idx ↔
      config.HostedAt tid pos idx := by
  constructor
  · intro held
    obtain ⟨isPos, atPos, _⟩ := Tables.occupant_eq_some_iff.mp held
    exact ⟨isPos.2, atPos, inv.hosting.inTable held⟩
  · rintro ⟨inRange, atPos, isIdx⟩
    have notPrimary : pos ≠ 0 := by
      rintro rfl
      exact isIdx.ne_sentinel
        (atPos.symm.trans (inv.hosting.primarySlot tid))
    exact Tables.occupant_eq_some_iff.mpr
      ⟨⟨by omega, inRange⟩, atPos, isIdx.ne_sentinel⟩

/-- A finished scavenger is hosted nowhere. -/
theorem Inv.not_hosted_of_finished
    {config : Config} (inv : config.Inv) {idx : Int}
    (isFinished : (config.tables.scavTable idx).finished = true)
    (tid : Tid) (pos : Nat) :
    ¬ config.HostedAt tid pos idx := by
  intro hosted
  have unfinished := inv.hosting.unfinished (inv.occupant_iff.mpr hosted)
  rw [isFinished] at unfinished
  cases unfinished

/--
A scavenger is hosted in at most one slot, its back pointer is set exactly
when it is hosted and then names that slot, once finished it is hosted in no
later state, and a slot is marked free exactly when it hosts nothing.
-/
structure ExclusiveOwnership
    (maxScavPerThread : Int) (config : Config) : Prop where
  once :
    ∀ tid pos other query idx,
      config.HostedAt tid pos idx → config.HostedAt other query idx →
        tid = other ∧ pos = query
  pointed :
    ∀ idx, Tables.ScavIdx idx →
      ((config.tables.scavTable idx).yc ≠ none ↔
        ∃ tid pos, config.HostedAt tid pos idx)
  pointsAt :
    ∀ tid pos idx, config.HostedAt tid pos idx →
      (config.tables.scavTable idx).yc = some (tid, pos)
  finished :
    ∀ idx, Tables.ScavIdx idx →
      (config.tables.scavTable idx).finished = true →
        (∀ tid pos, ¬ config.HostedAt tid pos idx) ∧
          ∀ run, FiniteRun (Step maxScavPerThread) config run →
            ∀ entry ∈ run, ∀ tid pos, ¬ entry.2.HostedAt tid pos idx
  freeSlot :
    ∀ tid pos, ScavPos pos →
      ((config.tables.primTable tid).idxList pos = -1 ↔
        ((config.tables.primTable tid).ycs pos).normalNext = -1)
  inTable :
    ∀ tid pos, pos ≤ maxCrtPerThread →
      (config.tables.primTable tid).idxList pos ≠ -1 →
        ∃ idx, config.HostedAt tid pos idx

/-- Agreement of the records is what the invariant leaves open of it. -/
theorem Inv.exclusiveOwnership_iff_owned
    {maxScavPerThread : Int} {config : Config} (inv : config.Inv) :
    config.ExclusiveOwnership maxScavPerThread ↔ config.tables.Owned := by
  constructor
  · intro exclusive
    have isHome :
        ∀ {slot idx}, config.tables.occupant slot = some idx →
          config.tables.home idx = some slot := by
      rintro ⟨tid, pos⟩ idx held
      rw [Tables.home, if_pos (inv.hosting.inTable held)]
      exact exclusive.pointsAt tid pos idx (inv.occupant_iff.mp held)
    refine ⟨⟨isHome, ?_⟩, inv.hosting.unfinished, exclusive.freeSlot,
      inv.hosting.primarySlot⟩
    intro slot idx placed
    have someSlot : config.tables.home idx ≠ none := by
      rw [placed]
      exact Option.some_ne_none slot
    obtain ⟨other, held⟩ :=
      inv.hosting.assignment.home_iff.mp someSlot
    have same := (isHome held).symm.trans placed
    rw [Option.some.injEq] at same
    rwa [← same]
  · intro owned
    refine ⟨?_, ?_, ?_, ?_, owned.freeSlot, ?_⟩
    · intro tid pos other query idx first second
      have same :=
        owned.assignment.slot_unique (inv.occupant_iff.mpr first)
          (inv.occupant_iff.mpr second)
      simpa using same
    · intro idx isIdx
      rw [inv.hosting.yc_ne_none_iff isIdx]
      constructor
      · rintro ⟨⟨tid, pos⟩, held⟩
        exact ⟨tid, pos, inv.occupant_iff.mp held⟩
      · rintro ⟨tid, pos, hosted⟩
        exact ⟨(tid, pos), inv.occupant_iff.mpr hosted⟩
    · intro tid pos idx hosted
      exact owned.yc_of_occupant (inv.occupant_iff.mpr hosted)
    · intro idx isIdx isFinished
      refine ⟨inv.not_hosted_of_finished isFinished, ?_⟩
      intro run valid entry member
      obtain ⟨stillFinished, entryInv⟩ :=
        finished_of_finiteRun valid inv isIdx.1 isFinished entry member
      exact entryInv.not_hosted_of_finished stillFinished
    · intro tid pos inRange occupied
      have notPrimary : pos ≠ 0 := by
        rintro rfl
        exact occupied (owned.primarySlot tid)
      have held :
          config.tables.occupant (tid, pos) =
            some ((config.tables.primTable tid).idxList pos) :=
        Tables.occupant_eq_some_iff.mpr
          ⟨⟨by omega, inRange⟩, rfl, occupied⟩
      exact ⟨_, inv.occupant_iff.mp held⟩

/-- The scavengers that a step puts back at other positions of their lists. -/
def rolledBackBy (maxScavPerThread : Int) (config : Config) :
    Action → List Int
  | .allocateScav tid =>
      match config.phase tid with
      | .allocating _ =>
          config.tables.rolledBackFor tid
            ((config.tables.primTable tid).needMoreScav
              maxScavPerThread).toNat
      | _ => []
  | _ => []

/-- A step keeps the records in agreement exactly if it puts none back. -/
theorem StepCase.owned_iff
    {maxScavPerThread : Int} {config next : Config} {action : Action}
    (taken : StepCase maxScavPerThread config action next)
    (inv : config.Inv) (owned : config.tables.Owned) :
    next.tables.Owned ↔
      config.rolledBackBy maxScavPerThread action = [] := by
  cases taken with
  | allocCtx =>
      exact iff_of_true owned rfl
  | finishLast _ _ inRange =>
      exact iff_of_true ((Tables.SameSlots.resetPrimaryNext _ _).owned
        (Tables.afterReturn_owned owned _ inRange)) rfl
  | finishNext _ inRange =>
      exact iff_of_true (Tables.afterReturn_owned owned _ inRange) rfl
  | finish _ inRange =>
      exact iff_of_true (Tables.afterReturn_owned owned _ inRange) rfl
  | @pack tid pos isPacking inLoop =>
      exact iff_of_true (Tables.packAt_owned owned tid
        ⟨inv.packing tid pos isPacking, inLoop⟩) rfl
  | packed =>
      exact iff_of_true
        ((Tables.SameSlots.setSpecialNext _ _).owned owned) rfl
  | allocateNone isAllocating noneNeeded =>
      refine iff_of_true
        ((Tables.SameSlots.resumeWith _ _ _ _).owned owned) ?_
      simp [rolledBackBy, isAllocating, noneNeeded, Tables.rolledBackFor,
        Tables.stolen_zero]
  | @allocateLocked tid resume counts isAllocating needed =>
      obtain ⟨moved, back, _, _, _, moves, backs, hosts⟩ :=
        Tables.allocateScavLocked_spec
          (inv.notFlagged_of_allocating isAllocating) counts
      have ownedMoved := moves.owned owned
      simp only [rolledBackBy, isAllocating, needed, Int.toNat_natCast]
      constructor
      · intro ownedAfter
        by_contra isBack
        obtain ⟨other, pos, idx, held, elsewhere⟩ :=
          backs.not_owned ownedMoved isBack
        have same := Tables.HostRun.eq_of_back backs isBack hosts
        simp only [goto, same] at ownedAfter
        exact elsewhere (ownedAfter.yc_of_occupant held)
      · intro noneBack
        rw [noneBack] at backs
        cases backs
        exact Tables.HostRun.owned hosts ownedMoved
  | initScavs =>
      exact iff_of_true ((Tables.SameSlots.resumeWith _ _ _ _).owned
        ((Tables.SameSlots.initNewScavs _ _).owned owned)) rfl
  | enterBlockableCall =>
      exact iff_of_true
        ((Tables.SameSlots.setReallocatable _ _ _).owned owned) rfl
  | exitSlow =>
      exact iff_of_true
        ((Tables.SameSlots.setReallocatable _ _ _).owned owned) rfl
  | exitFast =>
      exact iff_of_true
        ((Tables.SameSlots.setReallocatable _ _ _).owned owned) rfl
  | cleanupNone =>
      exact iff_of_true ((Tables.SameSlots.resetPrimaryNext _ _).owned
        ((Tables.SameSlots.linkToSelf _ _).owned owned)) rfl
  | cleanupNext =>
      exact iff_of_true (Tables.tlFinishCrt_owned
        ((Tables.SameSlots.linkToSelf _ _).owned owned) _
        (Nat.zero_le _)) rfl
  | countLoop =>
      exact iff_of_true
        ((Tables.SameSlots.writeCounter _ _ _ _ _).owned owned) rfl

/--
From `msh_init` on: scavengers are owned exclusively in all states of a run
exactly when no step of the run puts a scavenger back into its list at
another position.
-/
theorem exclusiveOwnership_iff
    {maxScavPerThread : Int} {pool : List PoolEntry} {config : Config}
    {run : List (Action × Config)}
    (initial : Initial pool config)
    (valid : FiniteRun (Step maxScavPerThread) config run) :
    config.ExclusiveOwnership maxScavPerThread ∧
      ((∀ entry ∈ run, entry.2.ExclusiveOwnership maxScavPerThread) ↔
        EveryStep
          (fun before action =>
            before.rolledBackBy maxScavPerThread action = [])
          config run) := by
  refine ⟨initial.inv.exclusiveOwnership_iff_owned.mpr initial.owned, ?_⟩
  refine FiniteRun.forall_states_iff_everyStep
    (fun state => state.Inv ∧ state.tables.Owned) ?_ ?_ valid
    ⟨initial.inv, initial.owned⟩
  · rintro before action after ⟨inv, owned⟩ noneBack taken
    exact ⟨taken.cases.inv inv,
      (taken.cases.owned_iff inv owned).mpr noneBack⟩
  · rintro before action after ⟨inv, owned⟩ taken
    rw [(taken.cases.inv inv).exclusiveOwnership_iff_owned]
    exact taken.cases.owned_iff inv owned

/-- A pool of two scavengers. -/
def twoScavs : List PoolEntry :=
  [⟨0, 0, 0, [], none⟩, ⟨1, 0, 0, [], none⟩]

/-- One thread allocates two scavengers and finishes the first. -/
def finishedFirst : Config :=
  startedRun 2 twoScavs
    [.allocCtx 0, .allocateScav 0, .initScavs 0, .schedNextCrt 0 20]

/-- The records of a run in which a scavenger finishes. -/
theorem exclusiveOwnership_iff_finishedFirst :
    (started twoScavs).ExclusiveOwnership 2 ∧
      ((∀ entry ∈
          (started twoScavs).trace 2
            [.allocCtx 0, .allocateScav 0, .initScavs 0,
              .schedNextCrt 0 20],
          entry.2.ExclusiveOwnership 2) ↔
        EveryStep
          (fun before action => before.rolledBackBy 2 action = [])
          (started twoScavs)
          ((started twoScavs).trace 2
            [.allocCtx 0, .allocateScav 0, .initScavs 0,
              .schedNextCrt 0 20])) :=
  exclusiveOwnership_iff (started_initial twoScavs)
    (trace_valid 2 (started twoScavs) _)

/-- More scavengers than one thread has positions. -/
def crowdedPool : List PoolEntry :=
  (List.range 131).map fun handle => ⟨handle, 0, 0, [], none⟩

/--
The first thread hosts 128 scavengers, the second one 129 and 130 at its
positions 2 and 3, since the scavenger at position 1 has finished in its
`msh_cleanup`.  Both are in blockable calls when a third one allocates.
-/
def holeInDonor : Config :=
  startedRun 1000 crowdedPool
    [.allocCtx 0, .allocateScav 0, .initScavs 0,
      .allocCtx 1, .allocateScav 1, .initScavs 1,
      .cleanup 1, .schedNextCrt 1 20,
      .enterBlockableCall 1, .enterBlockableCall 0, .allocCtx 2]

/-- A thread that puts a scavenger back elsewhere can take that step. -/
theorem exists_step_of_rolledBackBy
    {maxScavPerThread : Int} {config : Config} {action : Action}
    (isBack : config.rolledBackBy maxScavPerThread action ≠ []) :
    ∃ next, Step maxScavPerThread config action next := by
  cases action with
  | allocateScav tid =>
      simp only [rolledBackBy] at isBack
      cases isPhase : config.phase tid with
      | allocating resume =>
          simp only [Step, step?, isPhase]
          split
          · exact ⟨_, rfl⟩
          · exact ⟨_, rfl⟩
      | _ =>
          rw [isPhase] at isBack
          exact absurd rfl isBack
  | _ =>
      exact absurd rfl isBack

/--
Scavenger 130 is popped from position 3 of the second thread when the third
one has no position left, and is put back at position 1.
-/
theorem not_exclusiveOwnership :
    holeInDonor.rolledBackBy 1000 (.allocateScav 2) = [130] ∧
      ¬ ∀ config, Config.Reachable 1000 crowdedPool config →
        config.ExclusiveOwnership 1000 := by
  have isBack :
      holeInDonor.rolledBackBy 1000 (.allocateScav 2) = [130] := by
    decide +kernel
  refine ⟨isBack, ?_⟩
  intro always
  have isReachable :
      Config.Reachable 1000 crowdedPool holeInDonor :=
    startedRun_reachable 1000 crowdedPool _
  have owned :=
    isReachable.inv.exclusiveOwnership_iff_owned.mp (always _ isReachable)
  obtain ⟨next, taken⟩ :=
    exists_step_of_rolledBackBy (isBack ▸ List.cons_ne_nil _ _)
  have nextOwned :=
    (taken.cases.inv isReachable.inv).exclusiveOwnership_iff_owned.mp
      (always next (isReachable.step taken))
  have noneBack :=
    (taken.cases.owned_iff isReachable.inv owned).mp nextOwned
  rw [isBack] at noneBack
  cases noneBack

end Config

end Msh
