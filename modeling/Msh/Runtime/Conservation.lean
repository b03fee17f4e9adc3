import Msh.Runtime.ScavengerLife

namespace Msh

open Function Config TransitionSystem

/-!
# No scavenger is lost

Each scavenger of the pool is idle, hosted by one thread or finished, whatever
the threads do, and the number that `tl_sched_next_crt` prints counts the
finished ones and the returns from positions that host nothing.
-/

/-- Three tests of which each item that passes a fourth passes just one. -/
theorem countP_partition {Item : Type} {items : List Item}
    {first second third whole : Item → Bool}
    (exclusive :
      ∀ item ∈ items,
        (first item).toNat + (second item).toNat + (third item).toNat =
          (whole item).toNat) :
    items.countP first + items.countP second + items.countP third =
      items.countP whole := by
  induction items with
  | nil => rfl
  | cons item rest inductionHypothesis =>
      have here := exclusive item List.mem_cons_self
      have later := inductionHypothesis fun other member =>
        exclusive other (List.mem_cons_of_mem _ member)
      have counts (test : Item → Bool) :
          (item :: rest).countP test =
            rest.countP test + (test item).toNat := by
        rw [List.countP_cons]
        cases test item <;> rfl
      rw [counts, counts, counts, counts]
      omega

namespace Tables

/-- The number of scavengers that are marked as finished. -/
def finishedCount (tables : Tables) : Nat :=
  (List.range maxActiveCrtNum).countP fun idx : Nat =>
    (tables.scavTable idx).finished

/-- All positions at which a scavenger can be hosted. -/
def scavSlots : List (Tid × Nat) :=
  (List.finRange maxThreadNum).flatMap fun tid =>
    (List.range' 1 maxCrtPerThread).map fun pos => (tid, pos)

theorem mem_scavSlots {slot : Tid × Nat} :
    slot ∈ scavSlots ↔ ScavPos slot.2 := by
  obtain ⟨tid, pos⟩ := slot
  simp only [scavSlots, List.mem_flatMap, List.mem_finRange, true_and,
    List.mem_map, List.mem_range'_1, Prod.mk.injEq, ScavPos]
  constructor
  · rintro ⟨_, query, inRange, _, rfl⟩
    omega
  · intro isPos
    exact ⟨tid, pos, by omega, rfl, rfl⟩

theorem scavSlots_nodup : scavSlots.Nodup := by
  refine List.nodup_flatMap.mpr ⟨fun tid _ => ?_, ?_⟩
  · exact List.Nodup.map (fun _ _ same => congrArg Prod.snd same)
      List.nodup_range'
  · refine (List.nodup_finRange maxThreadNum).imp fun different slot => ?_
    simp only [List.mem_map]
    rintro ⟨_, _, rfl⟩ ⟨_, _, same⟩
    exact different (congrArg Prod.fst same).symm

/-- What all threads host, counted by the entries of `SCAV_TABLE`. -/
theorem heldBy_eq_countP {tables : Tables} (hosting : tables.Hosting) :
    tables.heldBy (List.finRange maxThreadNum) =
      (List.range maxActiveCrtNum).countP fun idx : Nat =>
        (tables.home idx).isSome := by
  have perm :
      (scavSlots.filterMap tables.occupant).Perm
        (((List.range maxActiveCrtNum).map fun idx : Nat =>
          (idx : Int)).filter fun idx => (tables.home idx).isSome) := by
    refine hosting.assignment.occupants_perm scavSlots_nodup
      (List.Nodup.map (fun _ _ => Int.ofNat.inj) List.nodup_range)
      ?_ ?_
    · intro slot idx held
      exact mem_scavSlots.mpr (occupant_eq_some_iff.mp held).1
    · intro slot idx held
      have isIdx := hosting.inTable held
      refine List.mem_map.mpr ⟨idx.toNat, List.mem_range.mpr ?_,
        Int.toNat_of_nonneg isIdx.1⟩
      exact (Int.toNat_lt isIdx.1).mpr isIdx.2
  have lengths := perm.length_eq
  rw [← List.countP_eq_length_filter, List.countP_map] at lengths
  simp only [comp_def] at lengths
  rw [← lengths]
  rw [scavSlots, List.filterMap_flatMap, List.length_flatMap, heldBy]
  refine congrArg List.sum (List.map_congr_left fun tid _ => ?_)
  rw [List.filterMap_map, List.length_filterMap_eq_countP,
    PrimaryThreadCtx.hostedCount]
  refine List.countP_congr fun pos member => ?_
  rw [List.mem_range'_1] at member
  have isPos : ScavPos pos := by
    unfold ScavPos
    omega
  simp [occupant, isPos]

end Tables

theorem countP_lt_range (bound count : Nat) :
    ((List.range count).countP fun idx => decide (idx < bound)) =
      min bound count := by
  induction count with
  | zero => simp
  | succ count inductionHypothesis =>
      rw [List.range_succ, List.countP_append, inductionHypothesis,
        List.countP_singleton]
      by_cases below : count < bound
      · rw [if_pos (decide_eq_true below)]
        omega
      · rw [if_neg (by simpa using below)]
        omega

namespace Config

variable {config next : Config} {action : Action}

/-- Each loaded scavenger is idle, hosted or finished, and only one of these. -/
theorem LifeInv.conserved {pool : List PoolEntry} {calls : List Int}
    (life : LifeInv pool config calls) :
    config.tables.idleCount +
        config.tables.heldBy (List.finRange maxThreadNum) +
        config.tables.finishedCount =
      min pool.length maxActiveCrtNum := by
  have hosting := life.inv.hosting
  rw [Tables.heldBy_eq_countP hosting, ← countP_lt_range]
  refine countP_partition fun idx member => ?_
  have isIdx : Tables.ScavIdx idx :=
    ⟨Int.natCast_nonneg idx, Int.ofNat_lt.mpr (List.mem_range.mp member)⟩
  have loaded := life.loaded idx isIdx
  have known := life.known idx isIdx
  rw [Tables.home, if_pos isIdx, Tables.Idle]
  cases placed : (config.tables.scavTable idx).yc with
  | some pointer =>
      obtain ⟨slot, held⟩ :=
        (hosting.yc_ne_none_iff isIdx).mp (by simp [placed])
      have unfinished := hosting.unfinished held
      have inPool := known (.inl ⟨slot.1, slot.2, held⟩)
      simp [unfinished, Int.ofNat_lt.mp inPool]
  | none =>
      cases isFinished : (config.tables.scavTable idx).finished with
      | true =>
          have inPool := known (.inr isFinished)
          simp [Int.ofNat_lt.mp inPool]
      | false =>
          rw [Int.ofNat_lt] at loaded
          by_cases inPool : idx < pool.length
          · simp [inPool, loaded.mpr inPool]
          · have notLoaded :
                (config.tables.scavTable idx).libHandle.isSome = false :=
              Bool.eq_false_iff.mpr fun isLoaded =>
                inPool (loaded.mp isLoaded)
            simp [inPool, notLoaded]

/-- The steps at which `tl_sched_next_crt` increments `finished_scav_cnt`. -/
def counted (_ : Config) : Action → List Action
  | .schedNextCrt tid retCrtPos =>
      if retCrtIdx retCrtPos ≠ 0 then [.schedNextCrt tid retCrtPos] else []
  | _ => []

/-- Those at which no scavenger is hosted at the position returned from. -/
def countedEmpty (config : Config) (action : Action) : List Action :=
  if config.finishes action = [] then config.counted action else []

/-- `finished_scav_cnt` after a run. -/
def finishedScavCnt (config : Config) (run : List (Action × Config)) : Nat :=
  (emitted counted config run).length

theorem countP_eq_index {idx : Int} (isIdx : Tables.ScavIdx idx) :
    ((List.range maxActiveCrtNum).countP fun query : Nat =>
      decide ((query : Int) = idx)) = 1 := by
  have nonneg := isIdx.1
  have below := isIdx.2
  have member : idx.toNat ∈ List.range maxActiveCrtNum :=
    List.mem_range.mpr ((Int.toNat_lt nonneg).mpr below)
  rw [← List.count_eq_one_of_mem List.nodup_range member, List.count]
  refine List.countP_congr fun query _ => ?_
  simp only [decide_eq_true_eq, beq_iff_eq]
  omega

/-- A step finishes what it marks. -/
theorem LifeInv.finishedCount_step
    {maxScavPerThread : Int} {pool : List PoolEntry} {calls : List Int}
    (life : LifeInv pool config calls)
    (taken : StepCase maxScavPerThread config action next) :
    next.tables.finishedCount =
      config.tables.finishedCount + (config.finishes action).length := by
  have change := taken.life life.inv
  have after (idx : Nat) := change.finished idx (Int.natCast_nonneg idx)
  have marks :
      config.finishes action = [] ∨
        ∃ idx, config.finishes action = [idx] := by
    cases action with
    | schedNextCrt tid retCrtPos =>
        simp only [finishes, Tables.marked]
        split
        · exact .inl rfl
        · exact .inr ⟨_, rfl⟩
    | _ => exact .inl rfl
  rcases marks with none | ⟨idx, one⟩
  · simp only [none, List.not_mem_nil, decide_false, Bool.or_false] at after
    simp only [Tables.finishedCount, after, none, List.length_nil,
      Nat.add_zero]
  · obtain ⟨tid, pos, held⟩ :=
      taken.hosts_of_finishes life.inv (one ▸ List.mem_singleton_self idx)
    have isIdx := life.inv.hosting.inTable held
    have unfinished := life.inv.hosting.unfinished held
    rw [one, List.length_singleton, ← countP_eq_index isIdx]
    have parts :
        config.tables.finishedCount +
            ((List.range maxActiveCrtNum).countP fun query : Nat =>
              decide ((query : Int) = idx)) +
            ((List.range maxActiveCrtNum).countP fun _ => false) =
          next.tables.finishedCount := by
      refine countP_partition fun query _ => ?_
      simp only [after, one, List.mem_singleton]
      by_cases own : (query : Int) = idx
      · simp [own, unfinished]
      · simp [own]
    rw [← parts, List.countP_false, Function.const_apply, Nat.add_zero]

/-- The primary's position hosts nothing, so that its return is not counted. -/
theorem counted_length (hosting : config.tables.Hosting) (action : Action) :
    (config.counted action).length =
      (config.finishes action).length +
        (config.countedEmpty action).length := by
  cases action with
  | schedNextCrt tid retCrtPos =>
      simp only [countedEmpty, finishes, Tables.marked]
      by_cases free :
          (config.tables.primTable tid).tlGetCrtIdxAt
            (retCrtIdx retCrtPos) = -1
      · simp [free]
      · have notPrimary : retCrtIdx retCrtPos ≠ 0 := by
          intro isPrimary
          rw [isPrimary, Tables.tlGetCrtIdxAt_of_le _ (Nat.zero_le _)] at free
          exact free (hosting.primarySlot tid)
        simp [free, counted, notPrimary]
  | _ => rfl

/--
The number that is printed when a scavenger returns is ahead of the number of
scavengers that are finished by the returns from empty positions.
-/
theorem finishedScavCnt_eq
    {maxScavPerThread : Int} {pool : List PoolEntry} {calls : List Int}
    {run : List (Action × Config)}
    (life : LifeInv pool config calls)
    (valid : FiniteRun (Step maxScavPerThread) config run) :
    config.tables.finishedCount + finishedScavCnt config run =
      (lastState config run).tables.finishedCount +
        (emitted countedEmpty config run).length := by
  unfold finishedScavCnt
  induction valid generalizing calls with
  | nil => rfl
  | @cons before after action rest taken _ inductionHypothesis =>
      have later := inductionHypothesis (life.step taken.cases)
      have grows := life.finishedCount_step taken.cases
      have counts :
          (before.counted action).length =
            (before.finishes action).length +
              (before.countedEmpty action).length :=
        counted_length life.inv.hosting action
      simp only [emitted, lastState, List.length_append]
      omega

/--
In every run, whatever the threads do and in whatever order: each scavenger of
the pool is idle, hosted by one thread or finished, so that none is lost and
none is there twice; and the number of finished ones that is printed is too
big by the returns from positions that host nothing.
-/
theorem scavengers_conserved
    {maxScavPerThread : Int} {pool : List PoolEntry}
    {run : List (Action × Config)}
    (initial : Initial pool config)
    (valid : FiniteRun (Step maxScavPerThread) config run) :
    (lastState config run).tables.idleCount +
          (lastState config run).tables.heldBy (List.finRange maxThreadNum) +
          (lastState config run).tables.finishedCount =
        min pool.length maxActiveCrtNum ∧
      finishedScavCnt config run =
        (lastState config run).tables.finishedCount +
          (emitted countedEmpty config run).length := by
  have life : LifeInv pool (lastState config run)
      ([] ++ emitted initCalls config run) :=
    valid.emitted_invariant
      (fun _ _ _ _ life taken => life.step taken.cases) initial.life
  have counts := finishedScavCnt_eq initial.life valid
  have noneFinished : config.tables.finishedCount = 0 :=
    List.countP_eq_zero.mpr fun idx _ =>
      Bool.eq_false_iff.mp (initial.unfinished idx)
  rw [noneFinished, Nat.zero_add] at counts
  exact ⟨life.conserved, counts⟩

theorem scavengers_conserved_initialisedRun :
    finishedScavCnt (started firstHasInit) initialisedRun = 1 := by
  have counts := (scavengers_conserved (started_initial firstHasInit)
    (trace_valid 2 _ _ : FiniteRun _ _ initialisedRun)).2
  refine counts.trans ?_
  decide +kernel

end Config

end Msh
