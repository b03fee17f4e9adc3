import Msh.Library.SupplyInTurn
import Msh.Runtime.Ownership

namespace Msh

open Function BoundedSearch SlotAssignment SupplyInTurn Config

/-!
# The demand of `allocate_scav`

How many scavengers a call adds to a list.  The donors are suppliers that are
asked in turn, each for the whole demand; the pool is a reserve that is asked
for what is still missing.
-/

namespace Tables

/-- The pool entries that `_allocate_scav` may take. -/
def idleCount (tables : Tables) : Nat :=
  (List.range maxActiveCrtNum).countP fun idx : Nat => tables.Idle idx

/-- The threads whose flag is set, in the order of `PRIM_TABLE`. -/
def flaggedTids (tables : Tables) : List Tid :=
  (List.finRange maxThreadNum).filter fun tid =>
    (tables.primTable tid).reallocatable

/-- The scavengers that some flagged threads host. -/
def heldBy (tables : Tables) (tids : List Tid) : Nat :=
  (tids.map fun tid => (tables.primTable tid).hostedCount).sum

/-- The scavengers that a call could take. -/
def available (tables : Tables) : Nat :=
  tables.idleCount + tables.heldBy tables.flaggedTids

/-- The first loop takes what the donors supply. -/
theorem stolen_length
    (tables : Tables) (demands : Nat) (tids : List Tid)
    (room retCounts : Nat) :
    (tables.stolen demands tids room retCounts).length =
      supplied demands
        ((tids.filter fun tid => (tables.primTable tid).reallocatable).map
          fun tid => (tables.primTable tid).hostedCount)
        room retCounts := by
  induction tids generalizing room retCounts with
  | nil =>
      rfl
  | cons tid rest inductionHypothesis =>
      by_cases flagged : (tables.primTable tid).reallocatable = true
      · simp only [stolen, flagged, ↓reduceIte, List.filter_cons,
          List.map_cons, supplied]
        split
        · exact length_lastHosted _ (by omega)
        · rw [List.length_append, inductionHypothesis,
            length_lastHosted _ (by omega)]
      · simp only [stolen, flagged, Bool.false_eq_true, ↓reduceIte,
          List.filter_cons, inductionHypothesis]

/-- The first loop returns from `_allocate_scav` when the demand is met. -/
theorem stealScavs_returned
    {tables : Tables} {target : Tid} {demands : Nat} {tids : List Tid}
    {retCounts : Nat} (missing : retCounts < demands) :
    let result := tables.stealScavs target demands tids retCounts
    result.2.2 = decide (demands ≤ result.2.1) := by
  induction tids generalizing tables retCounts with
  | nil =>
      exact (decide_eq_false (Nat.not_le_of_lt missing)).symm
  | cons tid rest inductionHypothesis =>
      simp only [stealScavs]
      split
      · split
        · next met =>
            simpa using met
        · next notMet =>
            exact inductionHypothesis (Nat.lt_of_not_le notMet)
      · exact inductionHypothesis missing

/-- Moving a hosted scavenger makes no pool entry idle or busy. -/
theorem MoveStep.idle
    {target : Tid} {moved : Int} {before after : Tables}
    (taken : MoveStep target moved before after)
    (hosting : before.Hosting) (idx : Int) :
    after.Idle idx = before.Idle idx := by
  cases taken with
  | @move source fromPos toPos _ _ atFrom isLast room =>
      subst atFrom
      obtain ⟨held, _, _⟩ := MoveStep.slots isLast room
      have pointed :
          (before.scavTable
            ((before.primTable source).idxList fromPos)).yc ≠ none :=
        (hosting.yc_ne_none_iff (hosting.inTable held)).mpr ⟨_, held⟩
      by_cases same : idx = (before.primTable source).idxList fromPos
      · simp [Idle, moveScav, same, pointed]
      · simp [Idle, moveScav, same]

/-- Nor does the first loop of the locked section. -/
theorem StealRun.idle
    {target : Tid} {moved back : List Int} {before after : Tables}
    (run : StealRun target moved back before after)
    (hosting : before.Hosting) (idx : Int) :
    after.Idle idx = before.Idle idx := by
  obtain ⟨middle, moves, backs⟩ := run
  have middleIdle : middle.Idle idx = before.Idle idx := by
    clear backs
    induction moves with
    | nil =>
        rfl
    | cons taken _ inductionHypothesis =>
        rw [inductionHypothesis (taken.slotStep.hosting hosting),
          taken.idle hosting]
  rw [← middleIdle, Idle, Idle, backs.scavTable.1]

/-- Hosting a scavenger leaves the other pool entries as they are. -/
theorem hostScav_idle
    {tables : Tables} {target : Tid} {hosted idx : Int} {pos : Nat}
    (different : idx ≠ hosted) :
    (tables.hostScav target hosted pos).Idle idx = tables.Idle idx := by
  simp [Idle, hostScav, updateScav_of_ne, different]

/-- The second loop takes what is missing, as far as pool and list allow. -/
theorem takeFromPool_count
    {tables : Tables} {target : Tid} (demands : Nat) {idxs : List Nat}
    (nodup : idxs.Nodup) (inTable : ∀ idx ∈ idxs, idx < maxActiveCrtNum)
    {retCounts : Nat} (missing : retCounts < demands) :
    (tables.takeFromPool target demands idxs retCounts).2 =
      retCounts +
        min (demands - retCounts)
          (min (idxs.countP fun idx : Nat => tables.Idle idx)
            (maxCrtPerThread - (tables.primTable target).hostedCount)) := by
  induction idxs generalizing tables retCounts with
  | nil =>
      simp [takeFromPool]
  | cons idx rest inductionHypothesis =>
      obtain ⟨notInRest, restNodup⟩ := List.nodup_cons.mp nodup
      have restInTable : ∀ other ∈ rest, other < maxActiveCrtNum :=
        fun other member => inTable other (List.mem_cons_of_mem _ member)
      by_cases idle : tables.Idle idx = true
      · simp only [takeFromPool, idle, ↓reduceIte, List.countP_cons]
        cases room :
            PrimaryThreadCtx.firstFree
              (tables.primTable target).idxList with
        | none =>
            have isFull := PrimaryThreadCtx.firstFree_eq_none_iff.mp room
            simp [isFull]
        | some pos =>
            have isIdx : ScavIdx idx :=
              ⟨Int.natCast_nonneg _,
                Int.ofNat_lt.mpr (inTable idx List.mem_cons_self)⟩
            have hosted :=
              (HostStep.host isIdx idle room).hostedCount
            have bound :=
              ((tables.hostScav target idx pos).primTable
                target).hostedCount_le
            simp only
            split
            · simp only
              omega
            · next notMet =>
                have sameIdle :
                    (rest.countP fun other : Nat =>
                        (tables.hostScav target idx pos).Idle other) =
                      rest.countP fun other : Nat =>
                        tables.Idle other := by
                  apply List.countP_congr
                  intro other member
                  have different : (other : Int) ≠ idx := by
                    rintro same
                    obtain rfl := Int.ofNat_inj.mp same
                    exact notInRest member
                  rw [hostScav_idle different]
                rw [inductionHypothesis restNodup restInTable
                  (Nat.lt_of_not_le notMet), sameIdle]
                omega
      · simp only [takeFromPool, idle, Bool.false_eq_true, ↓reduceIte,
          List.countP_cons, Nat.add_zero]
        exact inductionHypothesis restNodup restInTable missing

/-- A call takes what donors and pool supply. -/
theorem allocateScavLocked_count
    {tables : Tables} {target : Tid} (hosting : tables.Hosting)
    (notFlagged : (tables.primTable target).reallocatable = false)
    {demands : Nat} (positive : 0 < demands) :
    (tables.allocateScavLocked target demands).2 =
      suppliedWith demands tables.idleCount
        (tables.flaggedTids.map fun tid =>
          (tables.primTable tid).hostedCount)
        (maxCrtPerThread - (tables.primTable target).hostedCount) := by
  obtain ⟨counted, hosted, moves⟩ :=
    stealScavs_spec notFlagged demands (List.nodup_finRange maxThreadNum) 0
  have returned :=
    @stealScavs_returned tables target demands
      (List.finRange maxThreadNum) 0 positive
  rw [stolen_length, Nat.zero_add] at counted
  rw [stolen_length] at hosted
  have sameIdle :
      ((List.range maxActiveCrtNum).countP fun idx : Nat =>
          (tables.stealScavs target demands
            (List.finRange maxThreadNum) 0).1.Idle idx) =
        tables.idleCount := by
    apply List.countP_congr
    intro idx _
    rw [moves.idle hosting]
  unfold suppliedWith flaggedTids allocateScavLocked
  simp only
  rw [returned, counted]
  split
  · next met =>
      have enough := of_decide_eq_true met
      omega
  · next notMet =>
      have missing := Nat.lt_of_not_le (mt decide_eq_true notMet)
      rw [takeFromPool_count demands List.nodup_range
          (fun idx member => List.mem_range.mp member) missing,
        sameIdle, hosted, Nat.sub_add_eq]

/-- `allocate_scav` hosts what is needed and available, and counts it. -/
def MeetsDemand (maxScavPerThread : Int) (tables : Tables) (tid : Tid) :
    Prop :=
  let hosted : Int := (tables.primTable tid).hostedCount
  let allocated := tables.allocateScav maxScavPerThread tid
  let hostedAfter : Int := (allocated.1.primTable tid).hostedCount
  hostedAfter =
      max hosted
        (min maxScavPerThread
          (min (hosted + tables.available) maxCrtPerThread)) ∧
    (allocated.2 : Int) = hostedAfter - hosted

/--
No donor is asked for more than is missing: the flagged threads before it host
no scavenger, or all that are needed, or it has no more than still missing.
-/
def DonorsFit (maxScavPerThread : Int) (tables : Tables) (tid : Tid) :
    Prop :=
  let hosted : Int := (tables.primTable tid).hostedCount
  maxCrtPerThread ≤ maxScavPerThread ∨
    ∀ donor ∈ tables.flaggedTids,
      let before : Int :=
        tables.heldBy (tables.flaggedTids.filter (· < donor))
      before = 0 ∨ maxScavPerThread ≤ hosted + before ∨
        hosted + before + (tables.primTable donor).hostedCount ≤
          maxScavPerThread

instance (maxScavPerThread : Int) (tables : Tables) (tid : Tid) :
    Decidable (tables.DonorsFit maxScavPerThread tid) :=
  inferInstanceAs (Decidable (_ ∨ ∀ donor ∈ tables.flaggedTids, _))

/-- The list after the locked section and what follows it. -/
theorem allocateScav_hostedCount
    {tables : Tables} {tid : Tid}
    (notFlagged : (tables.primTable tid).reallocatable = false)
    (maxScavPerThread : Int) :
    let allocated := tables.allocateScav maxScavPerThread tid
    (allocated.1.primTable tid).hostedCount =
      (tables.primTable tid).hostedCount + allocated.2 := by
  simp only [allocateScav]
  split
  · exact (Nat.add_zero _).symm
  · generalize ((tables.primTable tid).needMoreScav
      maxScavPerThread).toNat = demands
    obtain ⟨_, _, _, _, hosted, _, _, _⟩ :=
      allocateScavLocked_spec notFlagged demands
    have same :=
      SameSlots.initNewScavs (tables.allocateScavLocked tid demands).1 tid
    rw [← hosted]
    exact PrimaryThreadCtx.hostedCount_congr fun _ _ => by
      rw [same.idxList tid]

/--
Whatever the lists look like: a thread outside blockable calls that calls
`allocate_scav` hosts afterwards what it needs, as far as scavengers and
positions are there, and is told how many were added, exactly when no donor is
asked for more than is missing.
-/
theorem allocateScav_meetsDemand_iff
    {tables : Tables} {tid : Tid} (hosting : tables.Hosting)
    (notFlagged : (tables.primTable tid).reallocatable = false)
    (maxScavPerThread : Int) :
    tables.MeetsDemand maxScavPerThread tid ↔
      tables.DonorsFit maxScavPerThread tid := by
  have bound := (tables.primTable tid).hostedCount_le
  have after := allocateScav_hostedCount notFlagged maxScavPerThread
  simp only at after
  unfold MeetsDemand DonorsFit
  simp only [after]
  have counted :=
    @allocateScavLocked_count tables tid hosting notFlagged
  have needMore :
      (tables.primTable tid).needMoreScav maxScavPerThread =
        if ((tables.primTable tid).hostedCount : Int) < maxScavPerThread
        then maxScavPerThread - (tables.primTable tid).hostedCount
        else 0 := rfl
  generalize (tables.primTable tid).hostedCount = hosted
    at bound counted needMore ⊢
  rcases Int.lt_or_le hosted maxScavPerThread with needed | enough
  · obtain ⟨demands, demandsEq⟩ :=
      Int.eq_ofNat_of_zero_le (Int.le_of_lt (Int.sub_pos_of_lt needed))
    have positive : 0 < demands := by omega
    have counts :
        (tables.primTable tid).needMoreScav maxScavPerThread = demands := by
      rw [needMore, if_pos needed, demandsEq]
    have ordered : tables.flaggedTids.Pairwise (· < ·) :=
      (List.pairwise_lt_finRange maxThreadNum).filter _
    have exact_ :=
      @suppliedWith_eq_iff demands (maxCrtPerThread - hosted)
        tables.idleCount
        (tables.flaggedTids.map fun tid =>
          (tables.primTable tid).hostedCount)
        positive
    rw [fits_map_iff ordered,
      ← counted positive] at exact_
    have returned :
        (tables.allocateScav maxScavPerThread tid).2 =
          (tables.allocateScavLocked tid demands).2 := by
      simp only [allocateScav, counts]
      rw [if_neg (by omega)]
      rfl
    rw [returned]
    have met :
        ((hosted + (tables.allocateScavLocked tid demands).2 : Nat) : Int) =
              max (hosted : Int)
                (min maxScavPerThread
                  (min (hosted + tables.available) maxCrtPerThread)) ∧
            ((tables.allocateScavLocked tid demands).2 : Int) =
              (hosted + (tables.allocateScavLocked tid demands).2 : Nat) -
                hosted ↔
          (tables.allocateScavLocked tid demands).2 =
            min demands
              (min (tables.heldBy tables.flaggedTids + tables.idleCount)
                (maxCrtPerThread - hosted)) := by
      unfold available
      omega
    rw [met]
    refine exact_.trans (or_congr (by omega) ?_)
    refine forall₂_congr fun donor _ => ?_
    simp only [heldBy]
    omega
  · have noneNeeded :
        (tables.primTable tid).needMoreScav maxScavPerThread = 0 := by
      rw [needMore, if_neg (Int.not_lt_of_ge enough)]
    have returned : (tables.allocateScav maxScavPerThread tid).2 = 0 := by
      simp only [allocateScav, noneNeeded, ↓reduceIte]
    rw [returned]
    refine iff_of_true ?_ (.inr fun donor _ => .inr (.inl ?_))
    · omega
    · exact enough.trans (Int.le_add_of_nonneg_right (Int.natCast_nonneg _))

end Tables

namespace Config

/-- In every reachable state, a thread about to call is such a thread. -/
theorem Reachable.hosting_of_allocating
    {maxScavPerThread : Int} {pool : List PoolEntry} {config : Config}
    (reachable : Config.Reachable maxScavPerThread pool config)
    {tid : Tid} {resume : Resume}
    (isAllocating : config.phase tid = .allocating resume) :
    config.tables.Hosting ∧
      (config.tables.primTable tid).reallocatable = false :=
  ⟨reachable.inv.hosting, reachable.inv.notFlagged_of_allocating isAllocating⟩

/-- A pool of four scavengers. -/
def poolOfFour : List PoolEntry :=
  (List.range 4).map fun handle => ⟨handle, 0, 0, [], none⟩

/-- One donor with three scavengers, and a thread that needs three. -/
def oneDonor : Config :=
  startedRun 3 poolOfFour
    [.allocCtx 1, .allocateScav 1, .initScavs 1, .enterBlockableCall 1,
      .allocCtx 2]

/-- A single donor is not asked for more than is missing. -/
theorem allocateScav_meetsDemand_oneDonor :
    oneDonor.tables.MeetsDemand 3 2 := by
  have isAllocating : oneDonor.phase 2 = .allocating .initPrimary := by
    decide +kernel
  obtain ⟨hosting, notFlagged⟩ :=
    (startedRun_reachable 3 poolOfFour _).hosting_of_allocating isAllocating
  exact (Tables.allocateScav_meetsDemand_iff hosting notFlagged 3).mpr
    (by decide +kernel)

/-- Donors with one scavenger and with three, and a thread that needs three. -/
def twoDonors : Config :=
  startedRun 3 poolOfFour
    [.allocCtx 1, .allocateScav 1, .initScavs 1,
      .allocCtx 0, .allocateScav 0, .initScavs 0,
      .enterBlockableCall 0, .enterBlockableCall 1, .allocCtx 2]

/-- The second donor is asked for three again, so that the taker hosts four. -/
theorem twoDonors_exceedsDemand :
    Config.Reachable 3 poolOfFour twoDonors ∧
      twoDonors.phase 2 = .allocating .initPrimary ∧
      ((twoDonors.tables.allocateScav 3 2).1.primTable 2).hostedCount = 4 ∧
      ¬ twoDonors.tables.MeetsDemand 3 2 := by
  have hosts :
      ((twoDonors.tables.allocateScav 3 2).1.primTable 2).hostedCount =
        4 := by
    decide +kernel
  refine ⟨startedRun_reachable 3 poolOfFour _, by decide +kernel, hosts, ?_⟩
  rintro ⟨asNeeded, _⟩
  rw [hosts] at asNeeded
  exact absurd asNeeded (by decide +kernel)

end Config

end Msh
