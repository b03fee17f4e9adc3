import Msh.Runtime.Ownership

namespace Msh

open Function Config

/-!
# What `realloc_scav` moves

Between compact lists the donor's last scavengers become the taker's last
ones, in reverse order, and everything that says where a scavenger runs moves
with it.  The attempt that ends the loop leaves no trace.
-/

namespace Tables

/-- No scavenger occurs twice among the first positions of a list. -/
def HostedOnce (idxList : Nat → Int) (hosted : Nat) : Prop :=
  ∀ {first second : Nat}, 1 ≤ first → first ≤ hosted →
    1 ≤ second → second ≤ hosted →
      idxList first = idxList second → first = second

/--
The donor's scavengers at `donated`, `donated - 1`, … are now the taker's at
`hosted + 1`, `hosted + 2`, …, `count` of them.
-/
structure TailMoved (before after : Tables) (source target : Tid)
    (donated hosted count : Nat) : Prop where
  appended :
    ∀ less < count,
      (after.primTable target).idxList (hosted + 1 + less) =
        (before.primTable source).idxList (donated - less)
  context :
    ∀ less < count,
      let toYc := (after.primTable target).ycs (hosted + 1 + less)
      let fromYc := (before.primTable source).ycs (donated - less)
      toYc.sp = fromYc.sp ∧ toYc.ip = fromYc.ip ∧ toYc.normalNext = 0
  regs :
    ∀ less < count,
      (after.primTable target).regs (hosted + 1 + less) =
        (before.primTable source).regs (donated - less)
  pointed :
    ∀ less < count,
      (after.scavTable
        ((before.primTable source).idxList (donated - less))).yc =
          some (target, hosted + 1 + less)
  vacated :
    ∀ less < count,
      (after.primTable source).idxList (donated - less) = -1 ∧
        ((after.primTable source).ycs (donated - less)).normalNext = -1
  donor : Compact (after.primTable source).idxList (donated - count)
  taker : Compact (after.primTable target).idxList (hosted + count)
  reallocated :
    (after.primTable source).reallocated =
      (decide (0 < count) || (before.primTable source).reallocated)
  donorKept :
    ∀ pos, pos ≤ donated - count ∨ donated < pos →
      (after.primTable source).idxList pos =
          (before.primTable source).idxList pos ∧
        (after.primTable source).ycs pos =
          (before.primTable source).ycs pos
  donorRegs : (after.primTable source).regs = (before.primTable source).regs
  takerKept :
    ∀ pos, 1 ≤ pos → pos ≤ hosted ∨ hosted + count < pos →
      (after.primTable target).idxList pos =
          (before.primTable target).idxList pos ∧
        (after.primTable target).ycs pos =
          (before.primTable target).ycs pos ∧
        (after.primTable target).regs pos =
          (before.primTable target).regs pos
  takerPrimary :
    (after.primTable target).ycs 0 =
      if 0 < count then
        { (before.primTable target).ycs 0 with normalNext := sizeofYieldCtx }
      else (before.primTable target).ycs 0
  otherScavs :
    ∀ idx,
      (∀ less < count,
        (before.primTable source).idxList (donated - less) ≠ idx) →
        after.scavTable idx = before.scavTable idx
  otherThreads :
    ∀ other, other ≠ source → other ≠ target →
      after.primTable other = before.primTable other

namespace TailMoved

variable {before middle after : Tables} {source target : Tid}
  {donated hosted count : Nat}

/-- Nothing is moved. -/
theorem zero
    (donor : Compact (before.primTable source).idxList donated)
    (taker : Compact (before.primTable target).idxList hosted) :
    TailMoved before before source target donated hosted 0 where
  appended := by omega
  context := by omega
  regs := by omega
  pointed := by omega
  vacated := by omega
  donor := donor
  taker := taker
  reallocated := rfl
  donorKept _ _ := ⟨rfl, rfl⟩
  donorRegs := rfl
  takerKept _ _ _ := ⟨rfl, rfl, rfl⟩
  takerPrimary := rfl
  otherScavs _ _ := rfl
  otherThreads _ _ _ := rfl

/-- One more move before a number of moves. -/
theorem cons
    (different : source ≠ target)
    (enough : count ≤ donated)
    (hostedOnce : HostedOnce (before.primTable source).idxList (donated + 1))
    (rest :
      TailMoved (before.moveScav source (donated + 1) target (hosted + 1))
        after source target donated (hosted + 1) count) :
    TailMoved before after source target (donated + 1) hosted
      (count + 1) := by
  have fromSlot :
      ∀ less < count,
        donated + 1 - (less + 1) = donated - less ∧
          donated - less ≠ donated + 1 := by
    intro less below
    exact ⟨Nat.add_sub_add_right donated 1 less, by omega⟩
  have toSlot :
      ∀ less, hosted + 1 + (less + 1) = hosted + 1 + 1 + less :=
    fun less => by omega
  have received :=
    rest.takerKept (hosted + 1) (by omega) (.inl (Nat.le_refl _))
  have given := rest.donorKept
  have movedScav := rest.otherScavs
  rw [moveScav_target] at received
  rw [moveScav_source different] at given movedScav
  refine ⟨?_, ?_, ?_, ?_, ?_, ?_, ?_, ?_, ?_, ?_, ?_, ?_, ?_,
    ?_⟩
  · rintro (_ | less) below
    · simpa [takerAfter] using received.1
    · obtain ⟨same, notLast⟩ := fromSlot less (by omega)
      rw [toSlot, same, rest.appended less (by omega),
        moveScav_source different]
      exact update_of_ne notLast _ _
  · rintro (_ | less) below
    · simp [received.2.1, takerAfter]
    · obtain ⟨same, notLast⟩ := fromSlot less (by omega)
      have restContext := rest.context less (by omega)
      simp only [moveScav_source different, donorAfter,
        update_of_ne notLast] at restContext
      rw [toSlot, same]
      exact restContext
  · rintro (_ | less) below
    · simpa [takerAfter] using received.2.2
    · obtain ⟨same, _⟩ := fromSlot less (by omega)
      rw [toSlot, same, rest.regs less (by omega),
        moveScav_source different]
      rfl
  · rintro (_ | less) below
    · have notMovedAgain :
          ∀ less < count,
            (donorAfter (before.primTable source) (donated + 1)).idxList
                (donated - less) ≠
              (before.primTable source).idxList (donated + 1) := by
        intro less inRest
        obtain ⟨_, notLast⟩ := fromSlot less inRest
        simp only [donorAfter, update_of_ne notLast]
        intro same
        exact notLast
          (hostedOnce (by omega) (by omega) (by omega) (Nat.le_refl _) same)
      rw [Nat.sub_zero, movedScav _ notMovedAgain]
      simp [moveScav]
    · obtain ⟨same, notLast⟩ := fromSlot less (by omega)
      have restPointed := rest.pointed less (by omega)
      simp only [moveScav_source different, donorAfter,
        update_of_ne notLast] at restPointed
      rw [toSlot, same]
      exact restPointed
  · rintro (_ | less) below
    · obtain ⟨list, context⟩ :=
        given (donated + 1) (.inr (Nat.lt_succ_self donated))
      rw [Nat.sub_zero, list, context]
      simp [donorAfter]
    · obtain ⟨same, _⟩ := fromSlot less (by omega)
      rw [same]
      exact rest.vacated less (by omega)
  · rw [Nat.add_sub_add_right]
    exact rest.donor
  · have restTaker := rest.taker
    rw [Nat.add_right_comm] at restTaker
    exact restTaker
  · rw [rest.reallocated, moveScav_source different]
    simp [donorAfter]
  · intro pos kept
    have notLast : pos ≠ donated + 1 := by omega
    have restKept := given pos (by omega)
    simp only [donorAfter, update_of_ne notLast] at restKept
    exact restKept
  · rw [rest.donorRegs, moveScav_source different]
    rfl
  · intro pos lower upper
    have restKept := rest.takerKept pos lower (by omega)
    have notNew : pos ≠ hosted + 1 := by omega
    have notPrimary : pos ≠ 0 := by omega
    simp only [moveScav_target, takerAfter, update_of_ne notNew,
      update_of_ne notPrimary] at restKept
    exact restKept
  · have restPrimary := rest.takerPrimary
    simp only [moveScav_target, takerAfter, update_self] at restPrimary
    rw [restPrimary, if_pos (Nat.succ_pos count), ite_self]
  · intro idx notMoved
    have notFirst : idx ≠ (before.primTable source).idxList (donated + 1) :=
      (notMoved 0 (Nat.succ_pos count)).symm
    have notLater :
        ∀ less < count,
          (donorAfter (before.primTable source) (donated + 1)).idxList
            (donated - less) ≠ idx := by
      intro less inRest
      obtain ⟨same, notLast⟩ := fromSlot less inRest
      simp only [donorAfter, update_of_ne notLast]
      rw [← same]
      exact notMoved (less + 1) (Nat.succ_lt_succ inRest)
    rw [movedScav idx notLater]
    exact update_of_ne notFirst _ _
  · intro other notSource notTarget
    rw [rest.otherThreads other notSource notTarget,
      moveScav_other notSource notTarget]

/-- The moves of `realloc_scav` move the donor's tail. -/
theorem moveTail
    {tables : Tables} (different : source ≠ target)
    (donor : Compact (tables.primTable source).idxList donated)
    (taker : Compact (tables.primTable target).idxList hosted)
    (hostedOnce : HostedOnce (tables.primTable source).idxList donated)
    (enough : count ≤ donated) (room : hosted + count ≤ maxCrtPerThread) :
    TailMoved tables (tables.moveTail source donated target hosted count)
      source target donated hosted count := by
  induction count generalizing tables donated hosted with
  | zero =>
      exact .zero donor taker
  | succ count inductionHypothesis =>
      obtain ⟨donated, rfl⟩ := Nat.exists_eq_add_one_of_ne_zero
        (Nat.ne_of_gt (Nat.zero_lt_of_lt enough))
      have held := donor.occupied (Nat.succ_pos donated) (Nat.le_refl _)
      have hostedOnceNext :
          HostedOnce
            ((tables.moveScav source (donated + 1) target
              (hosted + 1)).primTable source).idxList donated := by
        intro first second firstLower firstUpper secondLower secondUpper
        have firstKept : first ≠ donated + 1 := by omega
        have secondKept : second ≠ donated + 1 := by omega
        simp only [moveScav_source different, donorAfter,
          update_of_ne firstKept, update_of_ne secondKept]
        exact hostedOnce firstLower (by omega) secondLower (by omega)
      refine .cons different (Nat.le_of_succ_le_succ enough) hostedOnce ?_
      exact inductionHypothesis
        (moveScav_donor_compact (hosted + 1) different donor)
        (moveScav_taker_compact taker (by omega) held)
        hostedOnceNext (by omega) (by omega)

end TailMoved

/-- A scavenger that is hosted once occurs once in its list. -/
theorem Hosting.hostedOnce
    {tables : Tables} (hosting : tables.Hosting) {tid : Tid} {hosted : Nat}
    (compact : Compact (tables.primTable tid).idxList hosted) :
    HostedOnce (tables.primTable tid).idxList hosted := by
  intro first second firstLower firstUpper secondLower secondUpper same
  have bound := compact.bound
  have inFirst :=
    occupant_eq_some_iff.mpr
      ⟨⟨firstLower, firstUpper.trans bound⟩, rfl,
        compact.occupied firstLower firstUpper⟩
  have inSecond :=
    occupant_eq_some_iff.mpr
      ⟨⟨secondLower, secondUpper.trans bound⟩, same.symm,
        compact.occupied firstLower firstUpper⟩
  have sameSlot := hosting.assignment.slotUnique inFirst inSecond
  exact congrArg Prod.snd sameSlot

/--
`realloc_scav` moves as many scavengers as are demanded, as the donor hosts and
as the taker has room for, the donor's last ones, and returns their number.
When it stops before the demand is met, the attempt that stops it leaves
everything as it is.
-/
theorem reallocScav_movesTail
    {tables : Tables} (hosting : tables.Hosting)
    {source target : Tid} (different : source ≠ target)
    {donated hosted : Nat}
    (donor : Compact (tables.primTable source).idxList donated)
    (taker : Compact (tables.primTable target).idxList hosted)
    (demands : Nat) :
    let moved := tables.reallocScav source target demands
    let count := min demands (min donated (maxCrtPerThread - hosted))
    moved.2 = count ∧
      TailMoved tables moved.1 source target donated hosted count ∧
      (count < demands →
        moved.1.reallocOne source target = (moved.1, false)) := by
  intro moved count
  have movedEq : moved = (tables.moveTail source donated target hosted count,
      count) :=
    reallocScav_eq different donor taker demands
  have bound := taker.bound
  have tail :
      TailMoved tables moved.1 source target donated hosted count := by
    rw [movedEq]
    exact .moveTail different donor taker (hosting.hostedOnce donor) (by omega)
      (by omega)
  refine ⟨congrArg Prod.snd movedEq, tail, ?_⟩
  intro stopped
  have donorLeft := tail.donor
  have takerAfter := tail.taker
  rcases Nat.lt_or_ge count donated with more | none
  · -- The donor has more scavengers, so the taker is full.
    have full : hosted + count = maxCrtPerThread := by omega
    rw [full] at takerAfter
    obtain ⟨left, leftEq⟩ := Nat.exists_eq_add_one_of_ne_zero
      (Nat.ne_of_gt (Nat.sub_pos_of_lt more))
    rw [leftEq] at donorLeft
    exact reallocOne_of_compact_full different donorLeft takerAfter
  · rw [Nat.sub_eq_zero_of_le none] at donorLeft
    exact reallocOne_of_none donorLeft.lastOccupied_eq_none

end Tables

namespace Config

/-- One thread has allocated two scavengers. -/
def hostedPair : Config :=
  startedRun 2 twoScavs [.allocCtx 0, .allocateScav 0]

/-- Another thread takes the second of two scavengers. -/
theorem reallocScav_movesTail_hostedPair :
    let moved := hostedPair.tables.reallocScav 0 1 1
    moved.2 = 1 ∧
      (moved.1.primTable 1).idxList 1 = 1 ∧
      (moved.1.scavTable 1).yc = some (1, 1) ∧
      (moved.1.primTable 0).idxList 2 = -1 ∧
      (moved.1.primTable 0).reallocated = true := by
  have hosting : hostedPair.tables.Hosting :=
    (startedRun_reachable 2 twoScavs _).inv.hosting
  have donor : Compact (hostedPair.tables.primTable 0).idxList 2 :=
    .of_lastOccupied (by decide +kernel) (by decide +kernel)
  have taker : Compact (hostedPair.tables.primTable 1).idxList 0 :=
    .of_hostedCount (by decide +kernel)
  have last : (hostedPair.tables.primTable 0).idxList 2 = 1 := by
    decide +kernel
  have different : (0 : Tid) ≠ 1 := by decide
  obtain ⟨counted, tail, _⟩ :=
    Tables.reallocScav_movesTail hosting different donor taker 1
  have one : min 1 (min 2 (maxCrtPerThread - 0)) = 1 := rfl
  rw [one] at counted tail
  have appended := tail.appended 0 Nat.zero_lt_one
  have pointed := tail.pointed 0 Nat.zero_lt_one
  have vacated := tail.vacated 0 Nat.zero_lt_one
  simp only [Nat.sub_zero, Nat.zero_add, Nat.add_zero, last]
    at appended pointed vacated
  exact ⟨counted, appended, pointed, vacated.1, tail.reallocated⟩

end Config

end Msh
