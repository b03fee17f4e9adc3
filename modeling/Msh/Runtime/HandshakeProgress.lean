import Msh.Runtime.HandshakeLock

namespace Msh

open Function TransitionSystem Spot

/-!
# Nobody waits forever

A thread in a call, or in `allocate_scav`, waits for two things only: for the
table lock, and for a stealer to set its flag again.  Both are in the hands of
the thread that holds the lock, which waits for nothing.  Each thread can
therefore always go on to the end of what it does, with no other thread than
the holder of the lock moving.
-/

/-- The most steps that a thread takes until it is outside again, more than
all others for one that never is. -/
def Spot.stepsLeft : Spot → Nat
  | .outside => 0
  | .entered => 3 * maxThreadNum + 8
  | .left => 3 * maxThreadNum + 7
  | .allocating _ => 3 * maxThreadNum + 6
  | .waiting _ _ => 3 * maxThreadNum + 5
  | .scanning _ _ _ rest => 3 * rest.length + 4
  | .holding _ _ _ rest _ => 3 * rest.length + 6
  | .stolen _ _ _ rest _ _ => 3 * rest.length + 5
  | .pooling _ _ _ => 3
  | .unlocking _ _ => 2
  | .finishing _ _ => 1
  | .wild => 3 * maxThreadNum + 9

/-- A spot that a thread with the given entry may be at -/
structure Spot.Allowed (spot : Spot) (mshTid : Option Tid) : Prop where
  registered : spot.resume? ≠ none → ∃ tid, mshTid = some tid
  bounded : spot.stepsLeft ≤ 3 * maxThreadNum + 8

theorem Spot.Allowed.of_none {spot : Spot} {mshTid : Option Tid}
    (noResume : spot.resume? = none)
    (bounded : spot.stepsLeft ≤ 3 * maxThreadNum + 8) :
    spot.Allowed mshTid :=
  ⟨fun inside => absurd noResume inside, bounded⟩

namespace Handshake

variable {maxScavPerThread : Int} {state before after : Handshake}
  {action : HandshakeAction} {thread : Thread} {tid : Tid}

/-- The steps that bring a call or an `allocate_scav` to its end. -/
def Completes : HandshakeAction → Prop
  | .exitCas _ => True
  | .readReallocated _ => True
  | .advance _ => True
  | _ => False

theorem goto_mshTid (tables : Tables) (spot : Spot) :
    (state.goto thread tables spot).mshTid = state.mshTid :=
  rfl

theorem resumeWith_mshTid (tables : Tables) (ret : Nat) (resume : Resume) :
    (state.resumeWith thread tid tables ret resume).mshTid =
      state.mshTid := by
  cases resume <;> rfl

/-- A step of `allocate_scav` leaves fewer steps. -/
theorem advance_stepsLeft
    (taken : state.advance? maxScavPerThread thread tid = some after) :
    (after.spot thread).stepsLeft < (state.spot thread).stepsLeft ∧
      after.mshTid = state.mshTid := by
  cases isAt : state.spot thread with
  | outside => simp [advance?, isAt] at taken
  | entered => simp [advance?, isAt] at taken
  | left => simp [advance?, isAt] at taken
  | wild => simp [advance?, isAt] at taken
  | allocating resume =>
      simp only [advance?, isAt] at taken
      split at taken
      · cases taken
        refine ⟨?_, resumeWith_mshTid ..⟩
        rw [resumeWith_spot, update_self, stepsLeft, stepsLeft]
        omega
      · cases taken
        refine ⟨?_, rfl⟩
        rw [goto_spot, update_self, stepsLeft, stepsLeft]
        omega
  | waiting resume demands =>
      simp only [advance?, isAt] at taken
      split at taken
      · cases taken
        refine ⟨?_, rfl⟩
        simp only [goto_spot, update_self, stepsLeft, List.length_finRange]
        omega
      · cases taken
  | scanning resume demands retCounts rest =>
      cases rest with
      | nil =>
          simp only [advance?, isAt] at taken
          cases taken
          refine ⟨?_, rfl⟩
          rw [goto_spot, update_self, stepsLeft, stepsLeft]
          omega
      | cons source rest =>
          simp only [advance?, isAt] at taken
          split at taken
          · cases taken
            refine ⟨?_, rfl⟩
            rw [goto_spot, update_self, stepsLeft, stepsLeft,
              List.length_cons]
            omega
          · cases taken
            refine ⟨?_, rfl⟩
            rw [goto_spot, update_self, stepsLeft, stepsLeft,
              List.length_cons]
            omega
  | holding resume demands retCounts rest source =>
      simp only [advance?, isAt] at taken
      cases taken
      refine ⟨?_, rfl⟩
      simp only [goto_spot, update_self, stepsLeft]
      omega
  | stolen resume demands retCounts rest source cnt =>
      simp only [advance?, isAt] at taken
      cases taken
      refine ⟨?_, rfl⟩
      rw [goto_spot, update_self]
      split
      · rw [stepsLeft, stepsLeft]
        omega
      · rw [stepsLeft, stepsLeft]
        omega
  | pooling resume demands retCounts =>
      simp only [advance?, isAt, Option.some.injEq] at taken
      rw [← taken]
      refine ⟨?_, goto_mshTid ..⟩
      rw [goto_spot, update_self, stepsLeft, stepsLeft]
      omega
  | unlocking resume ret =>
      simp only [advance?, isAt] at taken
      cases taken
      refine ⟨?_, rfl⟩
      simp only [goto_spot, update_self, stepsLeft]
      omega
  | finishing resume ret =>
      simp only [advance?, isAt] at taken
      cases taken
      refine ⟨?_, resumeWith_mshTid ..⟩
      rw [resumeWith_spot, update_self, stepsLeft, stepsLeft]
      omega

/-- Only at the lock does `allocate_scav` wait. -/
theorem advance_enabled (maxScavPerThread : Int) (tid : Tid)
    (inside : (state.spot thread).resume? ≠ none)
    (free :
      ∀ resume demands, state.spot thread = .waiting resume demands →
        state.lock = none) :
    ∃ after, state.advance? maxScavPerThread thread tid = some after := by
  cases isAt : state.spot thread with
  | outside => simp [isAt, resume?] at inside
  | entered => simp [isAt, resume?] at inside
  | left => simp [isAt, resume?] at inside
  | wild => simp [isAt, resume?] at inside
  | allocating resume =>
      simp only [advance?, isAt]
      split
      · exact ⟨_, rfl⟩
      · exact ⟨_, rfl⟩
  | waiting resume demands =>
      simp only [advance?, isAt, if_pos (free resume demands isAt)]
      exact ⟨_, rfl⟩
  | scanning resume demands retCounts rest =>
      cases rest with
      | nil =>
          simp only [advance?, isAt]
          exact ⟨_, rfl⟩
      | cons source rest =>
          simp only [advance?, isAt]
          split
          · exact ⟨_, rfl⟩
          · exact ⟨_, rfl⟩
  | holding resume demands retCounts rest source =>
      simp only [advance?, isAt]
      exact ⟨_, rfl⟩
  | stolen resume demands retCounts rest source cnt =>
      simp only [advance?, isAt]
      exact ⟨_, rfl⟩
  | pooling resume demands retCounts =>
      simp only [advance?, isAt]
      exact ⟨_, rfl⟩
  | unlocking resume ret =>
      simp only [advance?, isAt]
      exact ⟨_, rfl⟩
  | finishing resume ret =>
      simp only [advance?, isAt]
      exact ⟨_, rfl⟩

/-- Who holds the lock after a step -/
theorem step_lock (taken : Step maxScavPerThread before action after) :
    after.lock = before.lock ∨ after.lock = some (actor action) ∨
      after.lock = none := by
  obtain ⟨op, _, _, lockAfter⟩ := taken.lockStep
  cases op with
  | none => exact Or.inl lockAfter
  | lock => exact Or.inr (Or.inl lockAfter)
  | unlock => exact Or.inr (Or.inr lockAfter)

/-- A thread keeps the entry that it was given. -/
theorem step_mshTid (taken : Step maxScavPerThread before action after)
    (known : before.mshTid thread = some tid) :
    after.mshTid thread = some tid := by
  unfold Step at taken
  cases action with
  | allocCtx other query =>
      simp only [step?] at taken
      split at taken
      · next enabled =>
          cases taken
          have different : thread ≠ other := by
            rintro rfl
            rw [enabled.2.1] at known
            cases known
          exact (update_of_ne different _ _).trans known
      · cases taken
  | schedule other =>
      simp only [step?] at taken
      split at taken <;> cases taken
      exact known
  | enter other =>
      simp only [step?, setReallocatable] at taken
      split at taken <;> cases taken
      split <;> exact known
  | exitCas other =>
      simp only [step?, setReallocatable] at taken
      split at taken <;> cases taken
      split <;> exact known
  | readReallocated other =>
      simp only [step?] at taken
      split at taken
      · split at taken
        · cases taken
          split <;> exact known
        · split at taken <;> cases taken <;> exact known
      · cases taken
  | advance other =>
      simp only [step?] at taken
      split at taken
      · rw [(advance_stepsLeft taken).2]
        exact known
      · cases taken
  | work other ctx scavTable libs =>
      simp only [step?] at taken
      split at taken
      · split at taken <;> cases taken
        exact known
      · cases taken

/-- Each thread is at a spot where it may be, and the holder of the lock is
in the locked section. -/
structure Manned (state : Handshake) : Prop extends Inv state where
  allowed : ∀ thread, (state.spot thread).Allowed (state.mshTid thread)
  holding :
    ∀ {thread}, state.lock = some thread → (state.spot thread).locked = true

theorem Initial.manned (initial : Initial state) : state.Manned where
  toInv := initial.inv
  allowed thread := by
    rw [initial.spot]
    exact .of_none rfl (Nat.zero_le _)
  holding isHolder := by
    rw [initial.lock] at isHolder
    cases isHolder

/-- What a step makes of the spot of the thread that takes it -/
theorem Manned.actor_spot (manned : before.Manned)
    (taken : Step maxScavPerThread before action after)
    (notOverlapping : ¬ before.Overlapping action) :
    (after.spot (actor action)).Allowed (after.mshTid (actor action)) := by
  unfold Step at taken
  cases action with
  | allocCtx thread tid =>
      simp only [step?] at taken
      split at taken <;> cases taken
      simp only [actor, goto_spot, update_self]
      refine ⟨fun _ => ⟨tid, rfl⟩, ?_⟩
      rw [stepsLeft]
      omega
  | schedule thread =>
      simp only [step?] at taken
      split at taken
      · next enabled =>
          cases taken
          simp only [actor, goto_spot, update_self, goto_mshTid]
          refine
            ⟨fun _ => Option.ne_none_iff_exists'.mp enabled.2, ?_⟩
          rw [stepsLeft]
          omega
      · cases taken
  | enter thread =>
      simp only [step?] at taken
      split at taken <;> cases taken
      simp only [actor, goto_spot, update_self]
      exact .of_none rfl (Nat.le_refl _)
  | exitCas thread =>
      simp only [step?] at taken
      split at taken <;> cases taken
      simp only [actor, goto_spot, update_self]
      refine .of_none rfl ?_
      rw [stepsLeft]
      omega
  | readReallocated thread =>
      have atOutside : Spot.outside.Allowed (before.mshTid thread) :=
        .of_none rfl (Nat.zero_le _)
      simp only [step?] at taken
      split at taken
      · next isLeft =>
          have pointed : before.pointers thread = before.mshTid thread :=
            manned.pointed (by simp [isLeft, resume?])
          cases points : before.pointers thread with
          | some tid =>
              rw [points] at pointed
              simp only [points] at taken
              cases taken
              split
              · simp only [actor, goto_spot, update_self, goto_mshTid]
                refine ⟨fun _ => ⟨tid, pointed.symm⟩, ?_⟩
                rw [stepsLeft]
                omega
              · simp only [actor, goto_spot, update_self, goto_mshTid]
                exact atOutside
          | none =>
              have notMarked : ¬ before.reallocated thread = true := by
                rw [manned.toInv.reallocated_dummy_iff points isLeft]
                exact fun others => notOverlapping ⟨points, others⟩
              simp only [points, if_neg notMarked] at taken
              cases taken
              simp only [actor, goto_spot, update_self, goto_mshTid]
              exact atOutside
      · cases taken
  | advance thread =>
      simp only [step?] at taken
      split at taken
      · next tid known =>
          obtain ⟨fewer, sameTid⟩ := advance_stepsLeft taken
          refine ⟨fun _ => ⟨tid, ?_⟩, ?_⟩
          · simp only [actor, sameTid, known]
          · exact
              Nat.le_trans (Nat.le_of_lt fewer)
                (manned.allowed thread).bounded
      · cases taken
  | work thread ctx scavTable libs =>
      simp only [step?] at taken
      split at taken
      · split at taken
        · next isOutside =>
            cases taken
            simp only [actor, isOutside]
            exact .of_none rfl (Nat.zero_le _)
        · cases taken
      · cases taken

/-- Every step without overlapping calls leaves the threads so. -/
theorem Manned.step (manned : before.Manned)
    (taken : Step maxScavPerThread before action after)
    (notOverlapping : ¬ before.Overlapping action) : after.Manned where
  toInv := manned.toInv.step taken notOverlapping
  allowed other := by
    obtain ⟨spot, moves, _⟩ := step_spot taken
    by_cases isActor : other = actor action
    · rw [isActor]
      exact manned.actor_spot taken notOverlapping
    · rw [moves, update_of_ne isActor]
      refine ⟨fun inside => ?_, (manned.allowed other).bounded⟩
      obtain ⟨tid, known⟩ := (manned.allowed other).registered inside
      exact ⟨tid, step_mshTid taken known⟩
  holding := by
    intro other isHolder
    obtain ⟨op, step, _, lockAfter⟩ := taken.lockStep
    rw [lockAfter] at isHolder
    cases op with
    | none =>
        have wasLocked := manned.holding isHolder
        by_cases isActor : other = actor action
        · subst isActor
          exact ((client maxScavPerThread).keeps step).mpr wasLocked
        · exact
            ((client maxScavPerThread).others step other isActor).mpr
              wasLocked
    | lock =>
        obtain rfl := Option.some.inj isHolder
        exact ((client maxScavPerThread).locks step).2
    | unlock => cases isHolder

/-! ## Going on to the end -/

theorem resume_of_locked {spot : Spot} (isLocked : spot.locked = true) :
    spot.resume? ≠ none ∧ ∀ resume demands, spot ≠ .waiting resume demands := by
  cases spot <;> simp [Spot.locked, resume?] at isLocked ⊢

/-- The most steps of the thread that holds the lock, unless it is the given
thread. -/
def holderSteps (state : Handshake) (thread : Thread) : Nat :=
  match state.lock with
  | none => 0
  | some holder =>
      if holder = thread then 0 else (state.spot holder).stepsLeft

/-- The most steps that it takes to bring a thread outside. -/
def stepsToReturn (state : Handshake) (thread : Thread) : Nat :=
  (state.spot thread).stepsLeft + state.holderSteps thread

/-- The holder of the lock waits for nobody. -/
theorem Manned.holder_advances (manned : before.Manned) {holder : Thread}
    (isHolder : before.lock = some holder) (other : holder ≠ thread) :
    ∃ after, Step maxScavPerThread before (.advance holder) after ∧
      after.stepsToReturn thread < before.stepsToReturn thread := by
  obtain ⟨inside, notWaiting⟩ := resume_of_locked (manned.holding isHolder)
  obtain ⟨tid, known⟩ := (manned.allowed holder).registered inside
  obtain ⟨after, taken⟩ :=
    advance_enabled maxScavPerThread tid inside
      fun resume demands isWaiting => absurd isWaiting (notWaiting _ _)
  have step : Step maxScavPerThread before (.advance holder) after := by
    simp only [Step, step?, known]
    exact taken
  refine ⟨after, step, ?_⟩
  obtain ⟨spot, moves, _⟩ := step_spot step
  have sameSpot : after.spot thread = before.spot thread := by
    rw [moves]
    exact update_of_ne (Ne.symm other) _ _
  have fewer := (advance_stepsLeft taken).1
  have before_eq :
      before.holderSteps thread = (before.spot holder).stepsLeft := by
    simp only [holderSteps, isHolder, if_neg other]
  have after_le :
      after.holderSteps thread ≤ (after.spot holder).stepsLeft := by
    rcases step_lock step with same | taken | free
    · simp only [holderSteps, same, isHolder, if_neg other]
      exact Nat.le_refl _
    · simp only [holderSteps, taken, actor, if_neg other]
      exact Nat.le_refl _
    · simp only [holderSteps, free]
      exact Nat.zero_le _
  rw [stepsToReturn, stepsToReturn, sameSpot, before_eq]
  omega

/-- A thread that nobody holds the lock against finds its flag set. -/
theorem Manned.flag_set (manned : before.Manned)
    (points : before.pointers thread = some tid)
    (isEntered : before.spot thread = .entered)
    (free : ∀ holder, before.lock = some holder → holder = thread) :
    before.reallocatable thread = true := by
  simp only [reallocatable, points]
  rcases manned.available points isEntered with flagged | ⟨stealer, source⟩
  · exact flagged
  · have isThread := free stealer (manned.locked (locked_of_source source))
    rw [isThread, isEntered] at source
    cases source

theorem exitCas_enabled (isAt : before.spot thread = .entered)
    (flagged : before.reallocatable thread = true) :
    ∃ after, Step maxScavPerThread before (.exitCas thread) after ∧
      after.spot thread = .left ∧
      (before.pointers thread = none →
        after.reallocated thread = false) := by
  refine
    ⟨(before.setReallocatable thread false).goto thread
      (before.setReallocatable thread false).tables .left, ?_, ?_, ?_⟩
  · simp only [Step, step?, isAt, flagged, and_self, if_true]
  · rw [goto_spot, update_self]
  · intro noPointer
    simp only [reallocated, goto, setReallocatable, noPointer]

theorem readReallocated_enabled (isAt : before.spot thread = .left) :
    ∃ after, Step maxScavPerThread before (.readReallocated thread) after ∧
      (before.reallocated thread = false → after.spot thread = .outside) ∧
      (before.pointers thread ≠ none →
        (after.spot thread).stepsLeft < Spot.left.stepsLeft) := by
  have toOutside : Spot.outside.stepsLeft < Spot.left.stepsLeft := by
    rw [stepsLeft, stepsLeft]
    omega
  have toAllocating :
      (Spot.allocating .exitCall).stepsLeft < Spot.left.stepsLeft := by
    rw [stepsLeft, stepsLeft]
    omega
  cases points : before.pointers thread with
  | some tid =>
      by_cases marked : before.reallocated thread = true
      · simp only [Step, step?, isAt, if_true, points, marked]
        refine ⟨_, rfl, ?_, ?_⟩
        · intro notMarked
          cases notMarked
        · intro _
          simp only [goto_spot, update_self]
          exact toAllocating
      · rw [Bool.not_eq_true] at marked
        simp only [Step, step?, isAt, if_true, points, marked,
          Bool.false_eq_true, if_false]
        refine ⟨_, rfl, fun _ => ?_, fun _ => ?_⟩
        · simp only [goto_spot, update_self]
        · simp only [goto_spot, update_self]
          exact toOutside
  | none =>
      by_cases marked : before.reallocated thread = true
      · simp only [Step, step?, isAt, if_true, points, marked]
        refine ⟨_, rfl, ?_, ?_⟩
        · intro notMarked
          cases notMarked
        · intro hasPointer
          exact absurd rfl hasPointer
      · rw [Bool.not_eq_true] at marked
        simp only [Step, step?, isAt, if_true, points, marked,
          Bool.false_eq_true, if_false]
        refine ⟨_, rfl, fun _ => ?_, fun hasPointer => absurd rfl hasPointer⟩
        rw [goto_spot, update_self]

/-- A thread with an entry goes on when no other one holds the lock. -/
theorem Manned.own_step (manned : before.Manned)
    (known : before.mshTid thread = some tid)
    (notOutside : before.spot thread ≠ .outside)
    (free : ∀ holder, before.lock = some holder → holder = thread) :
    ∃ action after, Completes action ∧ actor action = thread ∧
      Step maxScavPerThread before action after ∧
      ¬ before.Overlapping action ∧
      (after.spot thread).stepsLeft < (before.spot thread).stepsLeft := by
  by_cases inside : (before.spot thread).resume? = none
  · have points : before.pointers thread = some tid := by
      rw [manned.pointed (by simp [inside]), known]
    have notOutsider : before.pointers thread ≠ none := by
      rw [points]
      exact Option.some_ne_none tid
    cases isAt : before.spot thread with
    | outside => exact absurd isAt notOutside
    | wild =>
        have bounded := (manned.allowed thread).bounded
        rw [isAt, stepsLeft] at bounded
        omega
    | entered =>
        have flagged := manned.flag_set points isAt free
        obtain ⟨after, step, isLeft, _⟩ := exitCas_enabled isAt flagged
        refine
          ⟨.exitCas thread, after, trivial, rfl, step,
            fun overlapping => notOutsider overlapping.1, ?_⟩
        rw [isLeft, stepsLeft, stepsLeft]
        omega
    | left =>
        obtain ⟨after, step, _, fewer⟩ := readReallocated_enabled isAt
        exact
          ⟨.readReallocated thread, after, trivial, rfl, step,
            fun overlapping => notOutsider overlapping.1, fewer notOutsider⟩
    | allocating resume => simp [isAt, resume?] at inside
    | waiting resume demands => simp [isAt, resume?] at inside
    | scanning resume demands retCounts rest => simp [isAt, resume?] at inside
    | holding resume demands retCounts rest source =>
        simp [isAt, resume?] at inside
    | stolen resume demands retCounts rest source cnt =>
        simp [isAt, resume?] at inside
    | pooling resume demands retCounts => simp [isAt, resume?] at inside
    | unlocking resume ret => simp [isAt, resume?] at inside
    | finishing resume ret => simp [isAt, resume?] at inside
  · have noHolder : ∀ resume demands,
        before.spot thread = .waiting resume demands →
          before.lock = none := by
      intro resume demands isWaiting
      cases isLock : before.lock with
      | none => rfl
      | some holder =>
          have isLocked := manned.holding isLock
          rw [free holder isLock, isWaiting] at isLocked
          cases isLocked
    obtain ⟨after, taken⟩ :=
      advance_enabled maxScavPerThread tid inside noHolder
    refine
      ⟨.advance thread, after, trivial, rfl, ?_, id,
        (advance_stepsLeft taken).1⟩
    simp only [Step, step?, known]
    exact taken

/-- A thread with an entry can go on, or the holder of the lock can. -/
theorem Manned.progress (manned : before.Manned)
    (known : before.mshTid thread = some tid)
    (notOutside : before.spot thread ≠ .outside) :
    ∃ action after,
      (Completes action ∧
        (actor action = thread ∨ before.lock = some (actor action))) ∧
      Step maxScavPerThread before action after ∧
      (after.Manned ∧ after.mshTid thread = some tid) ∧
      after.stepsToReturn thread < before.stepsToReturn thread := by
  by_cases free : ∀ holder, before.lock = some holder → holder = thread
  · obtain ⟨action, after, completes, isOwn, step, notOverlapping, fewer⟩ :=
      manned.own_step known notOutside free
    refine
      ⟨action, after, ⟨completes, Or.inl isOwn⟩, step,
        ⟨manned.step step notOverlapping, step_mshTid step known⟩, ?_⟩
    have noSteps : after.holderSteps thread = 0 := by
      unfold holderSteps
      split
      · rfl
      · next holder isHolder =>
          refine if_pos ?_
          rcases step_lock step with same | taken | released
          · exact free holder (same.symm.trans isHolder)
          · rw [isHolder, isOwn] at taken
            exact Option.some.inj taken
          · rw [isHolder] at released
            cases released
    rw [stepsToReturn, stepsToReturn, noSteps]
    omega
  · obtain ⟨holder, isHolder, other⟩ := not_forall₂.mp free
    obtain ⟨after, step, fewer⟩ := manned.holder_advances isHolder other
    exact
      ⟨.advance holder, after, ⟨trivial, Or.inr isHolder⟩, step,
        ⟨manned.step step id, step_mshTid step known⟩, fewer⟩

/-- A thread without an entry leaves its call in two steps. -/
theorem Manned.outsider_returns (manned : before.Manned)
    (unknown : before.mshTid thread = none)
    (notOverlapping : ¬ before.Overlapping (.readReallocated thread)) :
    ∃ run, FiniteRun (Step maxScavPerThread) before run ∧
      EveryStep
        (fun before action =>
          Completes action ∧
            (actor action = thread ∨ before.lock = some (actor action)))
        before run ∧
      (lastState before run).spot thread = .outside ∧ run.length ≤ 2 := by
  have noResume : (before.spot thread).resume? = none := by
    by_contra inside
    obtain ⟨tid, known⟩ := (manned.allowed thread).registered inside
    rw [unknown] at known
    cases known
  have noPointer : before.pointers thread = none := by
    rw [manned.pointed (by simp [noResume]), unknown]
  cases isAt : before.spot thread with
  | outside => exact ⟨[], .nil before, trivial, isAt, Nat.zero_le 2⟩
  | wild =>
      have bounded := (manned.allowed thread).bounded
      rw [isAt, stepsLeft] at bounded
      omega
  | entered =>
      have flagged : before.reallocatable thread = true := by
        simp only [reallocatable, noPointer]
        exact manned.dummy.mpr ⟨thread, noPointer, isAt⟩
      obtain ⟨after, exits, isLeft, notMarked⟩ :=
        exitCas_enabled isAt flagged
      obtain ⟨last, reads, returned, _⟩ := readReallocated_enabled isLeft
      exact
        ⟨[(.exitCas thread, after), (.readReallocated thread, last)],
          .cons exits (.cons reads (.nil last)),
          ⟨⟨trivial, Or.inl rfl⟩, ⟨trivial, Or.inl rfl⟩, trivial⟩,
          returned (notMarked noPointer), Nat.le_refl 2⟩
  | left =>
      have notMarked : before.reallocated thread = false := by
        rw [← Bool.not_eq_true,
          manned.toInv.reallocated_dummy_iff noPointer isAt]
        exact fun others => notOverlapping ⟨noPointer, others⟩
      obtain ⟨last, reads, returned, _⟩ := readReallocated_enabled isAt
      exact
        ⟨[(.readReallocated thread, last)], .cons reads (.nil last),
          ⟨⟨trivial, Or.inl rfl⟩, trivial⟩, returned notMarked,
          Nat.le_succ 1⟩
  | allocating resume => simp [isAt, resume?] at noResume
  | waiting resume demands => simp [isAt, resume?] at noResume
  | scanning resume demands retCounts rest => simp [isAt, resume?] at noResume
  | holding resume demands retCounts rest source =>
      simp [isAt, resume?] at noResume
  | stolen resume demands retCounts rest source cnt =>
      simp [isAt, resume?] at noResume
  | pooling resume demands retCounts => simp [isAt, resume?] at noResume
  | unlocking resume ret => simp [isAt, resume?] at noResume
  | finishing resume ret => simp [isAt, resume?] at noResume

/--
After any run without overlapping calls, every thread can go on to the end of
what it does: within a bounded number of steps, in which only the thread
itself and the holder of the lock move, and neither starts anything new.
-/
theorem eachThread_returns (maxScavPerThread : Int) (initial : Initial state)
    {run : List (HandshakeAction × Handshake)}
    (valid : FiniteRun (Step maxScavPerThread) state run)
    (guarded :
      EveryStep (fun before action => ¬ before.Overlapping action) state run)
    (thread : Thread)
    (notOverlapping :
      ¬ (lastState state run).Overlapping (.readReallocated thread)) :
    ∃ rest, FiniteRun (Step maxScavPerThread) (lastState state run) rest ∧
      EveryStep
        (fun before action =>
          Completes action ∧
            (actor action = thread ∨ before.lock = some (actor action)))
        (lastState state run) rest ∧
      (lastState (lastState state run) rest).spot thread = .outside ∧
      rest.length ≤ 6 * maxThreadNum + 16 := by
  have manned : (lastState state run).Manned :=
    valid.lastState_invariant
      (fun _ _ _ manned notOverlapping taken =>
        manned.step taken notOverlapping)
      initial.manned guarded
  generalize lastState state run = reached at *
  cases known : reached.mshTid thread with
  | none =>
      obtain ⟨rest, restValid, restGuarded, isOutside, short⟩ :=
        manned.outsider_returns known notOverlapping
      exact
        ⟨rest, restValid, restGuarded, isOutside,
          short.trans (Nat.le_add_left_of_le (by decide))⟩
  | some tid =>
      have progress : ∀ before : Handshake,
          (before.Manned ∧ before.mshTid thread = some tid) →
          ¬ before.spot thread = .outside → _ :=
        fun before inv notOutside =>
          @Manned.progress maxScavPerThread before thread tid inv.1 inv.2
            notOutside
      obtain ⟨rest, restValid, restGuarded, isOutside, short⟩ :=
        FiniteRun.exists_of_rank (stepsToReturn · thread) progress
          ⟨manned, known⟩
      refine ⟨rest, restValid, restGuarded, isOutside, short.trans ?_⟩
      have own := (manned.allowed thread).bounded
      have holders : reached.holderSteps thread ≤ 3 * maxThreadNum + 8 := by
        unfold holderSteps
        split
        · exact Nat.zero_le _
        · next holder isHolder =>
            split
            · exact Nat.zero_le _
            · exact (manned.allowed holder).bounded
      rw [stepsToReturn]
      omega

/-- A thread with an entry and one without are in calls. -/
def twoEntered : List (HandshakeAction × Handshake) :=
  execute (step? 0) start [.allocCtx 1 0, .advance 1, .enter 1, .enter 0]

theorem eachThread_returns_twoEntered :
    ∃ rest, FiniteRun (Step 0) (lastState start twoEntered) rest ∧
      EveryStep
        (fun before action =>
          Completes action ∧
            (actor action = 1 ∨ before.lock = some (actor action)))
        (lastState start twoEntered) rest ∧
      (lastState (lastState start twoEntered) rest).spot 1 = .outside ∧
      rest.length ≤ 6 * maxThreadNum + 16 := by
  have valid : FiniteRun (Step 0) start twoEntered :=
    execute_valid (step? 0) start _
  have noNeed : (Tables.zeroed.primTable 0).needMoreScav 0 = 0 := by
    decide +kernel
  refine eachThread_returns 0 start_initial valid ?_ 1 ?_
  · simp [twoEntered, execute, step?, start, goto, EveryStep, Overlapping,
      advance?, noNeed, Handshake.resumeWith]
  · simp [twoEntered, execute, step?, start, goto, setReallocatable, setFlag,
      lastState, Overlapping, advance?, noNeed, Handshake.resumeWith,
      update_apply]

end Handshake

end Msh
