import Msh.Runtime.HandshakeSafety
import Msh.Runtime.Spinlock

namespace Msh

open Function TransitionSystem MutualExclusion Spinlock

/-!
# The handshake on its spinlock

In the handshake the table lock is taken in one step.  Here the threads of the
handshake call `spin_lock` and `spin_unlock` of `spinlock.h` instead, any
number of them at the same time.  What they do is a run of the handshake, so
that everything that holds of its states holds of theirs.
-/

/-- What a thread's next step of `allocate_scav` does to the table lock. -/
def Spot.lockOp : Spot → LockOp
  | .waiting _ _ => .lock
  | .unlocking _ _ => .unlock
  | _ => .none

namespace Handshake

/--
The steps of the handshake as steps of a program with a lock: a step that
takes or returns the lock is taken when `spin_lock` or `spin_unlock` returns.
-/
inductive LockStep (maxScavPerThread : Int) :
    Handshake → Thread → LockOp → Handshake → Prop where
  | none {before after : Handshake} {action : HandshakeAction} :
      (before.spot (actor action)).lockOp = .none →
      Step maxScavPerThread before action after →
      LockStep maxScavPerThread before (actor action) .none after
  | lock {before : Handshake} {thread : Thread} {tid : Tid}
      {resume : Resume} {demands : Nat} :
      before.mshTid thread = some tid →
      before.spot thread = .waiting resume demands →
      LockStep maxScavPerThread before thread .lock
        { before.goto thread before.tables
            (.scanning resume demands 0 (List.finRange maxThreadNum)) with
          lock := some thread }
  | unlock {before : Handshake} {thread : Thread} {tid : Tid}
      {resume : Resume} {ret : Nat} :
      before.mshTid thread = some tid →
      before.spot thread = .unlocking resume ret →
      LockStep maxScavPerThread before thread .unlock
        { before.goto thread before.tables (.finishing resume ret) with
          lock := none }

variable {maxScavPerThread : Int}
variable {state before after : Handshake} {action : HandshakeAction}

@[simp] theorem setReallocatable_spot (thread : Thread) (flag : Bool) :
    (state.setReallocatable thread flag).spot = state.spot := by
  unfold setReallocatable
  split <;> rfl

theorem goto_spot (thread : Thread) (tables : Tables) (spot : Spot) :
    (state.goto thread tables spot).spot =
      update state.spot thread spot :=
  rfl

@[simp] theorem setReallocatable_lock (thread : Thread) (flag : Bool) :
    (state.setReallocatable thread flag).lock = state.lock := by
  unfold setReallocatable
  split <;> rfl

theorem goto_lock (thread : Thread) (tables : Tables) (spot : Spot) :
    (state.goto thread tables spot).lock = state.lock :=
  rfl

theorem resumeWith_lock (thread : Thread) (tid : Tid) (tables : Tables)
    (ret : Nat) (resume : Resume) :
    (state.resumeWith thread tid tables ret resume).lock = state.lock := by
  cases resume <;> rfl

theorem resumeWith_spot (thread : Thread) (tid : Tid) (tables : Tables)
    (ret : Nat) (resume : Resume) :
    (state.resumeWith thread tid tables ret resume).spot =
      update state.spot thread .outside := by
  cases resume <;> rfl

/-- A step of `allocate_scav` moves the thread that takes it. -/
theorem advance_spot {thread : Thread} {tid : Tid}
    (taken : state.advance? maxScavPerThread thread tid = some after) :
    ∃ spot, after.spot = update state.spot thread spot ∧
      ((state.spot thread).lockOp = .none →
        spot.locked = (state.spot thread).locked ∧
          after.lock = state.lock) := by
  cases isAt : state.spot thread with
  | outside => simp [advance?, isAt] at taken
  | entered => simp [advance?, isAt] at taken
  | left => simp [advance?, isAt] at taken
  | wild => simp [advance?, isAt] at taken
  | allocating resume =>
      simp only [advance?, isAt] at taken
      split at taken
      · cases taken
        exact ⟨_, resumeWith_spot .., fun _ => ⟨rfl, resumeWith_lock ..⟩⟩
      · cases taken
        exact ⟨_, rfl, fun _ => ⟨rfl, rfl⟩⟩
  | waiting resume demands =>
      simp only [advance?, isAt] at taken
      split at taken
      · cases taken
        exact ⟨_, rfl, fun isNone => by cases isNone⟩
      · cases taken
  | scanning resume demands retCounts rest =>
      cases rest with
      | nil =>
          simp only [advance?, isAt] at taken
          cases taken
          exact ⟨_, rfl, fun _ => ⟨rfl, rfl⟩⟩
      | cons source rest =>
          simp only [advance?, isAt] at taken
          split at taken
          · cases taken
            exact ⟨_, rfl, fun _ => ⟨rfl, rfl⟩⟩
          · cases taken
            exact ⟨_, rfl, fun _ => ⟨rfl, rfl⟩⟩
  | holding resume demands retCounts rest source =>
      simp only [advance?, isAt] at taken
      cases taken
      exact ⟨_, rfl, fun _ => ⟨rfl, rfl⟩⟩
  | stolen resume demands retCounts rest source cnt =>
      simp only [advance?, isAt] at taken
      cases taken
      refine ⟨_, rfl, fun _ => ⟨?_, rfl⟩⟩
      split <;> rfl
  | pooling resume demands retCounts =>
      simp only [advance?, isAt, Option.some.injEq] at taken
      rw [← taken]
      exact ⟨_, goto_spot .., fun _ => ⟨rfl, goto_lock ..⟩⟩
  | unlocking resume ret =>
      simp only [advance?, isAt] at taken
      cases taken
      exact ⟨_, rfl, fun isNone => by cases isNone⟩
  | finishing resume ret =>
      simp only [advance?, isAt] at taken
      cases taken
      exact ⟨_, resumeWith_spot .., fun _ => ⟨rfl, resumeWith_lock ..⟩⟩

/-- A step moves one thread, into or out of the locked section only by the lock. -/
theorem step_spot (taken : Step maxScavPerThread before action after) :
    ∃ spot, after.spot = update before.spot (actor action) spot ∧
      ((before.spot (actor action)).lockOp = .none →
        spot.locked = (before.spot (actor action)).locked ∧
          after.lock = before.lock) := by
  unfold Step at taken
  cases action with
  | allocCtx thread tid =>
      simp only [step?] at taken
      split at taken
      · next enabled =>
          cases taken
          exact ⟨_, rfl, fun _ => by rw [actor, enabled.1]; exact ⟨rfl, rfl⟩⟩
      · cases taken
  | schedule thread =>
      simp only [step?] at taken
      split at taken
      · next enabled =>
          cases taken
          exact ⟨_, rfl, fun _ => by rw [actor, enabled.1]; exact ⟨rfl, rfl⟩⟩
      · cases taken
  | enter thread =>
      simp only [step?] at taken
      split at taken
      · next isOutside =>
          cases taken
          refine ⟨.entered, ?_, fun _ => ⟨?_, setReallocatable_lock ..⟩⟩
          · rw [goto_spot, setReallocatable_spot, actor]
          · rw [actor, isOutside]
            rfl
      · cases taken
  | exitCas thread =>
      simp only [step?] at taken
      split at taken
      · next enabled =>
          cases taken
          refine ⟨.left, ?_, fun _ => ⟨?_, setReallocatable_lock ..⟩⟩
          · rw [goto_spot, setReallocatable_spot, actor]
          · rw [actor, enabled.1]
            rfl
      · cases taken
  | readReallocated thread =>
      simp only [step?] at taken
      split at taken
      · next isLeft =>
          split at taken
          · cases taken
            split
            · exact ⟨_, rfl, fun _ => by rw [actor, isLeft]; exact ⟨rfl, rfl⟩⟩
            · exact ⟨_, rfl, fun _ => by rw [actor, isLeft]; exact ⟨rfl, rfl⟩⟩
          · split at taken
            · cases taken
              exact ⟨_, rfl, fun _ => by rw [actor, isLeft]; exact ⟨rfl, rfl⟩⟩
            · cases taken
              exact ⟨_, rfl, fun _ => by rw [actor, isLeft]; exact ⟨rfl, rfl⟩⟩
      · cases taken
  | advance thread =>
      simp only [step?] at taken
      split at taken
      · exact advance_spot taken
      · cases taken
  | work thread ctx scavTable libs =>
      simp only [step?] at taken
      split at taken
      · split at taken
        · cases taken
          exact ⟨before.spot thread, (update_eq_self _ _).symm,
            fun _ => ⟨rfl, rfl⟩⟩
        · cases taken
      · cases taken

/-- The threads of the handshake, as a client of the lock. -/
def client (maxScavPerThread : Int) : Client Thread Handshake where
  initial := Initial
  step := LockStep maxScavPerThread
  inside state thread := (state.spot thread).locked = true
  starts := by
    intro state isInitial thread
    rw [isInitial.spot]
    exact Bool.false_ne_true
  locks := by
    intro before after thread taken
    cases taken with
    | lock known isAt =>
        refine ⟨?_, ?_⟩
        · rw [isAt]
          exact Bool.false_ne_true
        · simp only [goto_spot, update_self]
          rfl
  unlocks := by
    intro before after thread taken
    cases taken with
    | unlock known isAt =>
        refine ⟨?_, ?_⟩
        · rw [isAt]
          rfl
        · simp only [goto_spot, update_self]
          exact Bool.false_ne_true
  keeps := by
    intro before after thread taken
    cases taken with
    | none isNone step =>
        obtain ⟨spot, moves, keeps⟩ := step_spot step
        rw [moves, update_self, (keeps isNone).1]
  others := by
    intro before after thread op taken other isOther
    cases taken with
    | none isNone step =>
        obtain ⟨spot, moves, _⟩ := step_spot step
        rw [moves, update_of_ne isOther]
    | lock known isAt => simp only [goto_spot, update_of_ne isOther]
    | unlock known isAt => simp only [goto_spot, update_of_ne isOther]

/-- The threads with a lock do what the handshake does. -/
theorem guarded_reachable {guarded : Guarded Thread Handshake}
    (reachable : (client maxScavPerThread).GuardedReachable guarded) :
    guarded.state.lock = guarded.holder ∧
      Reachable Initial (Step maxScavPerThread) guarded.state := by
  induction reachable with
  | start isInitial =>
      exact ⟨isInitial.1.lock.trans isInitial.2.symm, .start isInitial.1⟩
  | step _ taken ih =>
      obtain ⟨sameLock, reaches⟩ := ih
      cases taken with
      | none moved =>
          cases moved with
          | none isNone step =>
              obtain ⟨_, _, keeps⟩ := step_spot step
              exact ⟨(keeps isNone).2.trans sameLock, reaches.step step⟩
      | @lock _ _ thread moved =>
          cases moved with
          | lock known isAt =>
              refine ⟨rfl, reaches.step
                (?_ : Step maxScavPerThread _ (.advance thread) _)⟩
              simp only [Step, step?, known, advance?, isAt]
              exact if_pos sameLock
      | @unlock _ _ thread moved =>
          cases moved with
          | unlock known isAt =>
              refine ⟨rfl, reaches.step
                (?_ : Step maxScavPerThread _ (.advance thread) _)⟩
              simp only [Step, step?, known, advance?, isAt]

/-- A thread at the lock, or about to return it, has one next step. -/
theorem eq_advance_of_lockOp
    (taken : Step maxScavPerThread before action after)
    (atLock : (before.spot (actor action)).lockOp ≠ .none) :
    action = .advance (actor action) := by
  have notOutside : before.spot (actor action) ≠ .outside := by
    intro isOutside
    rw [isOutside] at atLock
    exact atLock rfl
  unfold Step at taken
  cases action with
  | advance thread => rfl
  | allocCtx thread tid =>
      simp [step?, show before.spot thread ≠ .outside from notOutside] at taken
  | schedule thread =>
      simp [step?, show before.spot thread ≠ .outside from notOutside] at taken
  | enter thread =>
      simp [step?, show before.spot thread ≠ .outside from notOutside] at taken
  | work thread ctx scavTable libs =>
      simp only [step?] at taken
      split at taken
      · rw [if_neg (show before.spot thread ≠ .outside from notOutside)]
          at taken
        cases taken
      · cases taken
  | exitCas thread =>
      simp only [step?] at taken
      split at taken
      · next enabled =>
          rw [actor, enabled.1] at atLock
          exact absurd rfl atLock
      · cases taken
  | readReallocated thread =>
      simp only [step?] at taken
      split at taken
      · next isLeft =>
          rw [actor, isLeft] at atLock
          exact absurd rfl atLock
      · cases taken

/-- The holder of a lock after a thread's operation on it. -/
def holderAfter (holder : Option Thread) (thread : Thread) :
    LockOp → Option Thread
  | .none => holder
  | .lock => some thread
  | .unlock => none

/-- Every step of the handshake is a step of the client of its lock. -/
theorem Step.lockStep (taken : Step maxScavPerThread before action after) :
    ∃ op, LockStep maxScavPerThread before (actor action) op after ∧
      (op = .lock → before.lock = none) ∧
      after.lock = holderAfter before.lock (actor action) op := by
  cases atLock : (before.spot (actor action)).lockOp with
  | none =>
      obtain ⟨_, _, keeps⟩ := step_spot taken
      exact ⟨.none, .none atLock taken, by simp, (keeps atLock).2⟩
  | lock =>
      have advances := eq_advance_of_lockOp taken (by simp [atLock])
      generalize actor action = thread at *
      subst advances
      cases isAt : before.spot thread <;> rw [isAt] at atLock <;> cases atLock
      rename_i resume demands
      unfold Step step? at taken
      cases known : before.mshTid thread with
      | none => simp [known] at taken
      | some tid =>
          simp only [known, advance?, isAt] at taken
          split at taken
          · next isFree =>
              cases taken
              exact ⟨.lock, .lock known isAt, fun _ => isFree, rfl⟩
          · cases taken
  | unlock =>
      have advances := eq_advance_of_lockOp taken (by simp [atLock])
      generalize actor action = thread at *
      subst advances
      cases isAt : before.spot thread <;> rw [isAt] at atLock <;> cases atLock
      rename_i resume ret
      unfold Step step? at taken
      cases known : before.mshTid thread with
      | none => simp [known] at taken
      | some tid =>
          simp only [known, advance?, isAt] at taken
          cases taken
          exact ⟨.unlock, .unlock known isAt, by simp, rfl⟩

/-- Threads of which none is in `spin_lock`. -/
def noneSpins (state : Handshake) : Spinning Thread Handshake where
  state := state
  lock := lockByte state.lock
  spot _ := .exchange

/-- Each state of the handshake is reached with the spinlock. -/
theorem noneSpins_reachable
    (reachable : Reachable Initial (Step maxScavPerThread) state) :
    SpinReachable (client maxScavPerThread) (noneSpins state) := by
  induction reachable with
  | start isInitial =>
      refine .start ⟨isInitial, ?_, fun _ => rfl⟩
      simp only [noneSpins, isInitial.lock]
      rfl
  | @step before after action _ taken ih =>
      obtain ⟨op, step, free, lockAfter⟩ := taken.lockStep
      cases op with
      | none =>
          have moves := ih.step (SpinStep.other step)
          simpa only [noneSpins, lockAfter, holderAfter] using moves
      | lock =>
          have returns : spinLock (lockByte before.lock) .exchange =
              (busy, none) := by
            rw [free rfl]
            rfl
          have moves := ih.step (SpinStep.returns step returns)
          simpa only [noneSpins, lockAfter, holderAfter, lockByte,
            update_eq_self] using moves
      | unlock =>
          have moves := ih.step (SpinStep.unlocks step)
          simp only [noneSpins, lockAfter, holderAfter]
          exact moves

/--
With `spin_lock` and `spin_unlock` in place of the lock, the threads reach the
states of the handshake and no others, and the byte tells whether the table
lock is held.
-/
theorem spinning_states (maxScavPerThread : Int) (lock : BitVec 8)
    (state : Handshake) :
    (∃ spinning, SpinReachable (client maxScavPerThread) spinning ∧
        spinning.state = state ∧ spinning.lock = lock) ↔
      Reachable Initial (Step maxScavPerThread) state ∧
        lock = lockByte state.lock := by
  constructor
  · rintro ⟨spinning, reachable, rfl, rfl⟩
    obtain ⟨holder, guarded, byte⟩ := spinning_refines reachable
    obtain ⟨sameLock, reaches⟩ := guarded_reachable guarded
    have byHolder : lockByte spinning.state.lock = lockByte holder :=
      congrArg lockByte sameLock
    exact ⟨reaches, byte.trans byHolder.symm⟩
  · rintro ⟨reachable, rfl⟩
    exact ⟨noneSpins state, noneSpins_reachable reachable, rfl, rfl⟩

end Handshake

end Msh
