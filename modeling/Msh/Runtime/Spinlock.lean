import Mathlib.Logic.Function.Basic
import Msh.Library.MutualExclusion

namespace Msh

open Function TransitionSystem MutualExclusion

/-!
# The spinlock of the tables

`spinlock.h` takes its lock with an exchange and, when another thread holds
it, only reads the byte until it is clear before it tries again.  Any number
of threads do so at the same time, each access to the byte being one atomic
step; what they do is what they would do with a lock that names its holder.
-/

namespace Spinlock

/-- `BUSY` -/
abbrev busy : BitVec 8 := 1

/-- `SPINLOCK_INITIALIZER` -/
abbrev spinlockInitializer : BitVec 8 := 0

/-- `xchg_8(ptr, x)`: what it returns, and the byte that it leaves. -/
def xchg8 (lock x : BitVec 8) : BitVec 16 × BitVec 8 :=
  (lock.setWidth 16, x)

/-- Where a thread is in `spin_lock`. -/
inductive Spot where
  /-- at the exchange -/
  | exchange
  /-- in the loop that reads the lock until it is clear -/
  | relax
  deriving DecidableEq, Repr

/--
The next access of `spin_lock` to the lock: the byte after it, and where the
thread is then; `none` when the function returns.
-/
def spinLock (lock : BitVec 8) : Spot → BitVec 8 × Option Spot
  | .exchange =>
      let exchanged := xchg8 lock busy
      if exchanged.1 = 0 then (exchanged.2, none)
      else (exchanged.2, some .relax)
  | .relax =>
      if lock ≠ 0 then (lock, some .relax) else (lock, some .exchange)

/-- `spin_lock` while no other thread moves, for at most `fuel` accesses. -/
def spinLockAlone : Nat → BitVec 8 → Spot → Option (BitVec 8)
  | 0, _, _ => none
  | fuel + 1, lock, spot =>
      match (spinLock lock spot).2 with
      | none => some (spinLock lock spot).1
      | some next => spinLockAlone fuel (spinLock lock spot).1 next

/-- `spin_unlock`: the byte that it leaves. -/
def spinUnlock : BitVec 8 := 0

/-- A client whose lock is a byte, and where its threads are in `spin_lock`. -/
structure Spinning (Thread State : Type) where
  state : State
  lock : BitVec 8
  spot : Thread → Spot

variable {Thread State : Type}

/-- The client has not started and the byte is `SPINLOCK_INITIALIZER`. -/
structure SpinInitial
    (client : Client Thread State) (spinning : Spinning Thread State) :
    Prop where
  state : client.initial spinning.state
  lock : spinning.lock = spinlockInitializer
  spot : ∀ thread, spinning.spot thread = .exchange

/--
A step of one thread.  A thread whose next step is to lock calls `spin_lock`;
it takes that step when the call returns.
-/
inductive SpinStep [DecidableEq Thread] (client : Client Thread State) :
    Spinning Thread State → Thread → Spinning Thread State → Prop where
  | other {before : Spinning Thread State} {thread : Thread} {after : State} :
      client.step before.state thread .none after →
      SpinStep client before thread { before with state := after }
  | spins {before : Spinning Thread State} {thread : Thread} {after : State}
      {lock : BitVec 8} {spot : Spot} :
      client.step before.state thread .lock after →
      spinLock before.lock (before.spot thread) = (lock, some spot) →
      SpinStep client before thread
        { before with
          lock := lock
          spot := update before.spot thread spot }
  | returns {before : Spinning Thread State} {thread : Thread} {after : State}
      {lock : BitVec 8} :
      client.step before.state thread .lock after →
      spinLock before.lock (before.spot thread) = (lock, none) →
      SpinStep client before thread
        { state := after
          lock := lock
          spot := update before.spot thread .exchange }
  | unlocks {before : Spinning Thread State} {thread : Thread}
      {after : State} :
      client.step before.state thread .unlock after →
      SpinStep client before thread
        { before with state := after, lock := spinUnlock }

/-- The states that threads with a spinlock get into. -/
abbrev SpinReachable [DecidableEq Thread]
    (client : Client Thread State) :
    Spinning Thread State → Prop :=
  Reachable (SpinInitial client) (SpinStep client)

/-- The byte of a lock with the given holder. -/
def lockByte : Option Thread → BitVec 8
  | none => spinlockInitializer
  | some _ => busy

/-- `spin_lock` returns only from an exchange that found the lock free. -/
theorem spinLock_returns_iff {lock after : BitVec 8} {spot : Spot} :
    spinLock lock spot = (after, none) ↔
      spot = .exchange ∧ lock = spinlockInitializer ∧ after = busy := by
  have zero (byte : BitVec 8) : byte.setWidth 16 = 0 ↔ byte = 0 := by
    revert byte
    decide
  cases spot with
  | exchange =>
      simp only [spinLock, xchg8, zero]
      split
      · next isFree => simp [isFree, eq_comm]
      · next isBusy => exact iff_of_false (by simp) fun all => isBusy all.2.1
  | relax =>
      simp only [spinLock]
      split <;> simp

/-- As long as `spin_lock` does not return, it leaves the byte as it was. -/
theorem spinLock_spins {holder : Option Thread} {after : BitVec 8}
    {spot next : Spot}
    (spins : spinLock (lockByte holder) spot = (after, some next)) :
    after = lockByte holder := by
  cases holder with
  | none =>
      cases spot with
      | exchange => simp [spinLock, xchg8, lockByte] at spins
      | relax =>
          simp only [spinLock, lockByte] at spins
          simp at spins
          exact spins.1.symm
  | some thread =>
      cases spot with
      | exchange =>
          simp [spinLock, xchg8, lockByte] at spins
          exact spins.1.symm
      | relax =>
          simp [spinLock, lockByte] at spins
          exact spins.1.symm

section Refinement

variable [DecidableEq Thread] {client : Client Thread State}
variable {spinning : Spinning Thread State}

/-- The byte stands for a lock that names its holder. -/
def StandsFor (spinning : Spinning Thread State)
    (guarded : Guarded Thread State) : Prop :=
  guarded.state = spinning.state ∧ spinning.lock = lockByte guarded.holder

/-- Threads with a spinlock do what they would do with a lock. -/
theorem spinning_refines (reachable : SpinReachable client spinning) :
    ∃ holder : Option Thread,
      client.GuardedReachable ⟨spinning.state, holder⟩ ∧
        spinning.lock = lockByte holder := by
  have simulated :
      ∃ guarded, client.GuardedReachable guarded ∧
        StandsFor spinning guarded := by
    refine reachable.simulated ?_ ?_
    · intro state isInitial
      exact ⟨⟨state.state, none⟩, ⟨isInitial.state, rfl⟩, rfl,
        isInitial.lock⟩
    · rintro before thread after ⟨state, holder⟩ guarded ⟨same, byte⟩ taken
      subst same
      cases taken with
      | other moved =>
          exact .inr ⟨_, ⟨_, holder⟩, .none moved, rfl, byte⟩
      | spins _ spins =>
          rw [byte] at spins
          exact .inl ⟨rfl, spinLock_spins spins⟩
      | returns moved returned =>
          obtain ⟨_, isFree, isBusy⟩ := spinLock_returns_iff.mp returned
          cases holder with
          | none => exact .inr ⟨_, ⟨_, some thread⟩, .lock moved, rfl, isBusy⟩
          | some other =>
              rw [byte] at isFree
              cases isFree
      | unlocks moved =>
          have holds : holder = some thread :=
            (Client.holder_eq_some_iff guarded thread).mpr
              (client.unlocks moved).1
          subst holds
          exact .inr ⟨_, ⟨_, none⟩, .unlock moved, rfl, rfl⟩
  obtain ⟨⟨state, holder⟩, guardedReachable, same, byte⟩ := simulated
  subst same
  exact ⟨holder, guardedReachable, byte⟩

/-- Alone, `spin_lock` returns after at most two accesses to a free lock. -/
theorem spinLockAlone_free (fuel : Nat) (spot : Spot) :
    spinLockAlone (fuel + 2) spinlockInitializer spot = some busy := by
  cases spot <;> simp [spinLockAlone, spinLock, xchg8]

/-- Alone, `spin_lock` never returns from a lock that is held. -/
theorem spinLockAlone_busy (fuel : Nat) (spot : Spot) :
    spinLockAlone fuel busy spot = none := by
  induction fuel generalizing spot with
  | zero => rfl
  | succ fuel ih =>
      cases spot with
      | exchange => exact ih .relax
      | relax => exact ih .relax

/--
Whatever the threads do and in whatever order, at most one is inside, the byte
is clear exactly when none is, and that is when `spin_lock`, left alone, takes
the lock.
-/
theorem spinlock_excludes
    (client : Client Thread State) (spinning : Spinning Thread State)
    (reachable : SpinReachable client spinning) :
    (∀ first second, client.inside spinning.state first →
      client.inside spinning.state second → first = second) ∧
    (spinning.lock = spinlockInitializer ∧
        (∀ thread, ¬ client.inside spinning.state thread) ∨
      spinning.lock = busy ∧
        ∃ thread, client.inside spinning.state thread) ∧
    ∀ thread fuel, 2 ≤ fuel →
      (spinLockAlone fuel spinning.lock (spinning.spot thread) = some busy ↔
        ∀ other, ¬ client.inside spinning.state other) := by
  obtain ⟨holder, guarded, byte⟩ := spinning_refines reachable
  refine ⟨fun first second => Client.inside_unique guarded, ?_, ?_⟩
  · cases holder with
    | none =>
        exact .inl ⟨byte, (Client.holder_eq_none_iff guarded).mp rfl⟩
    | some thread =>
        exact .inr
          ⟨byte, thread, (Client.holder_eq_some_iff guarded thread).mp rfl⟩
  · intro thread fuel enough
    obtain ⟨fuel, rfl⟩ := Nat.exists_eq_add_of_le' enough
    rw [byte, ← Client.holder_eq_none_iff guarded]
    cases holder with
    | none => exact iff_of_true (spinLockAlone_free ..) rfl
    | some thread =>
        rw [lockByte, spinLockAlone_busy]
        exact iff_of_false (by simp) (by simp)

end Refinement

/-- Threads that do nothing but lock and unlock. -/
inductive TurnStep [DecidableEq Thread] :
    (Thread → Bool) → Thread → LockOp → (Thread → Bool) → Prop where
  | lock {inside : Thread → Bool} {thread : Thread} :
      inside thread = false →
      TurnStep inside thread .lock (update inside thread true)
  | unlock {inside : Thread → Bool} {thread : Thread} :
      inside thread = true →
      TurnStep inside thread .unlock (update inside thread false)

/-- The client that locks and unlocks at any time. -/
def turns [DecidableEq Thread] : Client Thread (Thread → Bool) where
  initial inside := ∀ thread, inside thread = false
  step := TurnStep
  inside inside thread := inside thread = true
  starts := by
    intro inside none thread
    simp [none thread]
  locks := by
    rintro before after thread ⟨⟩
    simp_all
  unlocks := by
    rintro before after thread ⟨⟩
    simp_all
  keeps := by
    rintro before after thread ⟨⟩
  others := by
    rintro before after thread op (taken | taken) other isOther
    · rw [update_of_ne isOther]
    · rw [update_of_ne isOther]

/-- One of two threads holds the lock, the other reads the byte. -/
def waiting : Spinning Bool (Bool → Bool) where
  state := update (fun _ => false) true true
  lock := busy
  spot := update (update (fun _ => .exchange) true .exchange) false .relax

theorem waiting_reachable : SpinReachable turns waiting := by
  have start : SpinReachable (turns : Client Bool _)
      ⟨fun _ => false, spinlockInitializer, fun _ => .exchange⟩ :=
    .start ⟨fun _ => rfl, rfl, fun _ => rfl⟩
  have locks : TurnStep (fun _ => false) true .lock _ := .lock rfl
  have held := start.step (SpinStep.returns locks rfl)
  exact held.step (SpinStep.spins (TurnStep.lock rfl) rfl)

theorem spinlock_excludes_waiting :
    spinLockAlone 2 busy (waiting.spot false) = some busy ↔
      ∀ other, ¬ turns.inside waiting.state other :=
  (spinlock_excludes turns waiting waiting_reachable).2.2 false 2 (by decide)

end Spinlock

end Msh
