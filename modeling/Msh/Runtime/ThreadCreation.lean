import Mathlib.Algebra.Group.Nat.Defs
import Mathlib.Logic.Relation
import Msh.Library.Interference
import Msh.Runtime.Cleanup

namespace Msh

open TransitionSystem Interference Relation

/-!
# Thread creation

`pthread_create` is overridden: it numbers the threads with `thread_cnt`, and
the new thread runs `msh_start_routine`, which takes the entry of `PRIM_TABLE`
with its number before it calls the user's routine and cleans up after it.
The first call also initializes the runtime and registers the calling thread.
A number is never given back, so a thread finds an entry exactly when its
number is below `MAX_THREAD_NUM`.  Whether the user's routine and `msh_cleanup`
return, and what, is a parameter; what `msh_cleanup` returns is zero, and it
returns where `mshCleanup_runsToCompletion` says that it does.
-/

/-- `void *` -/
abbrev Pointer : Type := BitVec 64

/-- `NULL` -/
def nullPointer : Pointer := 0

/-- `struct msh_start_routine_arg` -/
structure MshStartRoutineArg where
  startRoutine : Pointer
  arg : Pointer
  threadId : Int
  deriving DecidableEq, Repr

/-- Where a created thread is in `msh_start_routine`. -/
inductive RoutineControl where
  /-- It has not run yet. -/
  | created
  /-- In the user's routine -/
  | running
  /-- In `msh_cleanup`, after the routine has returned `ret` -/
  | cleaning (ret : Pointer)
  | returned (ret : Pointer)
  deriving DecidableEq, Repr

/-- A created thread, with a record of the user's routines it has called. -/
structure Created where
  mshArg : MshStartRoutineArg
  control : RoutineControl
  /-- The entry of `PRIM_TABLE` that its `gs` register points to. -/
  entry : Option Int
  /-- The routines it has called, with their arguments. -/
  calls : List (Pointer × Pointer)
  deriving DecidableEq, Repr

/-- `msh_alloc_ctx`: the entry it takes, or `none` where it returns -1. -/
def mshAllocCtx (tid : Int) : Option Int :=
  if tid ≥ maxThreadNum then none else some tid

namespace CleanupState

/-- A thread that is in `msh_cleanup` leaves it with zero. -/
theorem step_returned
    {maxScavPerThread : Int} {tid : Tid} {state : CleanupState} {err : Int}
    (before : ∀ other, state.control = .returned other → other = 0)
    (after :
      (state.step maxScavPerThread tid).control = .returned err) :
    err = 0 := by
  have notResumed (crtPos : Int) :
      CleanupControl.resume crtPos ≠ .returned err := by
    unfold CleanupControl.resume
    split <;> nofun
  cases isAt : state.control with
  | find =>
      simp only [step, isAt] at after
      split at after
      · cases after
        rfl
      · cases after
  | sched retCrtPos =>
      simp only [step, isAt] at after
      split at after
      · cases after
      · exact absurd after (notResumed _)
  | run crtPos =>
      simp only [step, isAt] at after
      split at after
      · exact absurd after (notResumed _)
      · cases after
  | lost =>
      simp only [step, isAt] at after
      cases after
  | returned other =>
      simp only [step, isAt, CleanupControl.returned.injEq] at after
      rw [← after]
      exact before other isAt

/-- If `msh_cleanup` returns, it returns zero, whatever happened meanwhile. -/
theorem mshCleanup_returns
    {maxScavPerThread : Int} {skipCleanup : Bool} {tables : Tables}
    {tid : Tid} {coroutines : Nat → Coroutine}
    {left found : Nat → CleanupState}
    (run :
      Interference.Run (Interferes tid) (step maxScavPerThread tid)
        (mshCleanup skipCleanup tables tid coroutines) left found)
    {time : Nat} {err : Int}
    (returned : (left time).control = .returned err) :
    err = 0 := by
  induction time generalizing err with
  | zero =>
      rw [run.starts, mshCleanup] at returned
      split at returned
      · cases returned
        rfl
      · cases returned
  | succ time inductionHypothesis =>
      rw [run.stepped] at returned
      refine step_returned ?_ returned
      intro other isReturned
      rw [(run.interfered time).onlyTables] at isReturned
      exact inductionHypothesis isReturned

end CleanupState

/-- What a created thread's calls return, `none` where one never does. -/
structure Behaviour where
  /-- The user's routine -/
  result : Option Pointer
  /-- `msh_cleanup`, after the routine has returned -/
  err : Option Int
  deriving DecidableEq, Repr

/-- The routine returns, and then `msh_cleanup` does. -/
def Behaviour.returning (result : Pointer) : Behaviour :=
  ⟨some result, some 0⟩

namespace Created

/--
The next step of a thread in `msh_start_routine`; `none` when it has returned,
or when the call that it is in never does.
-/
def advance (behaviour : Behaviour) (thread : Created) : Option Created :=
  match thread.control with
  | .created =>
      match mshAllocCtx thread.mshArg.threadId with
      | none => some { thread with control := .returned nullPointer }
      | some entry =>
          some { thread with
            control := .running
            entry := some entry
            calls :=
              thread.calls ++
                [(thread.mshArg.startRoutine, thread.mshArg.arg)] }
  | .running =>
      behaviour.result.map fun ret =>
        { thread with control := .cleaning ret }
  | .cleaning ret =>
      behaviour.err.map fun err : Int =>
        { thread with
          control := .returned (if err ≠ 0 then nullPointer else ret) }
  | .returned _ => none

end Created

/-- The program: the counter, the first thread and the created ones. -/
structure Program where
  /-- `static _Atomic int thread_cnt` -/
  threadCnt : BitVec 32
  /-- How often `msh_init` has run. -/
  inits : Nat
  /-- The entry of the thread that called `pthread_create` first. -/
  firstEntry : Option Int
  /-- In the order in which `thread_cnt` has numbered them -/
  threads : List Created
  deriving DecidableEq, Repr

/-- What the threads of a program do. -/
inductive ProgramAction where
  /-- The first thread, or the created one with that index, creates one. -/
  | create (caller : Option Nat) (startRoutine arg : Pointer)
  /-- The thread with that index takes its next step. -/
  | advance (index : Nat)
  deriving DecidableEq, Repr

namespace Program

/--
The first part of `pthread_create`: "if (thread_cnt == 0)".  Where it fails,
`pthread_create` returns -1.
-/
def startRuntime
    (skipFirstThread : Bool) (initErr : Int) (program : Program) :
    Except Program Program :=
  if program.threadCnt = 0 then
    let started := { program with inits := program.inits + 1 }
    if initErr ≠ 0 then .error started
    else if skipFirstThread then .ok started
    else
      let counted :=
        { started with threadCnt := program.threadCnt + 1 }
      match mshAllocCtx program.threadCnt.toInt with
      | none => .error counted
      | some entry => .ok { counted with firstEntry := some entry }
  else .ok program

/--
`pthread_create` and what it returns; `initErr` and `originalErr` are what
`msh_init` and the original `pthread_create` return.  The threads meet only at
the atomic counter, and a created thread may run at any time after that.
-/
def pthreadCreate
    (skipFirstThread : Bool) (initErr originalErr : Int)
    (startRoutine arg : Pointer) (program : Program) : Program × Int :=
  match program.startRuntime skipFirstThread initErr with
  | .error left => (left, -1)
  | .ok ready =>
      let counted := { ready with threadCnt := ready.threadCnt + 1 }
      if originalErr ≠ 0 then (counted, originalErr)
      else
        ({ counted with
          threads :=
            counted.threads ++
              [⟨⟨startRoutine, arg, ready.threadCnt.toInt⟩,
                .created, none, []⟩] },
          originalErr)

/-- The first thread, or a created one inside its routine -/
def IsRunning (program : Program) (caller : Option Nat) : Bool :=
  caller.all fun index =>
    (program.threads[index]?).any fun thread =>
      thread.control = .running

/--
The step function, for threads that behave as given and with `msh_init` and
the original `pthread_create` succeeding.
-/
def step?
    (skipFirstThread : Bool) (behaviours : Nat → Behaviour)
    (program : Program) : ProgramAction → Option Program
  | .create caller startRoutine arg =>
      if program.IsRunning caller then
        some
          (program.pthreadCreate skipFirstThread 0 0 startRoutine arg).1
      else none
  | .advance index =>
      match program.threads[index]? with
      | none => none
      | some thread =>
          match thread.advance (behaviours index) with
          | none => none
          | some next =>
              some { program with
                threads := program.threads.set index next }

/-- The step relation. -/
def Step
    (skipFirstThread : Bool) (behaviours : Nat → Behaviour)
    (before : Program) (action : ProgramAction) (after : Program) : Prop :=
  before.step? skipFirstThread behaviours action = some after

/-- Before the first call of `pthread_create` -/
def start : Program := ⟨0, 0, none, []⟩

/-- The programs that some history of creations leads to. -/
abbrev Reachable (skipFirstThread : Bool) (behaviours : Nat → Behaviour) :
    Program → Prop :=
  TransitionSystem.Reachable (· = start) (Step skipFirstThread behaviours)

/-- How many threads have been given a number. -/
def numbered (program : Program) : Nat :=
  program.threads.length + program.firstEntry.toList.length

/-- How many threads are alive, the first one included. -/
def alive (program : Program) : Nat :=
  1 + program.threads.countP fun thread =>
    match thread.control with
    | .returned _ => false
    | _ => true

/-- The entry of the first thread, or of a created one. -/
def entryOf (program : Program) : Option Nat → Option Int
  | none => program.firstEntry
  | some index => (program.threads[index]?).bind (·.entry)

end Program

namespace Created

/-- The thread has an entry and has called its routine once. -/
structure Served (thread : Created) : Prop where
  fits : thread.mshArg.threadId < maxThreadNum
  entry : thread.entry = some thread.mshArg.threadId
  calledOnce :
    thread.calls = [(thread.mshArg.startRoutine, thread.mshArg.arg)]

/-- The thread has found no entry and has called nothing. -/
structure Rejected (thread : Created) : Prop where
  exceeds : maxThreadNum ≤ thread.mshArg.threadId
  noEntry : thread.entry = none
  notCalled : thread.calls = []

/-- What a thread has done so far. -/
def Follows (behaviour : Behaviour) (thread : Created) : Prop :=
  match thread.control with
  | .created => thread.entry = none ∧ thread.calls = []
  | .running => thread.Served
  | .cleaning ret => thread.Served ∧ behaviour.result = some ret
  | .returned ret =>
      (thread.Served ∧
        ∃ result err, behaviour = ⟨some result, some err⟩ ∧
          ret = if err ≠ 0 then nullPointer else result) ∨
        (thread.Rejected ∧ ret = nullPointer)

variable {behaviour : Behaviour} {thread next : Created}

/-- One step of `msh_start_routine` -/
theorem Follows.advance
    (follows : thread.Follows behaviour)
    (taken : thread.advance behaviour = some next) :
    next.Follows behaviour ∧ next.mshArg = thread.mshArg := by
  unfold Follows at follows
  unfold Created.advance at taken
  cases isAt : thread.control with
  | created =>
      simp only [isAt] at follows taken
      unfold mshAllocCtx at taken
      by_cases exceeds : thread.mshArg.threadId ≥ maxThreadNum
      · simp only [exceeds, ↓reduceIte] at taken
        cases taken
        exact ⟨.inr ⟨⟨exceeds, follows.1, follows.2⟩, rfl⟩, rfl⟩
      · simp only [exceeds, ↓reduceIte] at taken
        cases taken
        refine ⟨⟨Int.not_le.mp exceeds, rfl, ?_⟩, rfl⟩
        rw [follows.2]
        rfl
  | running =>
      simp only [isAt, Option.map_eq_some_iff] at follows taken
      obtain ⟨ret, returns, rfl⟩ := taken
      exact ⟨⟨⟨follows.fits, follows.entry, follows.calledOnce⟩, returns⟩,
        rfl⟩
  | cleaning ret =>
      simp only [isAt, Option.map_eq_some_iff] at follows taken
      obtain ⟨err, returns, rfl⟩ := taken
      obtain ⟨⟨fits, entry, calledOnce⟩, isResult⟩ := follows
      refine ⟨.inl ⟨⟨fits, entry, calledOnce⟩, ret, err, ?_, rfl⟩, rfl⟩
      rw [← isResult, ← returns]
  | returned ret =>
      simp only [isAt] at taken
      cases taken

/-- A thread that has a number below the limit has, or gets, its entry. -/
theorem Follows.served
    (follows : thread.Follows behaviour)
    (fits : thread.mshArg.threadId < maxThreadNum)
    (started : thread.control ≠ .created) :
    thread.Served := by
  unfold Follows at follows
  cases isAt : thread.control with
  | created =>
      exact absurd isAt started
  | running =>
      simp only [isAt] at follows
      exact follows
  | cleaning ret =>
      simp only [isAt] at follows
      exact follows.1
  | returned ret =>
      simp only [isAt] at follows
      rcases follows with served | rejected
      · exact served.1
      · exact absurd fits (Int.not_lt.mpr rejected.1.exceeds)

/-- One that has not has returned `NULL` as soon as it has run. -/
theorem Follows.rejected
    (follows : thread.Follows behaviour)
    (exceeds : maxThreadNum ≤ thread.mshArg.threadId)
    (started : thread.control ≠ .created) :
    thread.calls = [] ∧ thread.control = .returned nullPointer := by
  unfold Follows at follows
  cases isAt : thread.control with
  | created =>
      exact absurd isAt started
  | running =>
      simp only [isAt] at follows
      exact absurd exceeds (Int.not_le.mpr follows.fits)
  | cleaning ret =>
      simp only [isAt] at follows
      exact absurd exceeds (Int.not_le.mpr follows.1.fits)
  | returned ret =>
      simp only [isAt] at follows
      rcases follows with served | rejected
      · exact absurd exceeds (Int.not_le.mpr served.1.fits)
      · exact ⟨rejected.1.notCalled, rejected.2 ▸ rfl⟩

/-- An entry is the thread's number. -/
theorem Follows.entry_eq
    (follows : thread.Follows behaviour) {entry : Int}
    (isEntry : thread.entry = some entry) :
    entry = thread.mshArg.threadId ∧ entry < maxThreadNum := by
  have started : thread.control ≠ .created := by
    intro isAt
    simp only [Follows, isAt] at follows
    rw [follows.1] at isEntry
    cases isEntry
  have fits : thread.mshArg.threadId < maxThreadNum := by
    by_contra exceeds
    have returned :=
      (follows.rejected (Int.not_lt.mp exceeds) started).2
    simp only [Follows, returned] at follows
    rcases follows with served | rejected
    · exact exceeds served.1.fits
    · rw [rejected.1.noEntry] at isEntry
      cases isEntry
  have same : thread.mshArg.threadId = entry :=
    Option.some.inj
      ((follows.served fits started).entry.symm.trans isEntry)
  exact ⟨same.symm, same ▸ fits⟩

/-- A thread that has not run yet can take its first step. -/
theorem advance_created (isAt : thread.control = .created) :
    ∃ next, thread.advance behaviour = some next ∧
      next.control ≠ .created := by
  simp only [advance, isAt]
  split
  · exact ⟨_, rfl, nofun⟩
  · exact ⟨_, rfl, nofun⟩

/-- When its calls return, a thread takes steps until it has returned. -/
theorem advance_isSome {result : Pointer} {err : Int}
    (notReturned : ∀ ret, thread.control ≠ .returned ret) :
    ∃ next, thread.advance ⟨some result, some err⟩ = some next := by
  cases isAt : thread.control with
  | created =>
      obtain ⟨next, advanced, _⟩ := advance_created isAt
      exact ⟨next, advanced⟩
  | running =>
      simp only [advance, isAt]
      exact ⟨_, rfl⟩
  | cleaning ret =>
      simp only [advance, isAt]
      exact ⟨_, rfl⟩
  | returned ret =>
      exact absurd isAt (notReturned ret)

/-- How many steps a thread still takes at most. -/
def stepsLeft (thread : Created) : Nat :=
  match thread.control with
  | .created => 3
  | .running => 2
  | .cleaning _ => 1
  | .returned _ => 0

theorem advance_stepsLeft
    (taken : thread.advance behaviour = some next) :
    next.stepsLeft < thread.stepsLeft := by
  unfold advance at taken
  unfold stepsLeft
  cases isAt : thread.control with
  | created =>
      simp only [isAt] at taken
      split at taken <;> cases taken <;> simp
  | running =>
      simp only [isAt, Option.map_eq_some_iff] at taken
      obtain ⟨_, _, rfl⟩ := taken
      simp
  | cleaning ret =>
      simp only [isAt, Option.map_eq_some_iff] at taken
      obtain ⟨_, _, rfl⟩ := taken
      simp
  | returned ret =>
      simp only [isAt] at taken
      cases taken

end Created

namespace Program

variable {skipFirstThread : Bool} {behaviours : Nat → Behaviour}

/-- What the first call of `pthread_create` does before it creates a thread. -/
def ready (skipFirstThread : Bool) (program : Program) : Program :=
  if program.threadCnt = 0 then
    if skipFirstThread then { program with inits := program.inits + 1 }
    else
      { program with
        inits := program.inits + 1
        threadCnt := 1
        firstEntry := some 0 }
  else program

theorem startRuntime_eq (program : Program) :
    program.startRuntime skipFirstThread 0 =
      .ok (program.ready skipFirstThread) := by
  unfold startRuntime ready
  by_cases isZero : program.threadCnt = 0
  · cases skipFirstThread with
    | true =>
        simp [isZero]
    | false =>
        have fits : mshAllocCtx (0 : BitVec 32).toInt = some 0 := by
          decide
        simp only [isZero, ↓reduceIte, ne_eq, not_true_eq_false,
          Bool.false_eq_true, fits]
        rfl
  · simp only [isZero, ↓reduceIte]

theorem ready_threads (program : Program) :
    (program.ready skipFirstThread).threads = program.threads := by
  unfold ready
  split
  · split <;> rfl
  · rfl

/-- A new thread, as `pthread_create` leaves it. -/
def newThread (startRoutine arg : Pointer) (threadId : Int) : Created :=
  ⟨⟨startRoutine, arg, threadId⟩, .created, none, []⟩

/-- The two ways in which a step goes. -/
theorem Step.cases
    {before after : Program} {action : ProgramAction}
    (taken : Step skipFirstThread behaviours before action after) :
    (∃ caller startRoutine arg,
      action = .create caller startRoutine arg ∧
        after =
          { before.ready skipFirstThread with
            threadCnt := (before.ready skipFirstThread).threadCnt + 1
            threads :=
              before.threads ++
                [newThread startRoutine arg
                  (before.ready skipFirstThread).threadCnt.toInt] }) ∨
    (∃ index thread next,
      action = .advance index ∧
        before.threads[index]? = some thread ∧
        thread.advance (behaviours index) = some next ∧
        after = { before with threads := before.threads.set index next }) := by
  unfold Step at taken
  cases action with
  | create caller startRoutine arg =>
      simp only [step?, pthreadCreate, startRuntime_eq, ne_eq,
        not_true_eq_false, ↓reduceIte, ready_threads] at taken
      split at taken
      · cases taken
        exact .inl ⟨caller, startRoutine, arg, rfl, rfl⟩
      · cases taken
  | advance index =>
      simp only [step?] at taken
      split at taken
      · cases taken
      · next thread present =>
          split at taken
          · cases taken
          · next next advanced =>
              cases taken
              exact .inr ⟨index, thread, next, rfl, present, advanced, rfl⟩

/-- Numbers are never given back. -/
theorem Step.numbered_le
    {before after : Program} {action : ProgramAction}
    (taken : Step skipFirstThread behaviours before action after) :
    before.numbered ≤ after.numbered := by
  rcases taken.cases with
    ⟨caller, startRoutine, arg, -, rfl⟩ |
    ⟨index, thread, next, -, -, -, rfl⟩
  · have first :
        before.firstEntry.toList.length ≤
          (before.ready skipFirstThread).firstEntry.toList.length := by
      unfold ready
      split
      · split
        · exact Nat.le_refl _
        · cases before.firstEntry <;> simp
      · exact Nat.le_refl _
    simp only [numbered, List.length_append, List.length_singleton]
    omega
  · simp [numbered]

/-- A step of another thread leaves a thread as it is. -/
theorem Step.other
    {before after : Program} {action : ProgramAction}
    (taken : Step skipFirstThread behaviours before action after)
    {index : Nat} (notOwn : action ≠ .advance index) {thread : Created}
    (present : before.threads[index]? = some thread) :
    after.threads[index]? = some thread := by
  have inRange : index < before.threads.length :=
    (List.getElem?_eq_some_iff.mp present).1
  rcases taken.cases with
    ⟨caller, startRoutine, arg, -, rfl⟩ |
    ⟨other, thread, next, rfl, -, -, rfl⟩
  · rw [List.getElem?_append_left inRange]
    exact present
  · have different : other ≠ index := by
      rintro rfl
      exact notOwn rfl
    rw [List.getElem?_set_ne different]
    exact present

/-- A thread of the program after a step is new, or was there before. -/
theorem Step.thread_cases
    {before after : Program} {action : ProgramAction}
    (taken : Step skipFirstThread behaviours before action after)
    {index : Nat} {thread : Created}
    (present : after.threads[index]? = some thread) :
    (∃ startRoutine arg,
      index = before.threads.length ∧
        thread =
          newThread startRoutine arg
            (before.ready skipFirstThread).threadCnt.toInt) ∨
    before.threads[index]? = some thread ∨
    ∃ earlier,
      before.threads[index]? = some earlier ∧
        earlier.advance (behaviours index) = some thread := by
  rcases taken.cases with
    ⟨caller, startRoutine, arg, -, rfl⟩ |
    ⟨other, earlier, next, rfl, wasPresent, advanced, rfl⟩
  · simp only [List.getElem?_append] at present
    split at present
    · exact .inr (.inl present)
    · next beyond =>
        have last : index - before.threads.length = 0 := by
          by_contra later
          rw [List.getElem?_eq_none (by simp; omega)] at present
          cases present
        rw [last] at present
        cases present
        exact .inl ⟨startRoutine, arg, by omega, rfl⟩
  · by_cases same : other = index
    · subst other
      have inRange := (List.getElem?_eq_some_iff.mp wasPresent).1
      simp only [List.getElem?_set_self inRange] at present
      cases present
      exact .inr (.inr ⟨earlier, wasPresent, advanced⟩)
    · rw [List.getElem?_set_ne same] at present
      exact .inr (.inl present)

/-- The first number that a created thread gets. -/
def firstCreated (skipFirstThread : Bool) : Nat :=
  if skipFirstThread then 0 else 1

/-- The invariant of a program that has not exhausted `thread_cnt`. -/
structure Inv
    (skipFirstThread : Bool) (behaviours : Nat → Behaviour)
    (program : Program) : Prop where
  counted : program.threadCnt = BitVec.ofNat 32 program.numbered
  inits : program.inits = if program.threads = [] then 0 else 1
  first :
    program.firstEntry =
      if skipFirstThread ∨ program.threads = [] then none else some 0
  numberedBy :
    ∀ (index : Nat) (thread : Created),
      program.threads[index]? = some thread →
      thread.mshArg.threadId =
        (index + firstCreated skipFirstThread : Nat)
  follows :
    ∀ (index : Nat) (thread : Created),
      program.threads[index]? = some thread →
      thread.Follows (behaviours index)

theorem start_inv : start.Inv skipFirstThread behaviours where
  counted := rfl
  inits := rfl
  first := by
    simp [start]
  numberedBy := by
    simp [start]
  follows := by
    simp [start]

namespace Inv

variable {program : Program}

/-- The numbers given are those of the first thread and the created ones. -/
theorem numbered_eq
    (inv : program.Inv skipFirstThread behaviours)
    (someThread : program.threads ≠ []) :
    program.numbered =
      program.threads.length + firstCreated skipFirstThread := by
  have first := inv.first
  cases skipFirstThread with
  | true =>
      simp only [true_or, ↓reduceIte] at first
      simp [numbered, first, firstCreated]
  | false =>
      simp only [Bool.false_eq_true, someThread, or_self, ↓reduceIte]
        at first
      simp [numbered, first, firstCreated]

/-- The counter is zero exactly before the first thread is created. -/
theorem threadCnt_eq_zero_iff
    (inv : program.Inv skipFirstThread behaviours)
    (few : program.numbered ≤ 2 ^ 31) :
    program.threadCnt = 0 ↔ program.threads = [] := by
  constructor
  · intro isZero
    have zeroed := congrArg BitVec.toNat (inv.counted.symm.trans isZero)
    have noneNumbered : program.numbered = 0 := by
      simp only [BitVec.toNat_ofNat, BitVec.ofNat_eq_ofNat] at zeroed
      omega
    have := noneNumbered
    simp only [numbered] at this
    exact List.length_eq_zero_iff.mp (by omega)
  · intro noThreads
    have noFirst := inv.first
    simp only [noThreads, or_true, ↓reduceIte] at noFirst
    rw [inv.counted]
    simp [numbered, noThreads, noFirst]

/-- What the first part of `pthread_create` leaves. -/
theorem ready
    (inv : program.Inv skipFirstThread behaviours)
    (few : program.numbered ≤ 2 ^ 31) :
    (program.ready skipFirstThread).threadCnt =
        BitVec.ofNat 32
          (program.threads.length + firstCreated skipFirstThread) ∧
      (program.ready skipFirstThread).inits = 1 ∧
      (program.ready skipFirstThread).firstEntry =
        if skipFirstThread then none else some 0 := by
  have first := inv.first
  have inits := inv.inits
  have counted := inv.counted
  by_cases noThreads : program.threads = []
  · have isZero := (inv.threadCnt_eq_zero_iff few).mpr noThreads
    simp only [noThreads, ↓reduceIte, or_true] at inits first
    cases skipFirstThread with
    | true =>
        simp [Program.ready, isZero, inits, first, noThreads,
          firstCreated]
    | false =>
        simp [Program.ready, isZero, inits, noThreads, firstCreated]
  · have notZero : program.threadCnt ≠ 0 :=
      mt (inv.threadCnt_eq_zero_iff few).mp noThreads
    rw [inv.numbered_eq noThreads] at counted
    simp only [noThreads, ↓reduceIte, or_false] at inits first
    rw [Program.ready, if_neg notZero]
    exact ⟨counted, inits, first⟩

/-- The number that the next thread gets. -/
theorem nextNumber
    (inv : program.Inv skipFirstThread behaviours)
    (few :
      program.threads.length + firstCreated skipFirstThread < 2 ^ 31) :
    (program.ready skipFirstThread).threadCnt.toInt =
      (program.threads.length + firstCreated skipFirstThread : Nat) := by
  have fewNumbered : program.numbered ≤ 2 ^ 31 := by
    by_cases noThreads : program.threads = []
    · have first := inv.first
      simp only [noThreads, or_true, ↓reduceIte] at first
      simp [numbered, noThreads, first]
    · rw [inv.numbered_eq noThreads]
      omega
  rw [(inv.ready fewNumbered).1, BitVec.toInt_ofNat',
    Int.bmod_eq_of_le (by omega) (by omega)]

/-- One step keeps the invariant, unless it exhausts the counter. -/
theorem step
    {before after : Program} {action : ProgramAction}
    (inv : before.Inv skipFirstThread behaviours)
    (taken : Step skipFirstThread behaviours before action after)
    (few : after.numbered ≤ 2 ^ 31) :
    after.Inv skipFirstThread behaviours := by
  have fewBefore := Nat.le_trans taken.numbered_le few
  -- what the counter says of the threads is all that depends on the step
  have rest
      (counted : after.threadCnt = BitVec.ofNat 32 after.numbered)
      (inits : after.inits = if after.threads = [] then 0 else 1)
      (first :
        after.firstEntry =
          if skipFirstThread ∨ after.threads = [] then none else some 0)
      (newNumber :
        (before.ready skipFirstThread).threadCnt.toInt =
            (before.threads.length +
              firstCreated skipFirstThread : Nat) ∨
          after.threads.length = before.threads.length) :
      after.Inv skipFirstThread behaviours := by
    refine ⟨counted, inits, first, ?_, ?_⟩
    · intro index thread present
      rcases taken.thread_cases present with
        ⟨startRoutine, arg, rfl, rfl⟩ | old | ⟨earlier, old, advanced⟩
      · rcases newNumber with isNumber | noneNew
        · exact isNumber
        · have inRange := (List.getElem?_eq_some_iff.mp present).1
          omega
      · exact inv.numberedBy index thread old
      · rw [((inv.follows index earlier old).advance advanced).2]
        exact inv.numberedBy index earlier old
    · intro index thread present
      rcases taken.thread_cases present with
        ⟨startRoutine, arg, rfl, rfl⟩ | old | ⟨earlier, old, advanced⟩
      · exact ⟨rfl, rfl⟩
      · exact inv.follows index thread old
      · exact ((inv.follows index earlier old).advance advanced).1
  rcases taken.cases with
    ⟨caller, startRoutine, arg, -, rfl⟩ |
    ⟨index, thread, next, -, present, -, rfl⟩
  · obtain ⟨threadCnt, inits, first⟩ := inv.ready fewBefore
    have firstLength :
        (before.ready skipFirstThread).firstEntry.toList.length =
          firstCreated skipFirstThread := by
      rw [first, firstCreated]
      cases skipFirstThread <;> rfl
    simp only [numbered, List.length_append, List.length_singleton,
      firstLength] at few
    refine rest ?_ ?_ ?_ (.inl (inv.nextNumber (by omega)))
    · simp only [numbered, List.length_append, List.length_singleton,
        firstLength, threadCnt]
      rw [Nat.add_right_comm]
      exact (BitVec.ofNat_add _ 1).symm
    · simp [inits]
    · simp [first]
  · have someThread : before.threads ≠ [] := by
      intro noThreads
      rw [noThreads] at present
      cases present
    refine rest ?_ ?_ ?_ (.inr (by simp))
    · simp only [numbered, List.length_set]
      exact inv.counted
    · have inits := inv.inits
      simpa [someThread] using inits
    · have first := inv.first
      simpa [someThread] using first

end Inv

/-- The invariant holds as long as the counter is not exhausted. -/
theorem Reachable.inv
    {program : Program}
    (reachable : Reachable skipFirstThread behaviours program)
    (few : program.numbered ≤ 2 ^ 31) :
    program.Inv skipFirstThread behaviours := by
  refine
    @TransitionSystem.Reachable.invariant _ _ _ _
      (fun state =>
        state.numbered ≤ 2 ^ 31 → state.Inv skipFirstThread behaviours)
      ?_ ?_ program reachable few
  · rintro _ rfl _
    exact start_inv
  · intro before action after inv taken few
    exact (inv (Nat.le_trans taken.numbered_le few)).step taken few

/-! ## A thread among the others -/

/-- What happens between two steps of a thread. -/
def Elsewhere
    (skipFirstThread : Bool) (behaviours : Nat → Behaviour) (index : Nat) :
    Program → Program → Prop :=
  ReflTransGen fun before after =>
    ∃ action, action ≠ .advance index ∧
      Step skipFirstThread behaviours before action after

/-- The thread's own next step, if it has one. -/
def own
    (skipFirstThread : Bool) (behaviours : Nat → Behaviour) (index : Nat)
    (program : Program) : Program :=
  (program.step? skipFirstThread behaviours (.advance index)).getD program

/-- A thread comes to satisfy `goal`, by steps that it can always take. -/
def Reaches
    (skipFirstThread : Bool) (behaviours : Nat → Behaviour) (index : Nat)
    (goal : Created → Prop) : Program → Prop :=
  Inevitable
    (Elsewhere skipFirstThread behaviours index)
    (own skipFirstThread behaviours index)
    (fun before after =>
      Step skipFirstThread behaviours before (.advance index) after)
    (fun program =>
      ∃ thread, program.threads[index]? = some thread ∧ goal thread)

/-- What happens elsewhere leaves a thread as it is. -/
theorem Elsewhere.thread
    {before after : Program} {index : Nat}
    (passed : Elsewhere skipFirstThread behaviours index before after)
    {thread : Created}
    (present : before.threads[index]? = some thread) :
    after.threads[index]? = some thread := by
  induction passed with
  | refl =>
      exact present
  | tail _ taken inductionHypothesis =>
      obtain ⟨action, notOwn, taken⟩ := taken
      exact taken.other notOwn inductionHypothesis

/-- A thread's own step is that of `msh_start_routine`. -/
theorem step?_advance
    {program : Program} {index : Nat} {thread next : Created}
    (present : program.threads[index]? = some thread)
    (advanced : thread.advance (behaviours index) = some next) :
    program.step? skipFirstThread behaviours (.advance index) =
      some { program with threads := program.threads.set index next } := by
  simp only [step?, present, advanced]

/-- A thread that can take a step takes it, whatever the others do. -/
theorem reaches_of_advance
    {program : Program} {index : Nat} {thread next : Created}
    {goal : Created → Prop}
    (present : program.threads[index]? = some thread)
    (advanced : thread.advance (behaviours index) = some next)
    (rest :
      ∀ later : Program, later.threads[index]? = some next →
        Reaches skipFirstThread behaviours index goal later) :
    Reaches skipFirstThread behaviours index goal program := by
  have taken (found : Program)
      (passed :
        Elsewhere skipFirstThread behaviours index program found) :
      found.step? skipFirstThread behaviours (.advance index) =
        some { found with threads := found.threads.set index next } :=
    step?_advance (passed.thread present) advanced
  refine .step ?_ ?_
  · intro found passed
    simp only [Step, own, taken found passed, Option.getD_some]
  · intro found passed
    simp only [own, taken found passed, Option.getD_some]
    have inRange :=
      (List.getElem?_eq_some_iff.mp (passed.thread present)).1
    exact rest _ (List.getElem?_set_self inRange)

/-- Every thread starts. -/
theorem reaches_started
    {program : Program} {index : Nat} {thread : Created}
    (present : program.threads[index]? = some thread)
    (follows : thread.Follows (behaviours index)) :
    Reaches skipFirstThread behaviours index
      (fun later =>
        later.mshArg = thread.mshArg ∧
          later.Follows (behaviours index) ∧ later.control ≠ .created)
      program := by
  by_cases isAt : thread.control = .created
  · obtain ⟨next, advanced, started⟩ := Created.advance_created isAt
    obtain ⟨nextFollows, sameArg⟩ := follows.advance advanced
    refine reaches_of_advance present advanced fun later isNext => ?_
    exact .reached ⟨next, isNext, sameArg, nextFollows, started⟩
  · exact .reached ⟨thread, present, rfl, follows, isAt⟩

/-- A thread whose calls return comes to its own return. -/
theorem reaches_returned
    {program : Program} {index : Nat} {thread : Created}
    {result : Pointer} {err : Int}
    (behaves : behaviours index = ⟨some result, some err⟩)
    (present : program.threads[index]? = some thread)
    (follows : thread.Follows (behaviours index)) :
    Reaches skipFirstThread behaviours index
      (fun last =>
        last.mshArg = thread.mshArg ∧ last.Follows (behaviours index) ∧
          ∃ ret, last.control = .returned ret)
      program := by
  induction left : thread.stepsLeft using Nat.strong_induction_on
      generalizing program thread with
  | h steps inductionHypothesis =>
      by_cases isReturned : ∃ ret, thread.control = .returned ret
      · exact .reached ⟨thread, present, rfl, follows, isReturned⟩
      · obtain ⟨next, advanced⟩ :
            ∃ next, thread.advance (behaviours index) = some next := by
          rw [behaves]
          exact Created.advance_isSome (not_exists.mp isReturned)
        obtain ⟨nextFollows, sameArg⟩ := follows.advance advanced
        refine reaches_of_advance present advanced fun later isNext => ?_
        rw [← sameArg]
        exact inductionHypothesis next.stepsLeft
          (left ▸ Created.advance_stepsLeft advanced) isNext
          nextFollows rfl

/-- The number of the thread that has an entry. -/
def numberOf (skipFirstThread : Bool) : Option Nat → Nat
  | none => 0
  | some index => index + firstCreated skipFirstThread

/-- An entry is the number of the thread that has it. -/
theorem Inv.entryOf_eq
    {program : Program}
    (inv : program.Inv skipFirstThread behaviours)
    {owner : Option Nat} {entry : Int}
    (isEntry : program.entryOf owner = some entry) :
    entry = numberOf skipFirstThread owner ∧ entry < maxThreadNum ∧
      (owner = none → skipFirstThread = false) := by
  cases owner with
  | none =>
      have first := inv.first
      simp only [entryOf] at isEntry
      rw [isEntry] at first
      split at first
      · cases first
      · next registered =>
          cases first
          refine ⟨rfl, by decide, ?_⟩
          intro _
          cases skipFirstThread with
          | false => rfl
          | true => exact absurd (.inl rfl) registered
  | some index =>
      simp only [entryOf, Option.bind_eq_some_iff] at isEntry
      obtain ⟨thread, present, isEntry⟩ := isEntry
      obtain ⟨same, fits⟩ :=
        (inv.follows index thread present).entry_eq isEntry
      rw [inv.numberedBy index thread present] at same
      exact ⟨same, fits, nofun⟩

/-- Threads with numbers have different ones. -/
theorem numberOf_inj
    {first second : Option Nat}
    (counts : first = none ∨ second = none → skipFirstThread = false)
    (same :
      numberOf skipFirstThread first = numberOf skipFirstThread second) :
    first = second := by
  cases first with
  | none =>
      have := counts (.inl rfl)
      subst this
      cases second with
      | none => rfl
      | some index => simp [numberOf, firstCreated] at same
  | some index =>
      cases second with
      | none =>
          have := counts (.inr rfl)
          subst this
          simp [numberOf, firstCreated] at same
      | some other =>
          simp only [numberOf, Nat.add_right_cancel_iff] at same
          rw [same]

/-- Threads never share an entry. -/
theorem Inv.entryOf_inj
    {program : Program}
    (inv : program.Inv skipFirstThread behaviours)
    {first second : Option Nat} {entry : Int}
    (ofFirst : program.entryOf first = some entry)
    (ofSecond : program.entryOf second = some entry) :
    first = second := by
  obtain ⟨isFirst, -, firstCounts⟩ := inv.entryOf_eq ofFirst
  obtain ⟨isSecond, -, secondCounts⟩ := inv.entryOf_eq ofSecond
  refine numberOf_inj ?_ (Int.ofNat_inj.mp (isFirst.symm.trans isSecond))
  rintro (isNone | isNone)
  · exact firstCounts isNone
  · exact secondCounts isNone

/--
As long as at most 2^31 threads have been numbered, a created thread whose
number is below `MAX_THREAD_NUM` calls its routine once, and where the routine
and `msh_cleanup` return it returns the routine's result; a later one returns
`NULL` without calling it, and threads never share an entry.
-/
theorem pthreadCreate_transparent
    {program : Program}
    (reachable : Reachable skipFirstThread behaviours program)
    (few : program.numbered ≤ 2 ^ 31) :
    (∀ (index : Nat) (thread : Created),
      program.threads[index]? = some thread →
      thread.Follows (behaviours index) ∧
      (index + firstCreated skipFirstThread < maxThreadNum →
        Reaches skipFirstThread behaviours index
          (fun later =>
            later.mshArg = thread.mshArg ∧
              later.calls =
                [(thread.mshArg.startRoutine, thread.mshArg.arg)])
          program ∧
        ∀ result, behaviours index = .returning result →
          Reaches skipFirstThread behaviours index
            (fun last =>
              last.mshArg = thread.mshArg ∧
                last.calls =
                  [(thread.mshArg.startRoutine, thread.mshArg.arg)] ∧
                last.control = .returned result)
            program) ∧
      (maxThreadNum ≤ index + firstCreated skipFirstThread →
        Reaches skipFirstThread behaviours index
          (fun last =>
            last.calls = [] ∧ last.control = .returned nullPointer)
          program)) ∧
    (∀ first second entry,
      program.entryOf first = some entry →
      program.entryOf second = some entry →
      first = second) ∧
    (∀ owner entry,
      program.entryOf owner = some entry →
      0 ≤ entry ∧ entry ≤ maxThreadNum - 1) := by
  have inv := reachable.inv few
  refine ⟨?_, ?_, ?_⟩
  · intro index thread present
    have follows := inv.follows index thread present
    have isNumber := inv.numberedBy index thread present
    have starts :=
      @reaches_started skipFirstThread behaviours _ _ _ present follows
    refine ⟨follows, ?_, ?_⟩
    · intro fits
      have called {last : Created} (sameArg : last.mshArg = thread.mshArg)
          (lastFollows : last.Follows (behaviours index))
          (started : last.control ≠ .created) :
          last.calls =
            [(thread.mshArg.startRoutine, thread.mshArg.arg)] := by
        rw [← sameArg]
        refine (lastFollows.served ?_ started).calledOnce
        rw [sameArg, isNumber]
        omega
      refine ⟨starts.mono ?_, fun result behaves => ?_⟩
      · rintro last ⟨later, there, sameArg, laterFollows, started⟩
        exact ⟨later, there, sameArg, called sameArg laterFollows started⟩
      · have returns :=
          @reaches_returned skipFirstThread behaviours _ _ _ _ _ behaves
            present follows
        refine returns.mono ?_
        rintro last ⟨later, there, sameArg, laterFollows, ret, isReturned⟩
        have isCalled :=
          called sameArg laterFollows (by rw [isReturned]; nofun)
        refine ⟨later, there, sameArg, isCalled, ?_⟩
        simp only [Created.Follows, isReturned, behaves] at laterFollows
        rcases laterFollows with ⟨_, _, _, same, isRet⟩ | ⟨rejected, _⟩
        · cases same
          simpa [isRet] using isReturned
        · rw [rejected.notCalled] at isCalled
          cases isCalled
    · intro exceeds
      refine starts.mono ?_
      rintro last ⟨later, there, sameArg, laterFollows, started⟩
      refine ⟨later, there, laterFollows.rejected ?_ started⟩
      rw [sameArg, isNumber]
      omega
  · intro first second entry ofFirst ofSecond
    exact inv.entryOf_inj ofFirst ofSecond
  · intro owner entry isEntry
    obtain ⟨same, fits, -⟩ := inv.entryOf_eq isEntry
    omega

/-- Take the given steps from the start. -/
def startRun
    (skipFirstThread : Bool) (actions : List ProgramAction) : Program :=
  match (execute (step? skipFirstThread fun _ => .returning 5) start
      actions).getLast? with
  | none => start
  | some entry => entry.2

theorem startRun_reachable
    (skipFirstThread : Bool) (actions : List ProgramAction) :
    Reachable skipFirstThread (fun _ => .returning 5)
      (startRun skipFirstThread actions) := by
  have isStart : Reachable skipFirstThread (fun _ => .returning 5) start :=
    .start rfl
  unfold startRun
  split
  · exact isStart
  · next entry isLast =>
      exact isStart.of_finiteRun
        (execute_valid (step? skipFirstThread fun _ => .returning 5)
          start actions)
        entry (List.mem_of_getLast? isLast)

/-- A thread that creates another one while it runs -/
def twoCreated : Program :=
  startRun false
    [.create none 7 9, .advance 0, .create (some 0) 7 8, .advance 1]

theorem pthreadCreate_transparent_twoCreated :
    Reaches false (fun _ => .returning 5) 1
        (fun last =>
          last.mshArg = ⟨7, 8, 2⟩ ∧ last.calls = [(7, 8)] ∧
            last.control = .returned 5)
        twoCreated ∧
      twoCreated.entryOf none = some 0 ∧
      twoCreated.entryOf (some 1) = some 2 := by
  have reachable : Reachable false (fun _ => .returning 5) twoCreated :=
    startRun_reachable false _
  have present :
      twoCreated.threads[1]? =
        some ⟨⟨7, 8, 2⟩, .running, some 2, [(7, 8)]⟩ := by
    decide +kernel
  have transparent :=
    pthreadCreate_transparent reachable (by decide +kernel)
  refine
    ⟨((transparent.1 1 _ present).2.1 (by decide)).2 5 rfl, ?_, ?_⟩
  · decide +kernel
  · decide +kernel

/-- With 128 threads alive one of them returns, and another is created. -/
def replacedThread : List (ProgramAction × Program) :=
  execute (step? false fun _ => .returning 5) start
    (List.replicate 127 (.create none 7 9) ++
      [.advance 0, .advance 0, .advance 0, .create none 7 9,
        .advance 127])

/-- The new thread has number 128 and returns without calling its routine. -/
theorem replacedThread_notServed :
    ¬ ∀ (skipFirstThread : Bool) (results : Nat → Pointer)
        (run : List (ProgramAction × Program)),
      FiniteRun
        (Step skipFirstThread fun index => .returning (results index))
        start run →
      (∀ entry ∈ run, entry.2.alive ≤ maxThreadNum) →
      ∀ entry ∈ run, ∀ (index : Nat) (thread : Created) (ret : Pointer),
        entry.2.threads[index]? = some thread →
        thread.control = .returned ret →
        thread.calls = [(thread.mshArg.startRoutine, thread.mshArg.arg)] ∧
          ret = results index := by
  intro claimed
  have valid :
      FiniteRun (Step false fun _ => .returning 5) start replacedThread :=
    execute_valid (step? false fun _ => .returning 5) start _
  have fewAlive :
      ∀ entry ∈ replacedThread, entry.2.alive ≤ maxThreadNum := by
    decide +kernel
  have notCalled :
      ∃ entry ∈ replacedThread,
        entry.2.threads[127]? =
          some ⟨⟨7, 9, 128⟩, .returned nullPointer, none, []⟩ := by
    decide +kernel
  obtain ⟨entry, member, present⟩ := notCalled
  have served :=
    claimed false (fun _ => 5) _ valid fewAlive entry member 127 _ _
      present rfl
  exact List.cons_ne_nil _ _ served.1.symm

/-! ## Registration as a step of the runtime -/

/-- The runtime's entries are in use by the program's threads. -/
def Tracks (program : Program) (config : Config) : Prop :=
  ∀ tid : Tid,
    config.phase tid ≠ .idle ↔
      ∃ owner, program.entryOf owner = some (tid.val : Int)

/-- A thread's step changes no other thread's entry. -/
theorem Step.entryOf_other
    {before after : Program} {index : Nat}
    (taken : Step skipFirstThread behaviours before (.advance index) after)
    {owner : Option Nat} (other : owner ≠ some index) :
    after.entryOf owner = before.entryOf owner := by
  rcases taken.cases with
    ⟨_, _, _, isCreate, -⟩ | ⟨_, _, _, isOwn, -, -, rfl⟩
  · cases isCreate
  · cases isOwn
    cases owner with
    | none =>
        rfl
    | some query =>
        have different : index ≠ query := by
          rintro rfl
          exact other rfl
        simp only [entryOf, List.getElem?_set_ne different]

/-- A thread's step gives no numbers. -/
theorem Step.advance_numbered
    {before after : Program} {index : Nat}
    (taken : Step skipFirstThread behaviours before (.advance index) after) :
    after.numbered = before.numbered := by
  rcases taken.cases with
    ⟨_, _, _, isCreate, -⟩ | ⟨_, _, _, -, -, -, rfl⟩
  · cases isCreate
  · simp [numbered]

/--
A thread that takes an entry takes one that no thread has had, which is what
the runtime's machine asks of `msh_alloc_ctx`.
-/
theorem registration_enabled
    {before after : Program} {config : Config} {index : Nat} {tid : Tid}
    (reachable : Reachable skipFirstThread behaviours before)
    (few : before.numbered ≤ 2 ^ 31)
    (tracks : before.Tracks config)
    (taken : Step skipFirstThread behaviours before (.advance index) after)
    (wasFree : before.entryOf (some index) = none)
    (registered : after.entryOf (some index) = some (tid.val : Int))
    (maxScavPerThread : Int) :
    ∃ next,
      config.step? maxScavPerThread (.allocCtx tid) = some next ∧
        after.Tracks next := by
  have nextReachable : Reachable skipFirstThread behaviours after :=
    reachable.step taken
  have inv := nextReachable.inv (taken.advance_numbered ▸ few)
  -- the entries of the other threads are those that were in use before
  have wasUsed (query : Tid) :
      (∃ owner, before.entryOf owner = some (query.val : Int)) ↔
        ∃ owner, owner ≠ some index ∧
          after.entryOf owner = some (query.val : Int) := by
    constructor
    · rintro ⟨owner, isEntry⟩
      have other : owner ≠ some index := by
        rintro rfl
        rw [wasFree] at isEntry
        cases isEntry
      exact ⟨owner, other, (taken.entryOf_other other).trans isEntry⟩
    · rintro ⟨owner, other, isEntry⟩
      exact ⟨owner, (taken.entryOf_other other).symm.trans isEntry⟩
  have isIdle : config.phase tid = .idle := by
    by_contra inUse
    obtain ⟨owner, other, isEntry⟩ :=
      (wasUsed tid).mp ((tracks tid).mp inUse)
    exact other (inv.entryOf_inj isEntry registered)
  have taken :
      config.step? maxScavPerThread (.allocCtx tid) =
        some (config.goto tid config.tables
          (.allocating .initPrimary)) := by
    simp only [Config.step?, isIdle]
  refine ⟨_, taken, ?_⟩
  intro query
  by_cases same : query = tid
  · subst query
    simp only [Config.goto, Function.update_self, ne_eq, reduceCtorEq,
      not_false_eq_true, true_iff]
    exact ⟨some index, registered⟩
  · simp only [Config.goto, Function.update_of_ne same]
    rw [tracks query, wasUsed query]
    constructor
    · rintro ⟨owner, -, isEntry⟩
      exact ⟨owner, isEntry⟩
    · rintro ⟨owner, isEntry⟩
      refine ⟨owner, ?_, isEntry⟩
      rintro rfl
      refine same (Fin.ext (Int.ofNat_inj.mp ?_))
      exact Option.some.inj (isEntry.symm.trans registered)

end Program

end Msh
