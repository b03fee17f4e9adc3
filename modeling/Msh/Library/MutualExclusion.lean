import Msh.Library.TransitionSystem

/-!
# Threads that share a lock

A client is a program of threads in which some steps take a lock and some give
it back.  `GuardedStep` runs it with the lock that its author has in mind, a
variable that names the holder.  An implementation of the lock is right when
what its threads do is a run of `GuardedStep`.
-/

namespace MutualExclusion

open TransitionSystem

variable {Thread State : Type}

/-- What a step does to the lock. -/
inductive LockOp where
  | none
  | lock
  | unlock
  deriving DecidableEq, Repr

/-- A program of threads, each of which locks and unlocks in turn. -/
structure Client (Thread State : Type) where
  initial : State → Prop
  step : State → Thread → LockOp → State → Prop
  /-- The thread is between its `lock` and its `unlock`. -/
  inside : State → Thread → Prop
  starts :
    ∀ {state : State}, initial state → ∀ thread, ¬ inside state thread
  locks :
    ∀ {before after : State} {thread : Thread},
      step before thread .lock after →
        ¬ inside before thread ∧ inside after thread
  unlocks :
    ∀ {before after : State} {thread : Thread},
      step before thread .unlock after →
        inside before thread ∧ ¬ inside after thread
  keeps :
    ∀ {before after : State} {thread : Thread},
      step before thread .none after →
        (inside after thread ↔ inside before thread)
  others :
    ∀ {before after : State} {thread : Thread} {op : LockOp},
      step before thread op after →
        ∀ other, other ≠ thread →
          (inside after other ↔ inside before other)

/-- The client's state together with the holder of the lock. -/
structure Guarded (Thread State : Type) where
  state : State
  holder : Option Thread

namespace Client

variable (client : Client Thread State)

/-- The client has not started and the lock is free. -/
def GuardedInitial (guarded : Guarded Thread State) : Prop :=
  client.initial guarded.state ∧ guarded.holder = none

/-- The lock is taken only while it is free, and given back by its holder. -/
inductive GuardedStep :
    Guarded Thread State → Thread × LockOp → Guarded Thread State → Prop where
  | none {before after : State} {thread : Thread} {holder : Option Thread} :
      client.step before thread .none after →
      GuardedStep ⟨before, holder⟩ (thread, .none) ⟨after, holder⟩
  | lock {before after : State} {thread : Thread} :
      client.step before thread .lock after →
      GuardedStep ⟨before, none⟩ (thread, .lock) ⟨after, some thread⟩
  | unlock {before after : State} {thread : Thread} :
      client.step before thread .unlock after →
      GuardedStep ⟨before, some thread⟩ (thread, .unlock) ⟨after, none⟩

/-- The states of the client with its lock. -/
abbrev GuardedReachable : Guarded Thread State → Prop :=
  Reachable client.GuardedInitial client.GuardedStep

variable {client}

theorem GuardedStep.holder_iff
    {before after : Guarded Thread State} {action : Thread × LockOp}
    (holds :
      ∀ thread, before.holder = some thread ↔
        client.inside before.state thread)
    (taken : client.GuardedStep before action after) (query : Thread) :
    after.holder = some query ↔ client.inside after.state query := by
  cases taken with
  | @none state next thread holder moved =>
      have same : client.inside next query ↔ client.inside state query := by
        by_cases own : query = thread
        · rw [own]
          exact client.keeps moved
        · exact client.others moved query own
      exact (holds query).trans same.symm
  | @lock state next thread moved =>
      have wasFree : ¬ client.inside state query :=
        fun inside => nomatch (holds query).mpr inside
      by_cases own : query = thread
      · rw [own]
        exact iff_of_true rfl (client.locks moved).2
      · have notInside : ¬ client.inside next query :=
          fun inside => wasFree ((client.others moved query own).mp inside)
        refine iff_of_false ?_ notInside
        intro same
        exact own (Option.some.inj same).symm
  | @unlock state next thread moved =>
      have notInside : ¬ client.inside next query := by
        by_cases own : query = thread
        · rw [own]
          exact (client.unlocks moved).2
        · intro inside
          have wasInside := (client.others moved query own).mp inside
          exact own (Option.some.inj ((holds query).mpr wasInside)).symm
      exact iff_of_false nofun notInside

/-- The holder is the one thread between its `lock` and its `unlock`. -/
theorem holder_eq_some_iff
    {guarded : Guarded Thread State}
    (reachable : client.GuardedReachable guarded) (thread : Thread) :
    guarded.holder = some thread ↔ client.inside guarded.state thread := by
  have holds :
      ∀ thread, guarded.holder = some thread ↔
        client.inside guarded.state thread := by
    induction reachable with
    | start isInitial =>
        intro query
        rw [isInitial.2]
        exact iff_of_false nofun (client.starts isInitial.1 query)
    | step _ taken inductionHypothesis =>
        exact taken.holder_iff inductionHypothesis
  exact holds thread

/-- Two threads are never both between their `lock` and their `unlock`. -/
theorem inside_unique
    {guarded : Guarded Thread State}
    (reachable : client.GuardedReachable guarded) {first second : Thread}
    (firstInside : client.inside guarded.state first)
    (secondInside : client.inside guarded.state second) :
    first = second := by
  have firstHolds := (holder_eq_some_iff reachable first).mpr firstInside
  have secondHolds := (holder_eq_some_iff reachable second).mpr secondInside
  exact Option.some.inj (firstHolds.symm.trans secondHolds)

/-- The lock is free exactly when no thread is inside. -/
theorem holder_eq_none_iff
    {guarded : Guarded Thread State}
    (reachable : client.GuardedReachable guarded) :
    guarded.holder = none ↔ ∀ thread, ¬ client.inside guarded.state thread := by
  constructor
  · intro free thread inside
    have holds := (holder_eq_some_iff reachable thread).mpr inside
    rw [free] at holds
    cases holds
  · intro nobody
    cases held : guarded.holder with
    | none => rfl
    | some thread =>
        exact absurd ((holder_eq_some_iff reachable thread).mp held)
          (nobody thread)

end Client

end MutualExclusion
