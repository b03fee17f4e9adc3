import Mathlib.Logic.Basic

/-!
# Labelled transition systems

Reachable states and finite runs of a labelled step relation, together with
the two induction rules the protocol proofs use: an invariant kept by every
step holds of every reachable state, and a property that each step keeps
exactly when it satisfies a guard holds throughout a run exactly when all of
the run's steps satisfy that guard.
-/

namespace TransitionSystem

variable {State Action : Type}

/-- States reachable from an initial state by any sequence of actions. -/
inductive Reachable
    (initial : State → Prop)
    (step : State → Action → State → Prop) : State → Prop where
  | start {state : State} :
      initial state →
      Reachable initial step state
  | step {before after : State} {action : Action} :
      Reachable initial step before →
      step before action after →
      Reachable initial step after

/-- A finite run: the actions taken and the states they lead to. -/
inductive FiniteRun
    (step : State → Action → State → Prop) :
    State → List (Action × State) → Prop where
  | nil (state : State) :
      FiniteRun step state []
  | cons {before after : State} {action : Action}
      {rest : List (Action × State)} :
      step before action after →
      FiniteRun step after rest →
      FiniteRun step before ((action, after) :: rest)

/-- Every step of a run satisfies `guard` in the state it is taken from. -/
def EveryStep
    (guard : State → Action → Prop) :
    State → List (Action × State) → Prop
  | _, [] => True
  | before, (action, after) :: rest =>
      guard before action ∧ EveryStep guard after rest

instance EveryStep.decidable
    (guard : State → Action → Prop)
    [∀ state action, Decidable (guard state action)] :
    (state : State) → (run : List (Action × State)) →
      Decidable (EveryStep guard state run)
  | _, [] => isTrue trivial
  | before, (action, after) :: rest =>
      have := EveryStep.decidable guard after rest
      inferInstanceAs
        (Decidable (guard before action ∧ EveryStep guard after rest))

/-- Every step of a run relates the states before and after it by `rel`. -/
def EveryTransition
    (rel : State → State → Prop) :
    State → List (Action × State) → Prop
  | _, [] => True
  | before, (_, after) :: rest =>
      rel before after ∧ EveryTransition rel after rest

/-- Where a run ends. -/
def lastState : State → List (Action × State) → State
  | state, [] => state
  | _, (_, after) :: rest => lastState after rest

/-- What the steps of a run put out, one after the other. -/
def emitted {Output : Type} (emit : State → Action → List Output) :
    State → List (Action × State) → List Output
  | _, [] => []
  | before, (action, after) :: rest =>
      emit before action ++ emitted emit after rest

namespace Reachable

variable
  {initial : State → Prop}
  {step : State → Action → State → Prop}

/-- An inductive invariant holds of every reachable state. -/
theorem invariant
    {Inv : State → Prop}
    (base : ∀ state, initial state → Inv state)
    (preserved :
      ∀ before action after,
        Inv before → step before action after → Inv after)
    {state : State}
    (reachable : Reachable initial step state) :
    Inv state := by
  induction reachable with
  | start isInitial =>
      exact base _ isInitial
  | step _ taken inductionHypothesis =>
      exact preserved _ _ _ inductionHypothesis taken

/-- Every state along a run from a reachable state is reachable. -/
theorem of_finiteRun
    {state : State}
    {run : List (Action × State)}
    (reachable : Reachable initial step state)
    (valid : FiniteRun step state run) :
    ∀ entry ∈ run, Reachable initial step entry.2 := by
  induction valid with
  | nil =>
      simp
  | cons taken _ inductionHypothesis =>
      have next := reachable.step taken
      intro entry member
      rcases List.mem_cons.mp member with isHead | inRest
      · subst entry
        exact next
      · exact inductionHypothesis next entry inRest

/--
An implementation whose steps are steps of a specification, or leave the state
of the specification as it is, is only in states that the specification is in.
-/
theorem simulated
    {Spec SpecAction : Type}
    {specInitial : Spec → Prop}
    {specStep : Spec → SpecAction → Spec → Prop}
    {Stands : State → Spec → Prop}
    (base :
      ∀ state, initial state → ∃ spec, specInitial spec ∧ Stands state spec)
    (simulates :
      ∀ before action after spec,
        Reachable specInitial specStep spec →
        Stands before spec → step before action after →
        Stands after spec ∨
          ∃ specAction next,
            specStep spec specAction next ∧ Stands after next)
    {state : State}
    (reachable : Reachable initial step state) :
    ∃ spec, Reachable specInitial specStep spec ∧ Stands state spec := by
  induction reachable with
  | start isInitial =>
      obtain ⟨spec, specStarts, stands⟩ := base _ isInitial
      exact ⟨spec, .start specStarts, stands⟩
  | step _ taken inductionHypothesis =>
      obtain ⟨spec, specReachable, stands⟩ := inductionHypothesis
      rcases simulates _ _ _ spec specReachable stands taken with
        stutters | ⟨specAction, next, specTaken, nextStands⟩
      · exact ⟨spec, specReachable, stutters⟩
      · exact ⟨next, specReachable.step specTaken, nextStands⟩

end Reachable

namespace FiniteRun

variable {step : State → Action → State → Prop}

/-- An invariant of the state together with all that has been put out. -/
theorem emitted_invariant
    {Output : Type} {emit : State → Action → List Output}
    {Inv : State → List Output → Prop}
    (preserved :
      ∀ before action after log,
        Inv before log → step before action after →
          Inv after (log ++ emit before action))
    {state : State} {run : List (Action × State)}
    (valid : FiniteRun step state run)
    {log : List Output} (inv : Inv state log) :
    Inv (lastState state run) (log ++ emitted emit state run) := by
  induction valid generalizing log with
  | nil =>
      rw [emitted, List.append_nil]
      exact inv
  | cons taken _ inductionHypothesis =>
      rw [emitted, ← List.append_assoc]
      exact inductionHypothesis (preserved _ _ _ _ inv taken)

/--
When the invariant makes "the step satisfies the guard" equivalent to "the
state it leads to satisfies the property", a whole run keeps the property
exactly when all of its steps satisfy the guard.
-/
theorem forall_states_iff_everyStep
    (Inv : State → Prop)
    {guard : State → Action → Prop}
    {Good : State → Prop}
    (preserved :
      ∀ before action after,
        Inv before → guard before action →
        step before action after → Inv after)
    (exact_ :
      ∀ before action after,
        Inv before → step before action after →
        (Good after ↔ guard before action))
    {state : State}
    {run : List (Action × State)}
    (valid : FiniteRun step state run)
    (inv : Inv state) :
    (∀ entry ∈ run, Good entry.2) ↔ EveryStep guard state run := by
  induction valid with
  | nil =>
      simp [EveryStep]
  | @cons before after action rest taken _ inductionHypothesis =>
      have headExact := exact_ before action after inv taken
      simp only [List.forall_mem_cons, EveryStep, headExact]
      constructor
      · rintro ⟨guarded, restGood⟩
        have nextInv := preserved before action after inv guarded taken
        exact ⟨guarded, (inductionHypothesis nextInv).mp restGood⟩
      · rintro ⟨guarded, restGuarded⟩
        have nextInv := preserved before action after inv guarded taken
        exact ⟨guarded, (inductionHypothesis nextInv).mpr restGuarded⟩

/--
When the invariant makes a property of a step equivalent to a guard, all of a
run's steps have the property exactly when all of them satisfy the guard.
-/
theorem everyStep_iff_everyStep
    (Inv : State → Prop)
    {property guard : State → Action → Prop}
    (preserved :
      ∀ before action after,
        Inv before → guard before action →
        step before action after → Inv after)
    (exact_ :
      ∀ before action after,
        Inv before → step before action after →
        (property before action ↔ guard before action))
    {state : State}
    {run : List (Action × State)}
    (valid : FiniteRun step state run)
    (inv : Inv state) :
    EveryStep property state run ↔ EveryStep guard state run := by
  induction valid with
  | nil =>
      exact Iff.rfl
  | @cons before after action rest taken _ inductionHypothesis =>
      simp only [EveryStep, exact_ before action after inv taken]
      refine and_congr_right ?_
      intro guarded
      exact inductionHypothesis
        (preserved before action after inv guarded taken)

/-- An invariant that guarded steps keep holds where a guarded run ends. -/
theorem lastState_invariant
    {Inv : State → Prop}
    {guard : State → Action → Prop}
    (preserved :
      ∀ before action after,
        Inv before → guard before action →
        step before action after → Inv after)
    {state : State}
    {run : List (Action × State)}
    (valid : FiniteRun step state run)
    (inv : Inv state)
    (guarded : EveryStep guard state run) :
    Inv (lastState state run) := by
  induction valid with
  | nil =>
      exact inv
  | cons taken _ inductionHypothesis =>
      exact
        inductionHypothesis (preserved _ _ _ inv guarded.1 taken) guarded.2

/--
Where each state short of the goal has a guarded step to a state of smaller
rank, a guarded run leads to the goal, in no more steps than the rank.
-/
theorem exists_of_rank
    {Inv Goal : State → Prop}
    {guard : State → Action → Prop}
    (rank : State → Nat)
    (progress :
      ∀ before, Inv before → ¬ Goal before →
        ∃ action after,
          guard before action ∧ step before action after ∧
            Inv after ∧ rank after < rank before)
    {state : State}
    (inv : Inv state) :
    ∃ run, FiniteRun step state run ∧ EveryStep guard state run ∧
      Goal (lastState state run) ∧ run.length ≤ rank state := by
  induction isRank : rank state using Nat.strongRecOn generalizing state with
  | ind bound inductionHypothesis =>
      by_cases reached : Goal state
      · exact ⟨[], .nil state, trivial, reached, Nat.zero_le _⟩
      · obtain ⟨action, after, guarded, taken, nextInv, smaller⟩ :=
          progress state inv reached
        rw [isRank] at smaller
        obtain ⟨run, valid, restGuarded, goal, short⟩ :=
          inductionHypothesis _ smaller nextInv rfl
        exact
          ⟨(action, after) :: run, .cons taken valid,
            ⟨guarded, restGuarded⟩, goal,
            Nat.le_trans (Nat.succ_le_succ short) smaller⟩

/-- Guards that agree on every step agree on every run. -/
theorem everyStep_congr
    {first second : State → Action → Prop}
    (agree :
      ∀ before action after,
        step before action after →
        (first before action ↔ second before action))
    {state : State}
    {run : List (Action × State)}
    (valid : FiniteRun step state run) :
    EveryStep first state run ↔ EveryStep second state run := by
  induction valid with
  | nil =>
      exact Iff.rfl
  | cons taken _ inductionHypothesis =>
      simp only [EveryStep, agree _ _ _ taken, inductionHypothesis]

/--
A run whose steps satisfy the guard keeps an invariant that such steps keep,
and relates the states around each step as such steps do.
-/
theorem of_everyStep
    (Inv : State → Prop)
    {guard : State → Action → Prop}
    (rel : State → State → Prop)
    (preserved :
      ∀ before action after,
        Inv before → guard before action →
        step before action after → Inv after ∧ rel before after)
    {state : State}
    {run : List (Action × State)}
    (valid : FiniteRun step state run)
    (inv : Inv state)
    (guarded : EveryStep guard state run) :
    (∀ entry ∈ run, Inv entry.2) ∧ EveryTransition rel state run := by
  induction valid with
  | nil =>
      exact ⟨by simp, trivial⟩
  | @cons before after action rest taken _ inductionHypothesis =>
      obtain ⟨nextInv, related⟩ :=
        preserved before action after inv guarded.1 taken
      obtain ⟨restInv, restRelated⟩ :=
        inductionHypothesis nextInv guarded.2
      exact ⟨List.forall_mem_cons.mpr ⟨nextInv, restInv⟩,
        related, restRelated⟩

/--
A run whose steps satisfy the guard has a property of its steps that the
invariant gives to each of them.
-/
theorem everyStep_of_everyStep
    (Inv : State → Prop)
    {guard : State → Action → Prop}
    (property : State → Action → Prop)
    (preserved :
      ∀ before action after,
        Inv before → guard before action →
        step before action after → Inv after ∧ property before action)
    {state : State}
    {run : List (Action × State)}
    (valid : FiniteRun step state run)
    (inv : Inv state)
    (guarded : EveryStep guard state run) :
    EveryStep property state run := by
  induction valid with
  | nil =>
      trivial
  | @cons before after action rest taken _ inductionHypothesis =>
      obtain ⟨nextInv, holds⟩ :=
        preserved before action after inv guarded.1 taken
      exact ⟨holds, inductionHypothesis nextInv guarded.2⟩

end FiniteRun

section Execution

variable (step? : State → Action → Option State)

/-- Take the given steps one after the other, up to one not enabled. -/
def execute (state : State) : List Action → List (Action × State)
  | [] => []
  | action :: rest =>
      match step? state action with
      | none => []
      | some next => (action, next) :: execute next rest

/-- Executing a step function gives a run of its step relation. -/
theorem execute_valid (state : State) (actions : List Action) :
    FiniteRun (fun before action after => step? before action = some after)
      state (execute step? state actions) := by
  induction actions generalizing state with
  | nil =>
      exact .nil state
  | cons action rest inductionHypothesis =>
      unfold execute
      cases taken : step? state action with
      | none =>
          exact .nil state
      | some next =>
          exact .cons taken (inductionHypothesis next)

end Execution

end TransitionSystem
