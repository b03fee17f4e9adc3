/-!
# Progress under interference

A deterministic component takes its own steps; before each of them its
environment may change the state in any way that `interfere` allows.
`Inevitable` says that the component reaches a goal whatever the environment
does, and that each of its own steps up to there has the effect `effect`.
-/

namespace Interference

variable
  {State : Type}
  (interfere : State → State → Prop)
  (step : State → State)

/-- A run: where each step leaves the state, and where the next one finds it. -/
structure Run (start : State) (left found : Nat → State) : Prop where
  starts : left 0 = start
  interfered : ∀ time, interfere (left time) (found time)
  stepped : ∀ time, left (time + 1) = step (found time)

/-- Every run reaches the goal, by steps that have the effect. -/
inductive Inevitable
    (effect : State → State → Prop) (goal : State → Prop) :
    State → Prop where
  | reached {state : State} :
      goal state →
      Inevitable effect goal state
  | step {state : State} :
      (∀ found, interfere state found → effect found (step found)) →
      (∀ found, interfere state found →
        Inevitable effect goal (step found)) →
      Inevitable effect goal state

variable
  {interfere : State → State → Prop}
  {step : State → State}
  {effect : State → State → Prop}
  {goal middle : State → Prop}

/-- Reaching one goal and then another. -/
theorem Inevitable.trans
    {state : State}
    (first : Inevitable interfere step effect middle state)
    (second :
      ∀ next, middle next → Inevitable interfere step effect goal next) :
    Inevitable interfere step effect goal state := by
  induction first with
  | reached holds =>
      exact second _ holds
  | step effects _ inductionHypothesis =>
      exact .step effects inductionHypothesis

/-- A weaker goal is reached as well. -/
theorem Inevitable.mono
    {state : State}
    (inevitable : Inevitable interfere step effect middle state)
    (weaker : ∀ next, middle next → goal next) :
    Inevitable interfere step effect goal state :=
  inevitable.trans fun next holds => .reached (weaker next holds)

/-- What is inevitable happens in every run after finitely many steps. -/
theorem Inevitable.happens
    {state : State}
    (inevitable : Inevitable interfere step effect goal state)
    {left found : Nat → State}
    (run : Run interfere step state left found) :
    ∃ time, goal (left time) ∧
      ∀ earlier, earlier < time →
        effect (found earlier) (left (earlier + 1)) := by
  induction inevitable generalizing left found with
  | reached holds =>
      refine ⟨0, ?_, fun _ below => absurd below (Nat.not_lt_zero _)⟩
      rw [run.starts]
      exact holds
  | step effects _ inductionHypothesis =>
      have interfered := run.interfered 0
      rw [run.starts] at interfered
      have tail :
          Run interfere step (step (found 0))
            (fun time => left (time + 1)) (fun time => found (time + 1)) :=
        ⟨run.stepped 0, fun time => run.interfered (time + 1),
          fun time => run.stepped (time + 1)⟩
      obtain ⟨time, holds, later⟩ :=
        inductionHypothesis (found 0) interfered tail
      refine ⟨time + 1, holds, ?_⟩
      intro earlier below
      cases earlier with
      | zero =>
          rw [run.stepped 0]
          exact effects (found 0) interfered
      | succ earlier =>
          exact later earlier (Nat.lt_of_succ_lt_succ below)

end Interference
