import Mathlib.Data.List.Basic
import Mathlib.Order.Defs.LinearOrder

/-!
# Runs observed at a check

A run is observed at the moments at which a check is made: whether the check
fires, and how the next moment may follow.  How many checks there are from one
firing to the next is known if the checks count down.
-/

namespace SampledRuns

section Runs

variable {State Value : Type}

/-- The moments of a run, from a first one on, by which of them fire. -/
inductive Run (fires : State → Bool) (next : State → State → Prop) :
    State → List Bool → Prop where
  | nil (state : State) : Run fires next state []
  | last (state : State) : Run fires next state [fires state]
  | cons {state later : State} {decisions : List Bool}
      (follows : next state later) (rest : Run fires next later decisions) :
      Run fires next state (fires state :: decisions)

/-- Which moments fire when a value is stepped from one to the next. -/
def decisions (step : Value → Value × Bool) : Value → Nat → List Bool
  | _, 0 => []
  | value, count + 1 =>
      (step value).2 :: decisions step (step value).1 count

variable {fires : State → Bool} {next : State → State → Prop}
  {step : Value → Value × Bool}

/-- A run fires as a value does that is related to all its states. -/
theorem Run.eq_decisions {related : State → Value → Prop}
    (sameFires :
      ∀ state value, related state value → fires state = (step value).2)
    (staysRelated :
      ∀ state later value, related state value → next state later →
        related later (step value).1)
    {state : State} {value : Value} {fired : List Bool}
    (run : Run fires next state fired) (isRelated : related state value) :
    fired = decisions step value fired.length := by
  induction run generalizing value with
  | nil state =>
      rfl
  | last state =>
      exact congrArg ([·]) (sameFires state value isRelated)
  | @cons state later fired follows rest inductionHypothesis =>
      have ofLater :=
        inductionHypothesis
          (staysRelated state later value isRelated follows)
      rw [List.length_cons, decisions, sameFires state value isRelated,
        ← ofLater]

/-- If every moment has a next one, there are runs of any length. -/
theorem Run.exists_of_length
    (goesOn : ∀ state, ∃ later, next state later) (state : State)
    (count : Nat) :
    ∃ fired, Run fires next state fired ∧ fired.length = count := by
  induction count generalizing state with
  | zero =>
      exact ⟨[], .nil state, rfl⟩
  | succ count inductionHypothesis =>
      obtain ⟨later, follows⟩ := goesOn state
      obtain ⟨fired, rest, length⟩ := inductionHypothesis later
      exact ⟨_, .cons follows rest, by simp [length]⟩

end Runs

/-! ## From one firing to the next -/

/-- The moments up to each firing, with some that were there before. -/
def gapsFrom : Nat → List Bool → List Nat
  | _, [] => []
  | count, false :: rest => gapsFrom (count + 1) rest
  | count, true :: rest => (count + 1) :: gapsFrom 0 rest

/-- The moments from the start to the first firing, and from each to the next. -/
def gaps (fired : List Bool) : List Nat :=
  gapsFrom 0 fired

/-- The moments behind the last firing, with some that were there before. -/
def pendingFrom : Nat → List Bool → Nat
  | count, [] => count
  | count, false :: rest => pendingFrom (count + 1) rest
  | _, true :: rest => pendingFrom 0 rest

/-- The moments behind the last firing. -/
def pending (fired : List Bool) : Nat :=
  pendingFrom 0 fired

/-- Some moments are passed over, one fires, and it starts over. -/
def countdown (period : Nat) : Nat → Nat × Bool
  | 0 => (period, true)
  | left + 1 => (left, false)

variable {period : Nat}

theorem mem_gapsFrom_countdown {left count length gap : Nat}
    (member :
      gap ∈ gapsFrom count (decisions (countdown period) left length)) :
    gap = count + left + 1 ∨ gap = period + 1 := by
  induction length generalizing left count with
  | zero =>
      cases member
  | succ length inductionHypothesis =>
      cases left with
      | zero =>
          rcases List.mem_cons.mp member with first | later
          · exact .inl first
          · have ofLater : gap = 0 + period + 1 ∨ gap = period + 1 :=
              inductionHypothesis later
            omega
      | succ left =>
          have ofRest := @inductionHypothesis left (count + 1) member
          omega

/-- The first firing of a countdown, and the later ones. -/
theorem mem_gaps_countdown {left length gap : Nat}
    (member : gap ∈ gaps (decisions (countdown period) left length)) :
    gap = left + 1 ∨ gap = period + 1 := by
  have ofStart := mem_gapsFrom_countdown member
  omega

theorem pendingFrom_countdown_le (left count length : Nat) :
    pendingFrom count (decisions (countdown period) left length) ≤
      max (count + left) period := by
  induction length generalizing left count with
  | zero =>
      show count ≤ _
      omega
  | succ length inductionHypothesis =>
      cases left with
      | zero =>
          have ofRest := inductionHypothesis period 0
          show pendingFrom 0 (decisions (countdown period) period length) ≤ _
          omega
      | succ left =>
          have ofRest := inductionHypothesis left (count + 1)
          show pendingFrom (count + 1)
            (decisions (countdown period) left length) ≤ _
          omega

/-- A countdown that has not fired again has something left. -/
theorem pending_countdown_le (left length : Nat) :
    pending (decisions (countdown period) left length) ≤ max left period := by
  have ofStart := @pendingFrom_countdown_le period left 0 length
  rwa [Nat.zero_add] at ofStart

/-- A countdown passes over as many moments as it has left, and fires. -/
theorem decisions_countdown (left : Nat) :
    decisions (countdown period) left (left + 1) =
      List.replicate left false ++ [true] := by
  induction left with
  | zero =>
      rfl
  | succ left inductionHypothesis =>
      rw [decisions, List.replicate_succ, List.cons_append,
        ← inductionHypothesis]
      rfl

theorem gapsFrom_replicate (count left : Nat) :
    gapsFrom count (List.replicate left false ++ [true]) =
      [count + left + 1] := by
  induction left generalizing count with
  | zero =>
      rfl
  | succ left inductionHypothesis =>
      rw [List.replicate_succ, List.cons_append, gapsFrom,
        inductionHypothesis]
      congr 1
      omega

/-- A countdown does not fire while it has something left. -/
theorem decisions_countdown_of_le {left length : Nat}
    (notMore : length ≤ left) :
    decisions (countdown period) left length =
      List.replicate length false := by
  induction length generalizing left with
  | zero =>
      rfl
  | succ length inductionHypothesis =>
      cases left with
      | zero => omega
      | succ left =>
          have ofRest := @inductionHypothesis left (by omega)
          rw [List.replicate_succ, ← ofRest]
          rfl

/-- A countdown fires before one that has more left. -/
theorem countdown_lt {left other otherPeriod : Nat} (less : left < other) :
    decisions (countdown period) left (left + 1) ≠
      decisions (countdown otherPeriod) other (left + 1) := by
  rw [decisions_countdown, decisions_countdown_of_le less]
  intro same
  have member : true ∈ List.replicate (left + 1) false := by
    rw [← same]
    simp
  cases List.eq_of_mem_replicate member

end SampledRuns
