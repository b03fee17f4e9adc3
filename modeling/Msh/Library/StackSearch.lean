import Mathlib.Data.List.Basic

/-!
# A search that keeps no record of where it has been

Entries are taken from a stack; visiting one changes a state and puts further
entries on the stack.  The search ends when these are smaller than the visited
one.  When every visit either settles its entry for good or puts all next
entries on the stack, each walk of entries from the stack is settled in the
end, or has been followed to its end.
-/

namespace StackSearch

variable {Entry State : Type}
  (visit : Entry → State → Option (List Entry × State))

/-- Some steps of the search; a failed visit ends it. -/
def run : Nat → List Entry → State → Option (List Entry × State)
  | 0, stack, state => some (stack, state)
  | _ + 1, [], state => some ([], state)
  | count + 1, entry :: stack, state =>
      match visit entry state with
      | none => none
      | some (pushed, next) => run count (pushed ++ stack) next

variable {visit} {Inv : List Entry → State → Prop}

/-- A search is continued from where it has come. -/
theorem run_add (first second : Nat) (stack : List Entry) (state : State) :
    run visit (first + second) stack state =
      (run visit first stack state).bind fun reached =>
        run visit second reached.1 reached.2 := by
  induction first generalizing stack state with
  | zero => rw [Nat.zero_add]; rfl
  | succ first inductionHypothesis =>
      rw [Nat.succ_add]
      cases stack with
      | nil =>
          cases second with
          | zero => rfl
          | succ second => rfl
      | cons entry stack =>
          rw [run, run]
          cases visit entry state with
          | none => rfl
          | some visited => exact inductionHypothesis _ _

/-- A visit is one more step. -/
theorem run_succ_of_visit {count : Nat} {start stack pushed : List Entry}
    {entry : Entry} {first state next : State}
    (isRun : run visit count start first = some (entry :: stack, state))
    (isVisit : visit entry state = some (pushed, next)) :
    run visit (count + 1) start first = some (pushed ++ stack, next) := by
  rw [run_add, isRun, Option.bind_some, run, isVisit]
  rfl

/-- A search that has ended has made all its steps before. -/
theorem lt_of_run_cons {count : Nat} {start stack : List Entry}
    {entry : Entry} {first state final : State} {reached : Nat}
    (isRun : run visit reached start first = some (entry :: stack, state))
    (isEnd : run visit count start first = some ([], final)) :
    reached < count := by
  by_contra isLate
  obtain ⟨more, rfl⟩ := Nat.exists_eq_add_of_le (Nat.le_of_not_lt isLate)
  rw [run_add, isEnd, Option.bind_some] at isRun
  cases more with
  | zero => cases isRun
  | succ more => cases isRun

/-- What a visit preserves holds at the end. -/
theorem run_inv
    (preserved : ∀ entry stack state pushed next,
      Inv (entry :: stack) state → visit entry state = some (pushed, next) →
        Inv (pushed ++ stack) next)
    {count : Nat} {stack stack' : List Entry} {state state' : State}
    (holds : Inv stack state)
    (isRun : run visit count stack state = some (stack', state')) :
    Inv stack' state' := by
  induction count generalizing stack state with
  | zero =>
      cases isRun
      exact holds
  | succ count inductionHypothesis =>
      cases stack with
      | nil =>
          cases isRun
          exact holds
      | cons entry stack =>
          rw [run] at isRun
          cases isVisit : visit entry state with
          | none =>
              rw [isVisit] at isRun
              cases isRun
          | some visited =>
              rw [isVisit] at isRun
              exact inductionHypothesis
                (preserved entry stack state _ _ holds isVisit) isRun

/-- A search whose visits do not fail does not fail. -/
theorem run_ne_none
    (preserved : ∀ entry stack state pushed next,
      Inv (entry :: stack) state → visit entry state = some (pushed, next) →
        Inv (pushed ++ stack) next)
    (succeeds : ∀ entry stack state, Inv (entry :: stack) state →
      visit entry state ≠ none)
    {count : Nat} {stack : List Entry} {state : State}
    (holds : Inv stack state) : run visit count stack state ≠ none := by
  induction count generalizing stack state with
  | zero => exact Option.some_ne_none _
  | succ count inductionHypothesis =>
      cases stack with
      | nil => exact Option.some_ne_none _
      | cons entry stack =>
          rw [run]
          cases isVisit : visit entry state with
          | none => exact absurd isVisit (succeeds entry stack state holds)
          | some visited =>
              exact inductionHypothesis
                (preserved entry stack state _ _ holds isVisit)

/-- Entries are taken from the stack one after the other. -/
theorem exists_run_nil
    (measure : Entry → Nat)
    (decreases : ∀ entry state pushed next,
      visit entry state = some (pushed, next) →
        ∀ other ∈ pushed, measure other < measure entry)
    (stack : List Entry) (state : State) :
    ∃ count, run visit count stack state = none ∨
      ∃ final, run visit count stack state = some ([], final) := by
  -- All entries below a bound can be taken from above the others.
  have taken (bound : Nat) (pushed : List Entry)
      (isBelow : ∀ entry ∈ pushed, measure entry < bound)
      (others : List Entry) (state : State) :
      ∃ count, run visit count (pushed ++ others) state = none ∨
        ∃ final, run visit count (pushed ++ others) state =
          some (others, final) := by
    induction bound generalizing pushed others state with
    | zero =>
        cases pushed with
        | nil => exact ⟨0, Or.inr ⟨state, rfl⟩⟩
        | cons entry pushed =>
            exact absurd (isBelow entry List.mem_cons_self) (Nat.not_lt_zero _)
    | succ bound ofBound =>
        induction pushed generalizing state with
        | nil => exact ⟨0, Or.inr ⟨state, rfl⟩⟩
        | cons entry pushed ofPushed =>
            rw [List.forall_mem_cons] at isBelow
            cases isVisit : visit entry state with
            | none =>
                refine ⟨1, Or.inl ?_⟩
                rw [List.cons_append, run, isVisit]
            | some visited =>
                obtain ⟨more, next⟩ := visited
                obtain ⟨first, isFirst⟩ := ofBound more
                  (fun other isOther => by
                    have isLess :=
                      decreases entry state more next isVisit other isOther
                    omega)
                  (pushed ++ others) next
                have isStep : run visit (1 + first)
                    (entry :: pushed ++ others) state =
                      run visit first (more ++ (pushed ++ others)) next := by
                  rw [run_add, List.cons_append, run, isVisit]
                  rfl
                rcases isFirst with fails | ⟨reached, isReached⟩
                · exact ⟨1 + first, Or.inl (isStep.trans fails)⟩
                · obtain ⟨rest, isRest⟩ := ofPushed isBelow.2 reached
                  refine ⟨1 + first + rest, ?_⟩
                  rw [run_add, isStep, isReached]
                  exact isRest
  obtain ⟨bound, isBound⟩ : ∃ bound, ∀ entry ∈ stack, measure entry < bound := by
    induction stack with
    | nil => exact ⟨0, nofun⟩
    | cons entry stack inductionHypothesis =>
        obtain ⟨bound, isBound⟩ := inductionHypothesis
        refine ⟨max bound (measure entry + 1), ?_⟩
        rw [List.forall_mem_cons]
        refine ⟨by omega, fun other isOther => ?_⟩
        have isLess := isBound other isOther
        omega
  have ends := taken bound stack isBound [] state
  rwa [List.append_nil] at ends

/-! ## Walks -/

section Walks

variable {Done : State → Entry → Prop} {Passed : Entry → Prop}
  {next : Entry → Entry → Prop}

/-- A walk of entries is done, or waits on the stack, or has been followed. -/
def Settled (Done : State → Entry → Prop) (Passed : Entry → Prop)
    (stack : List Entry) (state : State) (entry : Entry) :
    List Entry → Prop
  | [] => Done state entry ∨ entry ∈ stack ∨ Passed entry
  | other :: walk =>
      Done state entry ∨ entry ∈ stack ∨
        Passed entry ∧ Settled Done Passed stack state other walk

theorem Settled.done {stack : List Entry} {state : State} {entry : Entry}
    {walk : List Entry} (isDone : Done state entry) :
    Settled Done Passed stack state entry walk := by
  cases walk <;> exact Or.inl isDone

theorem Settled.waits {stack : List Entry} {state : State} {entry : Entry}
    {walk : List Entry} (isOn : entry ∈ stack) :
    Settled Done Passed stack state entry walk := by
  cases walk <;> exact Or.inr (Or.inl isOn)

/-- A visit leaves walks settled. -/
theorem Settled.after_visit {stack pushed : List Entry} {state state' : State}
    {visited : Entry}
    (stays : ∀ entry, Done state entry → Done state' entry)
    (settles : Done state' visited ∨
      Passed visited ∧ ∀ other, next visited other → other ∈ pushed)
    {entry : Entry} {walk : List Entry}
    (isWalk : (entry :: walk).IsChain next)
    (settled : Settled Done Passed (visited :: stack) state entry walk) :
    Settled Done Passed (pushed ++ stack) state' entry walk := by
  induction walk generalizing entry with
  | nil =>
      rcases settled with isDone | isOn | passed
      · exact Or.inl (stays entry isDone)
      · rcases List.mem_cons.mp isOn with rfl | isOn
        · rcases settles with isDone | ⟨passed, _⟩
          · exact Or.inl isDone
          · exact Or.inr (Or.inr passed)
        · exact Or.inr (Or.inl (List.mem_append_right _ isOn))
      · exact Or.inr (Or.inr passed)
  | cons other walk inductionHypothesis =>
      obtain ⟨isNext, isRest⟩ := List.isChain_cons_cons.mp isWalk
      rcases settled with isDone | isOn | ⟨passed, ofRest⟩
      · exact Or.inl (stays entry isDone)
      · rcases List.mem_cons.mp isOn with rfl | isOn
        · rcases settles with isDone | ⟨passed, isPushed⟩
          · exact Or.inl isDone
          · exact Or.inr (Or.inr ⟨passed, Settled.waits
              (List.mem_append_left _ (isPushed other isNext))⟩)
        · exact Or.inr (Or.inl (List.mem_append_right _ isOn))
      · exact Or.inr (Or.inr ⟨passed, inductionHypothesis isRest ofRest⟩)

/-- In the end a walk meets a done entry or has been followed all along. -/
theorem Settled.end_of_nil {state : State} {entry : Entry}
    {walk : List Entry}
    (settled : Settled Done Passed [] state entry walk) :
    (∃ other ∈ entry :: walk, Done state other) ∨
      ∀ other ∈ entry :: walk, Passed other := by
  induction walk generalizing entry with
  | nil =>
      rcases settled with isDone | isOn | passed
      · exact Or.inl ⟨entry, List.mem_cons_self, isDone⟩
      · cases isOn
      · exact Or.inr (by simpa using passed)
  | cons other walk inductionHypothesis =>
      rcases settled with isDone | isOn | ⟨passed, ofRest⟩
      · exact Or.inl ⟨entry, List.mem_cons_self, isDone⟩
      · cases isOn
      · rcases inductionHypothesis ofRest with
          ⟨found, isFound, isDone⟩ | allPassed
        · exact Or.inl ⟨found, List.mem_cons_of_mem _ isFound, isDone⟩
        · rw [List.forall_mem_cons]
          exact Or.inr ⟨passed, allPassed⟩

end Walks

end StackSearch
