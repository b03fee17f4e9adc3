import Msh.Bolt.LoopValues

namespace Msh

open X86 Relation TransitionSystem LoopFunction

/-!
# The loop optimisation and the values of registers

Runs of an instrumented function beside the original one, and a function with
a definition between the last yield of a loop and its exit.
-/

namespace LoopState

variable {Value : Type}

/--
In a run that starts outside the loops and meets the condition at each step,
instructions read the values of the original function, and so do those behind
the exits of the loops.
-/
theorem values_preserved (fn : AnalysedFunction) {start : LoopState Value}
    {run : List (LoopAction Value × LoopState Value)}
    (begins : start.Begins fn.toLoopFunction)
    (valid : FiniteRun (Step fn.toLoopFunction) start run)
    (disciplined : EveryStep (Disciplined fn.toLoopFunction) start run) :
    EveryStep (fun state action =>
      state.ReadsSame fn.toLoopFunction action ∧
        state.ExitsSame fn.toLoopFunction action) start run :=
  valid.everyStep_of_everyStep (Inv fn) _
    (fun _ _ _ inv disciplined taken => inv.step disciplined taken)
    begins.inv disciplined

end LoopState

/-- The edges of a loop of three blocks with one block before and behind. -/
def oneLoopEdges : List (Nat × Nat) :=
  [(0, 1), (1, 2), (1, 3), (2, 3), (3, 1), (3, 4)]

/--
The loop has a yield in its first block.  The second one, which control may
pass by, defines `r12`; the block behind the loop uses it.
-/
def oneLoop : LoopFunction where
  succs node := (oneLoopEdges.filter (·.1 = node)).map Prod.snd
  uses node reg := decide (node = 4 ∧ reg = .gpr .r12)
  defs node reg := decide (node = 2 ∧ reg = .gpr .r12)
  yields node := decide (node = 1)
  loops := [[1, 2, 3]]
  live node reg := decide (node ∈ [0, 1, 3, 4] ∧ reg = .gpr .r12)
  reachingDef node reg def_ :=
    decide (node ∈ [1, 2, 3, 4] ∧ reg = .gpr .r12 ∧ def_ = 2)
  reachingUse node reg use_ :=
    decide (node ∈ [0, 1, 3, 4] ∧ reg = .gpr .r12 ∧ use_ = 4)

namespace oneLoop

theorem contains_iff {loop node : Nat} :
    oneLoop.contains loop node = true ↔ loop = 0 ∧ node ∈ [1, 2, 3] := by
  cases loop with
  | zero =>
      simp [contains, oneLoop]
  | succ loop =>
      simp [contains, oneLoop]

theorem mem_succs_iff {node after : Nat} :
    after ∈ oneLoop.succs node ↔ (node, after) ∈ oneLoopEdges := by
  simp [oneLoop]

/-- The edges of the loop. -/
theorem inside {node after : Nat}
    (edge : (node, after) ∈ [(1, 2), (2, 3), (3, 1)]) :
    oneLoop.Inside 0 node after := by
  simp only [List.mem_cons, Prod.mk.injEq, List.not_mem_nil,
    or_false] at edge
  rcases edge with ⟨rfl, rfl⟩ | ⟨rfl, rfl⟩ | ⟨rfl, rfl⟩ <;>
    exact ⟨by decide, by decide, by decide⟩

theorem natural : oneLoop.NaturalLoops where
  nested := by
    intro outer inner node before inOuter inInner
    rw [(contains_iff.mp inInner).1] at before
    cases before
  connected := by
    intro loop first second firstIn secondIn
    obtain ⟨rfl, isFirst⟩ := contains_iff.mp firstIn
    obtain ⟨_, isSecond⟩ := contains_iff.mp secondIn
    have oneTwo := inside (by decide : (1, 2) ∈ [(1, 2), (2, 3), (3, 1)])
    have twoThree := inside (by decide : (2, 3) ∈ [(1, 2), (2, 3), (3, 1)])
    have threeOne := inside (by decide : (3, 1) ∈ [(1, 2), (2, 3), (3, 1)])
    have back : TransGen (oneLoop.Inside 0) first 1 := by
      simp only [List.mem_cons, List.not_mem_nil, or_false] at isFirst
      rcases isFirst with rfl | rfl | rfl
      · exact .tail (.tail (.single oneTwo) twoThree) threeOne
      · exact .tail (.single twoThree) threeOne
      · exact .single threeOne
    have forth : ReflTransGen (oneLoop.Inside 0) 1 second := by
      simp only [List.mem_cons, List.not_mem_nil, or_false] at isSecond
      rcases isSecond with rfl | rfl | rfl
      · exact .refl
      · exact .tail .refl oneTwo
      · exact .tail (.tail .refl oneTwo) twoThree
    exact back.trans_left forth

/-- The edges that do not define `r12`. -/
theorem clear_iff {node after : Nat} :
    oneLoop.Clear (.gpr .r12) node after ↔
      (node, after) ∈ [(0, 1), (1, 2), (1, 3), (3, 1), (3, 4)] := by
  unfold Clear
  rw [mem_succs_iff]
  constructor
  · rintro ⟨edge, undefined⟩
    have differ : node ≠ 2 := by
      simpa [oneLoop] using undefined
    simp only [oneLoopEdges, List.mem_cons, Prod.mk.injEq,
      List.not_mem_nil, or_false] at edge ⊢
    grind
  · intro edge
    simp only [List.mem_cons, Prod.mk.injEq, List.not_mem_nil,
      or_false] at edge
    rcases edge with ⟨rfl, rfl⟩ | ⟨rfl, rfl⟩ | ⟨rfl, rfl⟩ | ⟨rfl, rfl⟩ |
      ⟨rfl, rfl⟩ <;> decide

/-- Where the definition of `r12` gets to. -/
theorem clear_from_iff {node : Nat} :
    ReflTransGen (oneLoop.Clear (.gpr .r12)) 3 node ↔
      node ∈ [1, 2, 3, 4] := by
  constructor
  · intro path
    induction path with
    | refl => decide
    | tail _ edge inductionHypothesis =>
        have isEdge := clear_iff.mp edge
        simp only [List.mem_cons, Prod.mk.injEq, List.not_mem_nil,
          or_false] at isEdge ⊢
        grind
  · have threeOne := clear_iff.mpr
      (by decide : (3, 1) ∈ [(0, 1), (1, 2), (1, 3), (3, 1), (3, 4)])
    intro isNode
    simp only [List.mem_cons, List.not_mem_nil, or_false] at isNode
    rcases isNode with rfl | rfl | rfl | rfl
    · exact .single threeOne
    · exact .tail (.single threeOne) (clear_iff.mpr (by decide))
    · exact .refl
    · exact .single (clear_iff.mpr (by decide))

/-- Where the use of `r12` is reached from. -/
theorem clear_to_iff {node : Nat} :
    ReflTransGen (oneLoop.Clear (.gpr .r12)) node 4 ↔
      node ∈ [0, 1, 3, 4] := by
  constructor
  · intro path
    induction path using ReflTransGen.head_induction_on with
    | refl => decide
    | head edge _ inductionHypothesis =>
        have isEdge := clear_iff.mp edge
        simp only [List.mem_cons, Prod.mk.injEq, List.not_mem_nil,
          or_false] at isEdge ⊢
        grind
  · have threeFour :
        ReflTransGen (oneLoop.Clear (.gpr .r12)) 3 4 :=
      .single (clear_iff.mpr (by decide))
    have oneThree :
        ReflTransGen (oneLoop.Clear (.gpr .r12)) 1 4 :=
      .head (clear_iff.mpr (by decide)) threeFour
    intro isNode
    simp only [List.mem_cons, List.not_mem_nil, or_false] at isNode
    rcases isNode with rfl | rfl | rfl | rfl
    · exact .head (clear_iff.mpr (by decide)) oneThree
    · exact oneThree
    · exact threeFour
    · exact .refl

theorem exact_ : oneLoop.ExactAnalyses where
  live := by
    intro node reg
    constructor
    · intro isLive
      obtain ⟨isNode, rfl⟩ := of_decide_eq_true isLive
      simp only [List.mem_cons, List.not_mem_nil, or_false] at isNode
      rcases isNode with rfl | rfl | rfl | rfl
      · exact .inr ⟨rfl, 1, by decide⟩
      · exact .inr ⟨rfl, 3, by decide⟩
      · exact .inr ⟨rfl, 4, by decide⟩
      · exact .inl rfl
    · rintro (isUse | ⟨undefined, after, edge, isLive⟩)
      · obtain ⟨rfl, rfl⟩ := of_decide_eq_true isUse
        rfl
      · obtain ⟨_, rfl⟩ := of_decide_eq_true isLive
        have isEdge := clear_iff.mp ⟨edge, undefined⟩
        simp only [List.mem_cons, Prod.mk.injEq, List.not_mem_nil,
          or_false] at isEdge
        rcases isEdge with ⟨rfl, _⟩ | ⟨rfl, _⟩ | ⟨rfl, _⟩ | ⟨rfl, _⟩ |
          ⟨rfl, _⟩ <;> rfl
  reachingDef := by
    intro node reg def_
    constructor
    · intro reaches
      obtain ⟨isNode, rfl, rfl⟩ := of_decide_eq_true reaches
      exact ⟨rfl, 3, by decide, clear_from_iff.mpr isNode⟩
    · rintro ⟨defines, after, edge, path⟩
      obtain ⟨rfl, rfl⟩ := of_decide_eq_true defines
      have isThree : after = 3 := by
        simpa [oneLoop, oneLoopEdges] using edge
      subst isThree
      exact decide_eq_true ⟨clear_from_iff.mp path, rfl, rfl⟩
  reachingUse := by
    intro node reg use_
    constructor
    · intro reaches
      obtain ⟨isNode, rfl, rfl⟩ := of_decide_eq_true reaches
      exact ⟨rfl, clear_to_iff.mpr isNode⟩
    · rintro ⟨isUse, path⟩
      obtain ⟨rfl, rfl⟩ := of_decide_eq_true isUse
      exact decide_eq_true ⟨clear_to_iff.mp path, rfl, rfl⟩

end oneLoop

/-- The function with its loop and analyses. -/
def oneLoopAnalysed : AnalysedFunction where
  toLoopFunction := oneLoop
  natural := oneLoop.natural
  exact_ := oneLoop.exact_

namespace LoopState

/--
Control goes on to a node.  The coroutines leave 7 in the registers at a yield;
an instruction that defines a register gives it the value 5.
-/
def goOn (state : LoopState Nat) (next : Nat) : LoopAction Nat where
  found _ := 7
  result _ := 5
  instrumented _ := 5
  slots := (state.atYield oneLoop fun _ => 7).slots
  next := next

/-- The run along a path. -/
def along : LoopState Nat → List Nat → List (LoopAction Nat × LoopState Nat)
  | _, [] => []
  | state, next :: path =>
      (state.goOn next, state.after oneLoop (state.goOn next)) ::
        along (state.after oneLoop (state.goOn next)) path

theorem along_valid {state : LoopState Nat} {path : List Nat}
    (isPath :
      (state.node :: path).IsChain fun node next =>
        next ∈ oneLoop.succs node) :
    FiniteRun (Step oneLoop) state (state.along path) := by
  induction path generalizing state with
  | nil =>
      exact .nil state
  | cons next path inductionHypothesis =>
      obtain ⟨edge, rest⟩ := List.isChain_cons_cons.mp isPath
      exact .cons ⟨edge, fun _ => rfl, rfl⟩ (inductionHypothesis rest)

/-- The function is entered. -/
def atEntry : LoopState Nat where
  node := 0
  prog _ := 1
  regs _ := 1
  slots _ _ := 0
  intact _ := true
  fresh _ _ := false
  parked _ _ := false

theorem atEntry_begins : atEntry.Begins oneLoop := by
  refine ⟨?_, rfl, fun _ => rfl⟩
  intro loop
  rw [← Bool.not_eq_true, oneLoop.contains_iff]
  rintro ⟨_, isNode⟩
  exact absurd isNode (by decide)

/-- The instructions do not call the function again. -/
theorem along_kept (state : LoopState Nat) (path : List Nat) :
    EveryStep (fun state action =>
      (state.atYield oneLoop action.found).Kept oneLoop action)
      state (state.along path) := by
  induction path generalizing state with
  | nil =>
      trivial
  | cons next path inductionHypothesis =>
      exact ⟨fun _ _ _ _ => rfl, inductionHypothesis _⟩

/-- A step that does not leave the loop stores what it has to. -/
theorem disciplined_of_stays {state : LoopState Nat} {next : Nat}
    (stays : oneLoop.leaves 0 state.node next = false) :
    state.Disciplined oneLoop (state.goOn next) := by
  refine ⟨?_, fun _ _ _ _ => rfl⟩
  intro loop reg isLeft
  obtain ⟨leaves, _⟩ := leftLoop_eq_some isLeft
  rw [atYield_node] at leaves
  obtain ⟨rfl, _⟩ := oneLoop.contains_iff.mp (leaves_iff.mp leaves).1
  exact absurd leaves (Bool.eq_false_iff.mp stays)

/-- On the path that passes by the definition, `r12` has its value. -/
theorem values_preserved_passedBy :
    EveryStep (fun state action =>
      state.ReadsSame oneLoop action ∧ state.ExitsSame oneLoop action)
      atEntry (atEntry.along [1, 3, 4]) := by
  apply values_preserved oneLoopAnalysed atEntry_begins
  · exact along_valid (by decide)
  · refine ⟨disciplined_of_stays rfl, disciplined_of_stays rfl,
      ⟨?_, fun _ _ _ _ => rfl⟩, trivial⟩
    intro loop reg isLeft _ isLive
    obtain ⟨_, rfl⟩ := of_decide_eq_true isLive
    obtain ⟨leaves, _⟩ := leftLoop_eq_some isLeft
    obtain ⟨rfl, _⟩ := oneLoop.contains_iff.mp (leaves_iff.mp leaves).1
    exact .inl (by decide)

/-- On the path over the definition, the exit brings back an old value. -/
theorem oldValue_behindExit :
    atEntry.Begins oneLoop ∧
      FiniteRun (Step oneLoop) atEntry (atEntry.along [1, 2, 3, 4]) ∧
      EveryStep (fun state action =>
        (state.atYield oneLoop action.found).Kept oneLoop action)
        atEntry (atEntry.along [1, 2, 3, 4]) ∧
      ¬ EveryStep (ExitsSame oneLoop) atEntry
        (atEntry.along [1, 2, 3, 4]) := by
  refine ⟨atEntry_begins, along_valid (by decide), along_kept _ _, ?_⟩
  rintro ⟨_, _, _, exitsSame, _⟩
  have same := exitsSame 0 (.gpr .r12) (by decide) (by decide) (by decide)
  exact absurd same (by decide)

end LoopState

end Msh
