import Mathlib.Logic.Relation
import Msh.Bolt.Yield

namespace Msh

open X86 Relation YieldPoint

/-!
# Classifying the registers of a loop

The loop optimisation looks at each yield in a loop and at each register that
is live there.  A register that the loop does not define is saved before the
loop; one that the loop does not use is not brought back before the exit.
-/

/-- What a yield does with a live register. -/
inductive SaveClass where
  | save | evac | asymPush | asymPop
  deriving DecidableEq, Repr

/-- A function as the scanner sees it: its flow graph and the analyses. -/
structure LoopFunction where
  succs : Nat → List Nat
  uses : Nat → Reg → Bool
  defs : Nat → Reg → Bool
  yields : Nat → Bool
  /-- The nodes of each loop, the loops in preorder. -/
  loops : List (List Nat)
  /-- The registers of the save sets that are live before a node. -/
  live : Nat → Reg → Bool
  /-- The definitions of a register that reach a node. -/
  reachingDef : Nat → Reg → Nat → Bool
  /-- The uses of a register that a node reaches. -/
  reachingUse : Nat → Reg → Nat → Bool

namespace LoopFunction

/-- `BL->contains(BB)` -/
def contains (fn : LoopFunction) (loop node : Nat) : Bool :=
  (fn.loops.getD loop []).contains node

/-- `BLI.getLoopFor(BB)`, the innermost loop around a node. -/
def getLoopFor (fn : LoopFunction) (node : Nat) : Option Nat :=
  ((List.range fn.loops.length).filter (fn.contains · node)).getLast?

/-- `DefFound` -/
def defFound (fn : LoopFunction) (loop node : Nat) (reg : Reg) : Bool :=
  (fn.loops.getD loop []).any (fn.reachingDef node reg)

/-- `UseFound` -/
def useFound (fn : LoopFunction) (loop node : Nat) (reg : Reg) : Bool :=
  (fn.loops.getD loop []).any (fn.reachingUse node reg)

/-- `LoopOptScanner::annotateInst`, for one live register of a yield. -/
def annotateReg (fn : LoopFunction) (node : Nat) (reg : Reg) : SaveClass :=
  match fn.getLoopFor node with
  | none => .save
  | some loop =>
      if reg = .gpr getCrtCtxReg then .save
      else
        match fn.useFound loop node reg, fn.defFound loop node reg with
        | false, false => .evac
        | false, true => .asymPush
        | true, false => .asymPop
        | true, true => .save

/-- The registers that some yield of a loop adds to one of its sets. -/
def addedRegs (fn : LoopFunction) (kind : SaveClass) (loop : Nat)
    (reg : Reg) : Bool :=
  (fn.loops.getD loop []).any fun node =>
    fn.yields node && fn.getLoopFor node == some loop &&
      fn.live node reg && fn.annotateReg node reg == kind

/-- `BL->getRegsToEvacuate()` -/
def regsToEvac (fn : LoopFunction) : Nat → Reg → Bool :=
  fn.addedRegs .evac

/-- `BL->getRegsToAsymPush()` -/
def regsToAsymPush (fn : LoopFunction) : Nat → Reg → Bool :=
  fn.addedRegs .asymPush

/-- `BL->getRegsToAsymPop()` -/
def regsToAsymPop (fn : LoopFunction) : Nat → Reg → Bool :=
  fn.addedRegs .asymPop

/-- The registers that a yield pushes on the stack. -/
def stackSaved (fn : LoopFunction) (node : Nat) (reg : Reg) : Bool :=
  decide (reg = .gpr getCrtCtxReg) || decide (reg = .gpr .rcx) ||
    (fn.live node reg && fn.annotateReg node reg == .save)

/-- Control goes on without defining a register. -/
def Clear (fn : LoopFunction) (reg : Reg) (node after : Nat) : Prop :=
  after ∈ fn.succs node ∧ fn.defs node reg = false

/-- Control goes on inside a loop. -/
def Inside (fn : LoopFunction) (loop node after : Nat) : Prop :=
  after ∈ fn.succs node ∧ fn.contains loop node = true ∧
    fn.contains loop after = true

/--
The loops are nested or disjoint, an outer one before its inner ones, and
each node of a loop can be reached from each other.
-/
structure NaturalLoops (fn : LoopFunction) : Prop where
  nested :
    ∀ {outer inner node : Nat}, outer < inner →
      fn.contains outer node = true → fn.contains inner node = true →
        ∀ {other : Nat}, fn.contains inner other = true →
          fn.contains outer other = true
  connected :
    ∀ {loop first second : Nat}, fn.contains loop first = true →
      fn.contains loop second = true →
        TransGen (fn.Inside loop) first second

/-- The analyses say what holds on the paths of the flow graph. -/
structure ExactAnalyses (fn : LoopFunction) : Prop where
  live :
    ∀ node reg, fn.live node reg = true ↔
      fn.uses node reg = true ∨
        fn.defs node reg = false ∧
          ∃ after ∈ fn.succs node, fn.live after reg = true
  reachingDef :
    ∀ node reg def_, fn.reachingDef node reg def_ = true ↔
      fn.defs def_ reg = true ∧
        ∃ after ∈ fn.succs def_, ReflTransGen (fn.Clear reg) after node
  reachingUse :
    ∀ node reg use_, fn.reachingUse node reg use_ = true ↔
      fn.uses use_ reg = true ∧ ReflTransGen (fn.Clear reg) node use_

end LoopFunction

/-- A function whose loops and analyses are as the pass relies on them. -/
structure AnalysedFunction extends LoopFunction where
  natural : toLoopFunction.NaturalLoops
  exact_ : toLoopFunction.ExactAnalyses

namespace AnalysedFunction

variable {fn : AnalysedFunction} {loop node after : Nat} {reg : Reg}

/-- The nodes of a loop, listed. -/
theorem mem_nodes_iff :
    node ∈ fn.loops.getD loop [] ↔ fn.contains loop node = true :=
  List.contains_iff_mem.symm

/-- Only loops of the function contain nodes. -/
theorem loop_lt_length (inLoop : fn.contains loop node = true) :
    loop < fn.loops.length := by
  apply Nat.lt_of_not_le
  intro beyond
  have empty : fn.loops.getD loop [] = [] := by
    rw [List.getD_eq_getElem?_getD, List.getElem?_eq_none beyond]
    rfl
  have member := mem_nodes_iff.mpr inLoop
  rw [empty] at member
  cases member

/-- A register is live where a use can be reached without a definition. -/
theorem live_of_clear {use_ : Nat} (isUse : fn.uses use_ reg = true)
    (path : ReflTransGen (fn.Clear reg) node use_) :
    fn.live node reg = true := by
  induction path using ReflTransGen.head_induction_on with
  | refl =>
      exact (fn.exact_.live use_ reg).mpr (.inl isUse)
  | head edge _ inductionHypothesis =>
      exact (fn.exact_.live _ reg).mpr
        (.inr ⟨edge.2, _, edge.1, inductionHypothesis⟩)

/-- A register that is live after a node that does not define it. -/
theorem live_before (next : after ∈ fn.succs node)
    (undefined : fn.defs node reg = false)
    (isLive : fn.live after reg = true) : fn.live node reg = true :=
  (fn.exact_.live node reg).mpr (.inr ⟨undefined, after, next, isLive⟩)

/-- On the way to a node, the last definition in the loop reaches it. -/
theorem reachingDef_or_clear
    (path : ReflTransGen (fn.Inside loop) node after)
    (inLoop : fn.contains loop node = true) :
    (∃ def_, fn.contains loop def_ = true ∧
        fn.reachingDef after reg def_ = true) ∨
      ReflTransGen (fn.Clear reg) node after := by
  induction path using ReflTransGen.head_induction_on with
  | refl =>
      exact .inr .refl
  | @head node next edge _ inductionHypothesis =>
      rcases inductionHypothesis edge.2.2 with reaches | clear
      · exact .inl reaches
      · cases defines : fn.defs node reg with
        | true =>
            refine .inl ⟨node, inLoop, ?_⟩
            exact (fn.exact_.reachingDef after reg node).mpr
              ⟨defines, next, edge.1, clear⟩
        | false =>
            exact .inr (.head ⟨edge.1, defines⟩ clear)

/-- A loop in which no definition reaches one of its nodes has none. -/
theorem defs_eq_false_of_defFound
    (inLoop : fn.contains loop node = true)
    (notFound : fn.defFound loop node reg = false)
    {def_ : Nat} (defInLoop : fn.contains loop def_ = true) :
    fn.defs def_ reg = false := by
  rw [← Bool.not_eq_true]
  intro defines
  have noDef : ∀ def_, fn.contains loop def_ = true →
      ¬ fn.reachingDef node reg def_ = true :=
    fun def_ isInLoop =>
      List.any_eq_false.mp notFound def_ (mem_nodes_iff.mpr isInLoop)
  obtain ⟨next, edge, path⟩ :=
    TransGen.head'_iff.mp (fn.natural.connected defInLoop inLoop)
  have lastDef :
      (∃ def_, fn.contains loop def_ = true ∧
          fn.reachingDef node reg def_ = true) ∨
        ReflTransGen (fn.Clear reg) next node :=
    reachingDef_or_clear path edge.2.2
  rcases lastDef with ⟨other, otherInLoop, reaches⟩ | clear
  · exact noDef other otherInLoop reaches
  · exact noDef def_ defInLoop
      ((fn.exact_.reachingDef node reg def_).mpr
        ⟨defines, next, edge.1, clear⟩)

/-- The innermost loop contains the node and comes last. -/
theorem getLoopFor_eq_some (isInnermost : fn.getLoopFor node = some loop) :
    fn.contains loop node = true ∧
      ∀ {other : Nat}, fn.contains other node = true → other ≤ loop := by
  obtain ⟨front, split⟩ := List.getLast?_eq_some_iff.mp isInnermost
  have member :
      loop ∈ (List.range fn.loops.length).filter (fn.contains · node) := by
    rw [split]
    exact List.mem_append_right _ List.mem_cons_self
  have ordered :
      ((List.range fn.loops.length).filter (fn.contains · node)).Pairwise
        (· < ·) :=
    List.pairwise_lt_range.filter _
  refine ⟨(List.mem_filter.mp member).2, ?_⟩
  intro other inOther
  have otherMember :
      other ∈ (List.range fn.loops.length).filter (fn.contains · node) :=
    List.mem_filter.mpr
      ⟨List.mem_range.mpr (loop_lt_length inOther), inOther⟩
  rw [split] at ordered otherMember
  rcases List.mem_append.mp otherMember with inFront | isLast
  · exact Nat.le_of_lt ((List.pairwise_append.mp ordered).2.2 other inFront
      loop List.mem_cons_self)
  · exact Nat.le_of_eq (List.mem_singleton.mp isLast)

/-- A register's class at a yield, from what was found in the loop. -/
structure Classified (fn : LoopFunction) (kind : SaveClass)
    (loop node : Nat) (reg : Reg) : Prop where
  innermost : fn.getLoopFor node = some loop
  isLive : fn.live node reg = true
  isKind : fn.annotateReg node reg = kind

/-- The yield that added a register to a set of its loop. -/
theorem addedRegs_iff {kind : SaveClass} :
    fn.addedRegs kind loop reg = true ↔
      ∃ node, fn.contains loop node = true ∧ fn.yields node = true ∧
        Classified fn.toLoopFunction kind loop node reg := by
  unfold LoopFunction.addedRegs
  rw [List.any_eq_true]
  constructor
  · rintro ⟨node, inLoop, facts⟩
    simp only [Bool.and_eq_true, beq_iff_eq] at facts
    obtain ⟨⟨⟨yields, innermost⟩, isLive⟩, isKind⟩ := facts
    exact ⟨node, mem_nodes_iff.mp inLoop, yields,
      ⟨innermost, isLive, isKind⟩⟩
  · rintro ⟨node, inLoop, yields, innermost, isLive, isKind⟩
    refine ⟨node, mem_nodes_iff.mpr inLoop, ?_⟩
    rw [yields, innermost, isLive, isKind]
    simp

namespace Classified

variable {kind : SaveClass}

theorem inLoop
    (classified : Classified fn.toLoopFunction kind loop node reg) :
    fn.contains loop node = true :=
  (getLoopFor_eq_some classified.innermost).1

/-- What was found for a register that is not saved at the yield. -/
theorem found
    (classified : Classified fn.toLoopFunction kind loop node reg)
    (notSaved : kind ≠ .save) :
    fn.useFound loop node reg = decide (kind = .asymPop) ∧
      fn.defFound loop node reg = decide (kind = .asymPush) := by
  have isKind := classified.isKind
  unfold LoopFunction.annotateReg at isKind
  rw [classified.innermost] at isKind
  simp only at isKind
  split at isKind
  · exact absurd isKind.symm notSaved
  · cases useFound : fn.useFound loop node reg <;>
      cases defFound : fn.defFound loop node reg <;>
      rw [useFound, defFound] at isKind <;>
      subst isKind <;>
      first
      | exact ⟨rfl, rfl⟩
      | exact absurd rfl notSaved

end Classified

/-- No node of a loop defines a register that it evacuates or asym-pops. -/
theorem defs_eq_false_of_added
    (added :
      fn.regsToEvac loop reg = true ∨ fn.regsToAsymPop loop reg = true)
    (inLoop : fn.contains loop node = true) :
    fn.defs node reg = false := by
  rcases added with evac | asymPop
  · obtain ⟨origin, originInLoop, _, classified⟩ := addedRegs_iff.mp evac
    exact defs_eq_false_of_defFound originInLoop
      (classified.found (by decide)).2 inLoop
  · obtain ⟨origin, originInLoop, _, classified⟩ := addedRegs_iff.mp asymPop
    exact defs_eq_false_of_defFound originInLoop
      (classified.found (by decide)).2 inLoop

/-- Some node of a loop defines a register that it asym-pushes. -/
theorem exists_def_of_asymPush
    (asymPush : fn.regsToAsymPush loop reg = true) :
    ∃ def_, fn.contains loop def_ = true ∧ fn.defs def_ reg = true := by
  obtain ⟨origin, _, _, classified⟩ := addedRegs_iff.mp asymPush
  have found : fn.defFound loop origin reg = true :=
    (classified.found (by decide)).2
  obtain ⟨def_, inLoop, reaches⟩ := List.any_eq_true.mp found
  exact ⟨def_, mem_nodes_iff.mp inLoop,
    ((fn.exact_.reachingDef origin reg def_).mp reaches).1⟩

/-- Some node of a loop uses a register that it asym-pops. -/
theorem exists_use_of_asymPop
    (asymPop : fn.regsToAsymPop loop reg = true) :
    ∃ use_, fn.contains loop use_ = true ∧ fn.uses use_ reg = true := by
  obtain ⟨origin, _, _, classified⟩ := addedRegs_iff.mp asymPop
  have found : fn.useFound loop origin reg = true :=
    (classified.found (by decide)).1
  obtain ⟨use_, inLoop, reaches⟩ := List.any_eq_true.mp found
  exact ⟨use_, mem_nodes_iff.mp inLoop,
    ((fn.exact_.reachingUse origin reg use_).mp reaches).1⟩

/-- A loop that asym-pushes a register does not add it to another set. -/
theorem asymPush_eq_false
    (added :
      fn.regsToEvac loop reg = true ∨ fn.regsToAsymPop loop reg = true) :
    fn.regsToAsymPush loop reg = false := by
  rw [← Bool.not_eq_true]
  intro asymPush
  obtain ⟨def_, inLoop, defines⟩ := exists_def_of_asymPush asymPush
  rw [defs_eq_false_of_added added inLoop] at defines
  cases defines

/-- In a loop without definitions of a register, paths are clear. -/
theorem clear_of_inside
    (undefined :
      ∀ {node : Nat}, fn.contains loop node = true →
        fn.defs node reg = false)
    (path : ReflTransGen (fn.Inside loop) node after) :
    ReflTransGen (fn.Clear reg) node after :=
  ReflTransGen.mono (fun _ _ edge => ⟨edge.1, undefined edge.2.1⟩)
    _ _ path

/-- A loop that asym-pops a register has a use that each node reaches. -/
theorem exists_clear_use
    (asymPop : fn.regsToAsymPop loop reg = true)
    (inLoop : fn.contains loop node = true) :
    ∃ use_, fn.contains loop use_ = true ∧ fn.uses use_ reg = true ∧
      ReflTransGen (fn.Clear reg) node use_ := by
  obtain ⟨use_, useInLoop, isUse⟩ := exists_use_of_asymPop asymPop
  refine ⟨use_, useInLoop, isUse, clear_of_inside ?_
    (fn.natural.connected inLoop useInLoop).to_reflTransGen⟩
  intro other otherInLoop
  exact defs_eq_false_of_added (.inr asymPop) otherInLoop

/-- Of two loops around a node, one with a node that the other has not. -/
theorem lt_of_contains_of_not
    {outer inner other : Nat}
    (inOuter : fn.contains outer node = true)
    (inInner : fn.contains inner node = true)
    (otherInOuter : fn.contains outer other = true)
    (otherNotInInner : fn.contains inner other = false) :
    outer < inner := by
  apply Nat.lt_of_not_le
  intro notAfter
  have otherInInner : fn.contains inner other = true := by
    rcases Nat.lt_or_eq_of_le notAfter with before | same
    · exact fn.natural.nested before inInner inOuter otherInOuter
    · rw [same]
      exact otherInOuter
  rw [otherInInner] at otherNotInInner
  cases otherNotInInner

/-- From a yield that does not save a register, no use in its loop is clear. -/
theorem no_clear_use {kind : SaveClass}
    (classified : Classified fn.toLoopFunction kind loop node reg)
    (unused : kind = .evac ∨ kind = .asymPush) {use_ : Nat}
    (inLoop : fn.contains loop use_ = true)
    (path : ReflTransGen (fn.Clear reg) node use_) :
    fn.uses use_ reg = false := by
  rw [← Bool.not_eq_true]
  intro isUse
  have notFound : fn.useFound loop node reg = false := by
    rcases unused with isEvac | isAsymPush
    · subst isEvac
      exact (classified.found (by decide)).1
    · subst isAsymPush
      exact (classified.found (by decide)).1
  apply List.any_eq_false.mp notFound use_ (mem_nodes_iff.mpr inLoop)
  exact (fn.exact_.reachingUse node reg use_).mpr ⟨isUse, path⟩

end AnalysedFunction

end Msh
