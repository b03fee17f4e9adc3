import Mathlib.Logic.Relation

/-!
# Runs of a flow graph in lock step

Two machines execute the instructions of one flow graph.  One of them has some
registers overwritten before instructions that clobber them.  As long as no
instruction on a path from there depends on an overwritten register, both take
the same path, and every instruction finds the same values.
-/

namespace LockStep

open Relation

variable {Node Reg Value : Type}

/--
Instructions of a flow graph: each depends on some registers only, gives some
registers a value, and continues with a successor.
-/
structure Semantics (Node Reg Value : Type)
    (edge : Node → Node → Prop) (depends : Node → Reg → Prop) where
  result : Node → (Reg → Value) → Reg → Option Value
  next : Node → (Reg → Value) → Option Node
  result_congr :
    ∀ {node : Node} {first second : Reg → Value},
      (∀ reg, depends node reg → first reg = second reg) →
        result node first = result node second
  next_congr :
    ∀ {node : Node} {first second : Reg → Value},
      (∀ reg, depends node reg → first reg = second reg) →
        next node first = next node second
  next_edge :
    ∀ {node after : Node} {regs : Reg → Value},
      next node regs = some after → edge node after

variable {edge : Node → Node → Prop} {depends : Node → Reg → Prop}

namespace Semantics

/-- The registers after an instruction. -/
def update (semantics : Semantics Node Reg Value edge depends)
    (node : Node) (regs : Reg → Value) : Reg → Value :=
  fun reg => (semantics.result node regs reg).getD (regs reg)

/--
The nodes that a machine has visited, the node it has come to and its
registers there.  Before each instruction, what its node clobbers may have
got any value.
-/
inductive Run (semantics : Semantics Node Reg Value edge depends)
    (clobbers : Node → Reg → Prop) (start : Node) (regs : Reg → Value) :
    List Node → Node → (Reg → Value) → Prop where
  | start :
      Run semantics clobbers start regs [] start regs
  | step {visited : List Node} {node after : Node}
      {reached found : Reg → Value} :
      Run semantics clobbers start regs visited node reached →
      (∀ reg, ¬ clobbers node reg → found reg = reached reg) →
      semantics.next node found = some after →
      Run semantics clobbers start regs (visited ++ [node]) after
        (semantics.update node found)

/-- A run in which nothing is clobbered. -/
abbrev PlainRun (semantics : Semantics Node Reg Value edge depends) :
    Node → (Reg → Value) → List Node → Node → (Reg → Value) → Prop :=
  semantics.Run fun _ _ => False

variable {semantics : Semantics Node Reg Value edge depends}
variable {clobbers : Node → Reg → Prop}

/-- Registers that differ were clobbered on the way, and not used since. -/
def Differ (clobbers : Node → Reg → Prop) (edge : Node → Node → Prop)
    (node : Node) (first second : Reg → Value) : Prop :=
  ∀ reg, first reg ≠ second reg →
    ∃ origin, clobbers origin reg ∧ ReflTransGen edge origin node

/-- An instruction changes registers that agree in the same way. -/
theorem update_congr {node : Node} {first second : Reg → Value}
    (same : ∀ reg, depends node reg → first reg = second reg)
    {reg : Reg} (differ :
      semantics.update node first reg ≠ semantics.update node second reg) :
    first reg ≠ second reg := by
  intro equal
  apply differ
  unfold update
  rw [semantics.result_congr same, equal]

/-- Clobbering adds the registers that the node clobbers. -/
theorem differ_clobbered {node : Node} {first second found : Reg → Value}
    (differ : Differ clobbers edge node first second)
    (kept : ∀ reg, ¬ clobbers node reg → found reg = second reg) :
    Differ clobbers edge node first found := by
  intro reg notEqual
  by_cases clobbered : clobbers node reg
  · exact ⟨node, clobbered, .refl⟩
  · rw [kept reg clobbered] at notEqual
    exact differ reg notEqual

/-- No instruction depends on a register that differs. -/
theorem same_of_differ {node : Node} {first second : Reg → Value}
    (untouched :
      ∀ origin reg, clobbers origin reg →
        ∀ node, ReflTransGen edge origin node → ¬ depends node reg)
    (differ : Differ clobbers edge node first second) :
    ∀ reg, depends node reg → first reg = second reg := by
  intro reg used
  apply Classical.byContradiction
  intro notEqual
  obtain ⟨origin, clobbered, path⟩ := differ reg notEqual
  exact untouched origin reg clobbered node path used

/--
When nothing on a path from a clobbering node depends on what it clobbers, a
clobbered run visits the nodes of a plain run, and the registers differ only
where they were clobbered.
-/
theorem Run.exists_plainRun
    (untouched :
      ∀ origin reg, clobbers origin reg →
        ∀ node, ReflTransGen edge origin node → ¬ depends node reg)
    {start node : Node} {regs reached : Reg → Value} {visited : List Node}
    (run : semantics.Run clobbers start regs visited node reached) :
    ∃ plain, semantics.PlainRun start regs visited node plain ∧
      Differ clobbers edge node plain reached := by
  induction run with
  | start =>
      refine ⟨regs, .start, ?_⟩
      intro reg notEqual
      exact absurd rfl notEqual
  | @step visited node after reached found _ kept next inductionHypothesis =>
      obtain ⟨plain, plainRun, differ⟩ := inductionHypothesis
      have clobbered := differ_clobbered differ kept
      have same := same_of_differ untouched clobbered
      have plainNext : semantics.next node plain = some after := by
        rw [semantics.next_congr same]
        exact next
      refine ⟨semantics.update node plain,
        .step plainRun (fun _ _ => rfl) plainNext, ?_⟩
      intro reg notEqual
      obtain ⟨origin, isOrigin, path⟩ :=
        clobbered reg (update_congr same notEqual)
      exact ⟨origin, isOrigin, path.tail (semantics.next_edge next)⟩

/-- Every instruction of a clobbered run finds the values of a plain run. -/
theorem Run.same
    (untouched :
      ∀ origin reg, clobbers origin reg →
        ∀ node, ReflTransGen edge origin node → ¬ depends node reg)
    {start node : Node} {regs reached found : Reg → Value}
    {visited : List Node}
    (run : semantics.Run clobbers start regs visited node reached)
    (kept : ∀ reg, ¬ clobbers node reg → found reg = reached reg) :
    ∃ plain, semantics.PlainRun start regs visited node plain ∧
      ∀ reg, depends node reg → found reg = plain reg := by
  obtain ⟨plain, plainRun, differ⟩ := run.exists_plainRun untouched
  have same := same_of_differ untouched (differ_clobbered differ kept)
  exact ⟨plain, plainRun, fun reg used => (same reg used).symm⟩

end Semantics

end LockStep
