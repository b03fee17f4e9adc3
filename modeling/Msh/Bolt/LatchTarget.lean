import Mathlib.Data.List.Basic

/-!
# Where a latch gets its yield

`performLoopAnalysis` looks for the instruction before which a latch yields.
It goes back from the last instruction of the block over conditional branches
and compare-exchanges.
-/

namespace Msh.BoundYieldDistanceScanner

/-- The opcodes that matter here -/
inductive Opcode where
  | cmpxchg8rm | cmpxchg16rm | cmpxchg32rm | cmpxchg64rm
  | cmpxchg8rr | cmpxchg16rr | cmpxchg32rr | cmpxchg64rr
  | cmpxchg8b | cmpxchg16b
  | jcc
  | other (number : Nat)
  deriving DecidableEq, Repr

namespace Opcode

/-- `isCmpXchg` -/
def isCmpXchg : Opcode → Bool
  | .cmpxchg16rm | .cmpxchg32rm | .cmpxchg64rm | .cmpxchg8rm => true
  | .cmpxchg8rr | .cmpxchg16rr | .cmpxchg32rr | .cmpxchg64rr => true
  | _ => false

/-- `isConditionalBranch` -/
def isConditionalBranch : Opcode → Bool
  | .jcc => true
  | _ => false

/-- The instruction compares and exchanges. -/
def CompareExchange (opcode : Opcode) : Prop :=
  opcode.isCmpXchg = true ∨ opcode = .cmpxchg8b ∨ opcode = .cmpxchg16b

/-- The search goes on over the instruction. -/
def isPassed (opcode : Opcode) : Bool :=
  opcode.isConditionalBranch || opcode.isCmpXchg

end Opcode

/-- An instruction of a latch -/
structure LatchInst where
  opcode : Opcode
  isPseudo : Bool
  deriving DecidableEq, Repr

/-- How the search for `LastIter` ends -/
inductive LatchTarget where
  /-- The latch is skipped. -/
  | skipped
  | selected (inst : LatchInst)
  /-- What is before the first instruction of the block is read. -/
  | beforeFirst
  deriving DecidableEq, Repr

/-- The `while` loop, from `LastIter` back.  At `rend` it writes a message and
goes on with the same loop. -/
def searchLastIter : List LatchInst → LatchTarget
  | [] => .beforeFirst
  | inst :: rest =>
      if inst.opcode.isPassed then searchLastIter rest else .selected inst

/-- `getLastNonPseudo`: the instructions from the last one back that is not a
pseudo-instruction -/
def fromLastNonPseudo (latch : List LatchInst) : List LatchInst :=
  latch.reverse.dropWhile (·.isPseudo)

/-- The target of a latch with the given average latency of its paths -/
def latchTarget (avgLatency : Nat) (latch : List LatchInst) : LatchTarget :=
  if avgLatency = 0 then .skipped
  else searchLastIter (fromLastNonPseudo latch)

/-- The latch is skipped, or an ordinary instruction of it is selected. -/
def TargetInside (latch : List LatchInst) : LatchTarget → Prop
  | .skipped => True
  | .selected inst =>
      inst ∈ latch ∧ inst.opcode.isConditionalBranch = false ∧
        ¬inst.opcode.CompareExchange
  | .beforeFirst => False

variable {insts latch : List LatchInst} {inst : LatchInst}

theorem searchLastIter_eq :
    searchLastIter insts =
      match insts.find? fun inst => !inst.opcode.isPassed with
      | some inst => .selected inst
      | none => .beforeFirst := by
  induction insts with
  | nil => rfl
  | cons inst rest inductionHypothesis =>
      rw [searchLastIter, List.find?_cons]
      cases inst.opcode.isPassed with
      | true => exact inductionHypothesis
      | false => rfl

theorem mem_of_mem_fromLastNonPseudo (member : inst ∈ fromLastNonPseudo latch) :
    inst ∈ latch :=
  List.mem_reverse.mp ((List.dropWhile_suffix _).mem member)

/-- A target is found inside the latch if and only if it has an instruction
before which it can yield, and the last of these is no compare-exchange that
`isCmpXchg` does not know. -/
theorem latchTarget_inside_iff (avgLatency : Nat) (latch : List LatchInst) :
    TargetInside latch (latchTarget avgLatency latch) ↔
      avgLatency = 0 ∨
        ∃ inst, (fromLastNonPseudo latch).find?
            (fun inst => !inst.opcode.isPassed) = some inst ∧
          inst.opcode ≠ .cmpxchg8b ∧ inst.opcode ≠ .cmpxchg16b := by
  rw [latchTarget]
  by_cases isZero : avgLatency = 0
  · rw [if_pos isZero]
    simp [TargetInside, isZero]
  · rw [if_neg isZero, searchLastIter_eq]
    cases isFound : (fromLastNonPseudo latch).find? fun inst =>
        !inst.opcode.isPassed with
    | none => simp [TargetInside, isZero]
    | some inst =>
        have notPassed := List.find?_some isFound
        rw [Bool.not_eq_true', Opcode.isPassed, Bool.or_eq_false_iff]
          at notPassed
        have isInside := mem_of_mem_fromLastNonPseudo
          (List.mem_of_find?_eq_some isFound)
        simp [TargetInside, Opcode.CompareExchange, isZero, isInside, notPassed]

/-- A loop that only tries to exchange -/
def spinLatch : List LatchInst :=
  [⟨.cmpxchg64rm, false⟩, ⟨.jcc, false⟩]

theorem spinLatch_not_inside :
    ¬∀ (avgLatency : Nat) (latch : List LatchInst),
      TargetInside latch (latchTarget avgLatency latch) :=
  fun all => all 20 spinLatch

end Msh.BoundYieldDistanceScanner
