import Msh.Bolt.LoopScanner
import Msh.Library.TransitionSystem

namespace Msh

open X86 Relation TransitionSystem

/-!
# Executing an optimised loop

The instrumented function keeps step with the original one.  Its loops have a
register set each: it is written before the loop and at the yields, and read
at the yields and behind the exits.  What a yield does not save may have any
value afterwards.
-/

/--
The original function and the instrumented one at a node, and what has
happened to the registers on the way there.
-/
structure LoopState (Value : Type) where
  node : Nat
  /-- The registers of the original function. -/
  prog : Reg → Value
  /-- The registers of the instrumented function. -/
  regs : Reg → Value
  /-- The register set of each loop. -/
  slots : Nat → Reg → Value
  /-- No yield has left the register unsaved since it got its value. -/
  intact : Reg → Bool
  /-- The register had its value when it was last stored for the loop. -/
  fresh : Nat → Reg → Bool
  /--
  A yield had left the register unsaved when the loop was entered, and it has
  not been defined since.
  -/
  parked : Nat → Reg → Bool

/-- What happens at a node. -/
structure LoopAction (Value : Type) where
  /-- The registers that the other coroutines leave at the yield. -/
  found : Reg → Value
  /-- What the original instruction computes. -/
  result : Reg → Value
  /-- What it computes in the instrumented function. -/
  instrumented : Reg → Value
  /-- The register sets after it; it may call the function again. -/
  slots : Nat → Reg → Value
  next : Nat

namespace LoopFunction

variable {Value : Type} (fn : LoopFunction)

/-- The loops around a node that load a register after a yield. -/
def poppingLoop (node : Nat) (reg : Reg) : Option Nat :=
  ((List.range fn.loops.length).filter fun loop =>
    fn.contains loop node && fn.regsToAsymPop loop reg).getLast?

/-- The stores inserted at a yield's `FirstCtxAccess`. -/
def pushAtYield (node : Nat) (regs : Reg → Value)
    (slots : Nat → Reg → Value) : Nat → Reg → Value :=
  fun loop reg =>
    if fn.contains loop node && fn.regsToAsymPush loop reg then regs reg
    else slots loop reg

/--
The registers after a yield: those on the stack are popped last, those loaded
at `FirstPop` come from the innermost loop that loads them.
-/
def popAtYield (node : Nat) (regs found : Reg → Value)
    (slots : Nat → Reg → Value) : Reg → Value :=
  fun reg =>
    if fn.stackSaved node reg then regs reg
    else
      match fn.poppingLoop node reg with
      | some loop => slots loop reg
      | none => found reg

/-- Control leaves a loop. -/
def leaves (loop node next : Nat) : Bool :=
  fn.contains loop node && !fn.contains loop next

/-- Control enters a loop. -/
def enters (loop node next : Nat) : Bool :=
  !fn.contains loop node && fn.contains loop next

/-- The outermost of the loops left that load a register behind the exit. -/
def leftLoop (node next : Nat) (reg : Reg) : Option Nat :=
  (List.range fn.loops.length).find? fun loop =>
    fn.leaves loop node next &&
      (fn.regsToEvac loop reg || fn.regsToAsymPush loop reg)

/-- The loads behind the exits, those of the outermost loop last. -/
def popAtExit (node next : Nat) (regs : Reg → Value)
    (slots : Nat → Reg → Value) : Reg → Value :=
  fun reg =>
    match fn.leftLoop node next reg with
    | some loop => slots loop reg
    | none => regs reg

/-- A register is in one of the sets of a loop. -/
def inSets (loop : Nat) (reg : Reg) : Bool :=
  fn.regsToEvac loop reg || fn.regsToAsymPush loop reg ||
    fn.regsToAsymPop loop reg

/-- The stores at the end of a preheader. -/
def pushAtEntry (node next : Nat) (regs : Reg → Value)
    (slots : Nat → Reg → Value) : Nat → Reg → Value :=
  fun loop reg =>
    if fn.enters loop node next && fn.inSets loop reg then regs reg
    else slots loop reg

end LoopFunction

namespace LoopState

variable {Value : Type} (fn : LoopFunction)

/-- The yield before the instruction, if there is one. -/
def atYield (state : LoopState Value) (found : Reg → Value) :
    LoopState Value :=
  if fn.yields state.node then
    let slots := fn.pushAtYield state.node state.regs state.slots
    let fresh := fn.pushAtYield state.node state.intact state.fresh
    { state with
      slots := slots
      regs := fn.popAtYield state.node state.regs found slots
      fresh := fresh
      intact :=
        fn.popAtYield state.node state.intact (fun _ => false) fresh }
  else state

/-- The instruction of the node. -/
def execute (state : LoopState Value) (action : LoopAction Value) :
    LoopState Value :=
  let defs := fn.defs state.node
  { state with
    prog := fun reg =>
      if defs reg then action.result reg else state.prog reg
    regs := fun reg =>
      if defs reg then action.instrumented reg else state.regs reg
    slots := action.slots
    intact := fun reg => defs reg || state.intact reg
    fresh := fun loop reg => !defs reg && state.fresh loop reg
    parked := fun loop reg => !defs reg && state.parked loop reg }

/-- The edge to the next node, with what was inserted on it. -/
def follow (state : LoopState Value) (next : Nat) : LoopState Value :=
  let regs := fn.popAtExit state.node next state.regs state.slots
  let intact := fn.popAtExit state.node next state.intact state.fresh
  { node := next
    prog := state.prog
    regs := regs
    slots := fn.pushAtEntry state.node next regs state.slots
    intact := intact
    fresh := fn.pushAtEntry state.node next intact state.fresh
    parked := fun loop reg =>
      if fn.enters loop state.node next then !intact reg
      else state.parked loop reg }

/-- The instruction and the edge behind it. -/
def move (state : LoopState Value) (action : LoopAction Value) :
    LoopState Value :=
  (state.execute fn action).follow fn action.next

/-- The state when the instruction of the node has been executed. -/
def executed (state : LoopState Value) (action : LoopAction Value) :
    LoopState Value :=
  (state.atYield fn action.found).execute fn action

/-- The state at the next node. -/
def after (state : LoopState Value) (action : LoopAction Value) :
    LoopState Value :=
  (state.atYield fn action.found).move fn action

/--
A step of both functions.  With the same values in the registers that it uses,
an instruction computes the same.
-/
structure Step (before : LoopState Value) (action : LoopAction Value)
    (after : LoopState Value) : Prop where
  edge : action.next ∈ fn.succs before.node
  computes :
    (∀ reg, fn.uses before.node reg = true →
      (before.atYield fn action.found).regs reg = before.prog reg) →
        action.instrumented = action.result
  isAfter : after = before.after fn action

/-- The instruction finds the values of the original function. -/
def ReadsSame (state : LoopState Value) (action : LoopAction Value) :
    Prop :=
  ∀ reg, fn.uses state.node reg = true →
    (state.atYield fn action.found).regs reg = state.prog reg

/--
Behind the exit of a loop, the live registers have the values of the original
function, but for those that an enclosing loop has still to bring back: a
yield of it had left them unsaved when this loop was entered.
-/
def ExitsSame (state : LoopState Value) (action : LoopAction Value) :
    Prop :=
  ∀ loop reg, fn.leaves loop state.node action.next = true →
    fn.live action.next reg = true →
    (state.executed fn action).parked loop reg = false →
      (state.after fn action).regs reg = (state.after fn action).prog reg

/--
A register that is loaded from the set of an asymmetric push behind an exit
got its value before the last store and was intact there, unless it was parked
when the loop was entered.
-/
def Stored (state : LoopState Value) (action : LoopAction Value) : Prop :=
  ∀ loop reg, fn.leftLoop state.node action.next reg = some loop →
    fn.regsToAsymPush loop reg = true →
    fn.live action.next reg = true →
      (state.execute fn action).fresh loop reg = true ∨
        (state.execute fn action).parked loop reg = true

/-- A call leaves the sets of the loops around it as they are. -/
def Kept (state : LoopState Value) (action : LoopAction Value) : Prop :=
  ∀ loop reg, fn.contains loop state.node = true →
    fn.inSets loop reg = true →
      action.slots loop reg = state.slots loop reg

/-- The condition on a step. -/
structure Disciplined (state : LoopState Value)
    (action : LoopAction Value) : Prop where
  stored : (state.atYield fn action.found).Stored fn action
  kept : (state.atYield fn action.found).Kept fn action

/-- Both functions start outside the loops with the same registers. -/
structure Begins (state : LoopState Value) : Prop where
  outside : ∀ loop, fn.contains loop state.node = false
  same : state.regs = state.prog
  intact : ∀ reg, state.intact reg = true

end LoopState

namespace LoopState

variable {Value : Type} {fn : LoopFunction} {state : LoopState Value}
  {found : Reg → Value}

/-- At a yield, the stores come before the loads. -/
theorem atYield_of_yields (yields : fn.yields state.node = true) :
    state.atYield fn found =
      { state with
        slots := fn.pushAtYield state.node state.regs state.slots
        regs := fn.popAtYield state.node state.regs found
          (fn.pushAtYield state.node state.regs state.slots)
        fresh := fn.pushAtYield state.node state.intact state.fresh
        intact := fn.popAtYield state.node state.intact (fun _ => false)
          (fn.pushAtYield state.node state.intact state.fresh) } :=
  if_pos yields

/-- Without a yield nothing is inserted before the instruction. -/
theorem atYield_of_not (notYields : fn.yields state.node = false) :
    state.atYield fn found = state := by
  unfold atYield
  rw [notYields]
  rfl

theorem atYield_node : (state.atYield fn found).node = state.node := by
  cases yields : fn.yields state.node with
  | true => rw [atYield_of_yields yields]
  | false => rw [atYield_of_not yields]

theorem atYield_prog : (state.atYield fn found).prog = state.prog := by
  cases yields : fn.yields state.node with
  | true => rw [atYield_of_yields yields]
  | false => rw [atYield_of_not yields]

section Move

variable {action : LoopAction Value} {loop : Nat} {reg : Reg}

/-- Only a definition makes a lost register good. -/
theorem execute_intact_eq_false :
    (state.execute fn action).intact reg = false ↔
      fn.defs state.node reg = false ∧ state.intact reg = false :=
  Bool.or_eq_false_iff

theorem execute_prog_of_not (undefined : fn.defs state.node reg = false) :
    (state.execute fn action).prog reg = state.prog reg :=
  if_neg (Bool.eq_false_iff.mp undefined)

theorem execute_regs_of_not (undefined : fn.defs state.node reg = false) :
    (state.execute fn action).regs reg = state.regs reg :=
  if_neg (Bool.eq_false_iff.mp undefined)

/-- A stored value is fresh until the next definition. -/
theorem execute_fresh :
    (state.execute fn action).fresh loop reg = true ↔
      fn.defs state.node reg = false ∧ state.fresh loop reg = true := by
  rw [← Bool.not_eq_true']
  exact Bool.and_eq_true_iff

/-- A register is parked until the next definition. -/
theorem execute_parked :
    (state.execute fn action).parked loop reg = true ↔
      fn.defs state.node reg = false ∧ state.parked loop reg = true := by
  rw [← Bool.not_eq_true']
  exact Bool.and_eq_true_iff

/-- What is lost when a loop is entered is parked in it. -/
theorem move_parked_of_enters
    (entered : fn.enters loop state.node action.next = true) :
    (state.move fn action).parked loop reg =
      !(state.move fn action).intact reg :=
  if_pos entered

/-- Only where a loop is entered is something parked. -/
theorem move_parked_of_not
    (notEntered : fn.enters loop state.node action.next = false) :
    (state.move fn action).parked loop reg =
      (state.execute fn action).parked loop reg :=
  if_neg (Bool.eq_false_iff.mp notEntered)

end Move

end LoopState

namespace LoopFunction

variable {fn : LoopFunction} {loop node next : Nat} {reg : Reg}

/-- The loop that a register is loaded from after a yield. -/
theorem poppingLoop_eq_some
    (isPopping : fn.poppingLoop node reg = some loop) :
    fn.contains loop node = true ∧ fn.regsToAsymPop loop reg = true := by
  have member := List.mem_of_getLast? isPopping
  exact Bool.and_eq_true_iff.mp (List.mem_filter.mp member).2

/-- A live register of the class `save` is on the stack. -/
theorem stackSaved_of_save (isLive : fn.live node reg = true)
    (isSaved : fn.annotateReg node reg = .save) :
    fn.stackSaved node reg = true := by
  unfold stackSaved
  rw [isLive, isSaved]
  exact Bool.or_true _

section Stores

variable {Value : Type} {regs found : Reg → Value}
  {slots : Nat → Reg → Value}

/-- A yield stores the registers of an asymmetric push. -/
theorem pushAtYield_of_asymPush (inLoop : fn.contains loop node = true)
    (asymPush : fn.regsToAsymPush loop reg = true) :
    fn.pushAtYield node regs slots loop reg = regs reg :=
  if_pos (Bool.and_eq_true_iff.mpr ⟨inLoop, asymPush⟩)

theorem pushAtYield_of_not (notPushed : fn.regsToAsymPush loop reg = false) :
    fn.pushAtYield node regs slots loop reg = slots loop reg := by
  unfold pushAtYield
  rw [notPushed, Bool.and_false]
  rfl

/-- The stack has the last word behind a yield. -/
theorem popAtYield_of_saved (saved : fn.stackSaved node reg = true) :
    fn.popAtYield node regs found slots reg = regs reg :=
  if_pos saved

/-- A register that is not on the stack is loaded from the innermost loop. -/
theorem popAtYield_of_loaded (notSaved : fn.stackSaved node reg = false)
    (isLoaded : fn.poppingLoop node reg = some loop) :
    fn.popAtYield node regs found slots reg = slots loop reg := by
  unfold popAtYield
  rw [notSaved, isLoaded]
  rfl

/--
The other coroutines leave their values in the registers that are neither on
the stack nor loaded.
-/
theorem popAtYield_of_not (notSaved : fn.stackSaved node reg = false)
    (notLoaded : fn.poppingLoop node reg = none) :
    fn.popAtYield node regs found slots reg = found reg := by
  unfold popAtYield
  rw [notSaved, notLoaded]
  rfl

/-- Behind an exit, a register is loaded from the outermost loop left. -/
theorem popAtExit_of_left (isLeft : fn.leftLoop node next reg = some loop) :
    fn.popAtExit node next regs slots reg = slots loop reg := by
  unfold popAtExit
  rw [isLeft]

theorem popAtExit_of_not (notLeft : fn.leftLoop node next reg = none) :
    fn.popAtExit node next regs slots reg = regs reg := by
  unfold popAtExit
  rw [notLeft]

/-- The preheader stores the registers of all three sets. -/
theorem pushAtEntry_of_enters (entered : fn.enters loop node next = true)
    (inSets : fn.inSets loop reg = true) :
    fn.pushAtEntry node next regs slots loop reg = regs reg :=
  if_pos (Bool.and_eq_true_iff.mpr ⟨entered, inSets⟩)

theorem pushAtEntry_of_not (notEntered : fn.enters loop node next = false) :
    fn.pushAtEntry node next regs slots loop reg = slots loop reg := by
  unfold pushAtEntry
  rw [notEntered]
  rfl

end Stores

/-- The loop that a register is loaded from behind an exit. -/
theorem leftLoop_eq_some (isLeft : fn.leftLoop node next reg = some loop) :
    fn.leaves loop node next = true ∧
      (fn.regsToEvac loop reg = true ∨
        fn.regsToAsymPush loop reg = true) := by
  have holds := List.find?_some isLeft
  rw [Bool.and_eq_true_iff, Bool.or_eq_true_iff] at holds
  exact holds

theorem leaves_iff :
    fn.leaves loop node next = true ↔
      fn.contains loop node = true ∧ fn.contains loop next = false := by
  unfold leaves
  rw [Bool.and_eq_true_iff, Bool.not_eq_true']

/-- Control stays in a loop that it does not leave. -/
theorem contains_next_of_not_leaves
    (inLoop : fn.contains loop node = true)
    (notLeft : ¬ fn.leaves loop node next = true) :
    fn.contains loop next = true := by
  rw [← Bool.not_eq_false]
  intro notIn
  exact notLeft (leaves_iff.mpr ⟨inLoop, notIn⟩)

theorem enters_iff :
    fn.enters loop node next = true ↔
      fn.contains loop node = false ∧ fn.contains loop next = true := by
  unfold enters
  rw [Bool.and_eq_true_iff, Bool.not_eq_true']

/-- Control was in a loop before, unless it enters the loop. -/
theorem contains_of_not_enters
    (inLoop : fn.contains loop next = true)
    (notEntered : fn.enters loop node next = false) :
    fn.contains loop node = true := by
  rw [← Bool.not_eq_false]
  intro notIn
  rw [enters_iff.mpr ⟨notIn, inLoop⟩] at notEntered
  cases notEntered

theorem inSets_iff :
    fn.inSets loop reg = true ↔
      (fn.regsToEvac loop reg = true ∨ fn.regsToAsymPush loop reg = true) ∨
        fn.regsToAsymPop loop reg = true := by
  unfold inSets
  rw [Bool.or_eq_true_iff, Bool.or_eq_true_iff]

end LoopFunction

namespace AnalysedFunction

variable {fn : AnalysedFunction} {loop node next : Nat} {reg : Reg}

/-- Without a loading loop around a yield, no loop around it asym-pops. -/
theorem asymPop_eq_false_of_poppingLoop
    (noLoop : fn.poppingLoop node reg = none)
    (inLoop : fn.contains loop node = true) :
    fn.regsToAsymPop loop reg = false := by
  rw [← Bool.not_eq_true]
  intro asymPop
  have empty := List.getLast?_eq_none_iff.mp noLoop
  have member :
      loop ∈ (List.range fn.loops.length).filter fun loop =>
        fn.contains loop node && fn.regsToAsymPop loop reg :=
    List.mem_filter.mpr
      ⟨List.mem_range.mpr (loop_lt_length inLoop),
        Bool.and_eq_true_iff.mpr ⟨inLoop, asymPop⟩⟩
  rw [empty] at member
  cases member

/-- A live register that a yield does not save has a class in a loop. -/
theorem exists_classified (isLive : fn.live node reg = true)
    (notSaved : fn.stackSaved node reg = false) :
    ∃ loop, Classified fn.toLoopFunction (fn.annotateReg node reg) loop
      node reg := by
  cases innermost : fn.getLoopFor node with
  | none =>
      have isSaved : fn.annotateReg node reg = .save := by
        unfold LoopFunction.annotateReg
        rw [innermost]
      rw [LoopFunction.stackSaved_of_save isLive isSaved] at notSaved
      cases notSaved
  | some loop =>
      exact ⟨loop, innermost, isLive, rfl⟩

/-- A loop that is left and would load a register comes not before. -/
theorem leftLoop_le (leaves : fn.leaves loop node next = true)
    (added :
      fn.regsToEvac loop reg = true ∨ fn.regsToAsymPush loop reg = true) :
    ∃ left, fn.leftLoop node next reg = some left ∧ left ≤ loop := by
  have inLoop := (LoopFunction.leaves_iff.mp leaves).1
  have loads :
      (fn.leaves loop node next &&
        (fn.regsToEvac loop reg || fn.regsToAsymPush loop reg)) = true := by
    rw [Bool.and_eq_true_iff, Bool.or_eq_true_iff]
    exact ⟨leaves, added⟩
  cases isLeft : fn.leftLoop node next reg with
  | none =>
      have notLoads :=
        List.find?_eq_none.mp isLeft loop
          (List.mem_range.mpr (loop_lt_length inLoop))
      exact absurd loads notLoads
  | some left =>
      refine ⟨left, rfl, Nat.le_of_not_lt fun before => ?_⟩
      have none := (List.find?_range_eq_some.mp isLeft).2.2 loop before
      rw [loads] at none
      cases none

end AnalysedFunction

end Msh
