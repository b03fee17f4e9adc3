import Msh.Bolt.FilterUnusedRegs
import Msh.Library.TransitionSystem

namespace Msh

open X86 Function TransitionSystem

/-!
# Restoring filtered registers

A function with filtered registers saves them on entry in its one register
set and loads them back before each return.  The set belongs to the function
and the coroutine, not to an activation, and a tail call does not load it.
-/

/-- `getCalleeSavedRegs` -/
def calleeSaved : Reg → Bool
  | .gpr .rbx | .gpr .rbp | .gpr .r12 | .gpr .r13 | .gpr .r14 | .gpr .r15 =>
      true
  | _ => false

/-- The callee-saved registers, listed. -/
def calleeSavedRegs : List Reg :=
  [.gpr .rbx, .gpr .rbp, .gpr .r12, .gpr .r13, .gpr .r14, .gpr .r15]

/-- The functions of a program after `FilterUnusedRegInstrumenter`. -/
structure FilteredProgram where
  /-- `BF.getFilteredRegs()` -/
  filtered : Nat → Reg → Bool
  /-- `next_regset_idx` when the function was instrumented. -/
  regSetIdx : Nat → Nat
  distinct :
    ∀ {fn other : Nat} {reg reg' : Reg},
      filtered fn reg = true → filtered other reg' = true →
        regSetIdx fn = regSetIdx other → fn = other

/-- An activation of a function on a coroutine's stack. -/
structure Activation (Value : Type) where
  fn : Nat
  /-- The registers on entry. -/
  entry : Reg → Value
  /-- A yield has changed a filtered register that the caller expects back. -/
  changed : Bool

/-- The state of a coroutine: its registers, register sets and activations. -/
structure CrtRegs (Value : Type) where
  regs : Reg → Value
  regset : Nat → Reg → Value
  stack : List (Activation Value)

/-- What a coroutine does next. -/
inductive CrtAction where
  | call (fn : Nat)
  | branchToEntry
  | body
  | yield
  | ret
  | tailCall (fn : Nat)
  deriving DecidableEq, Repr

namespace FilteredProgram

variable {Value : Type}

/--
`createPushToRegSet`.  The register that addresses the set is in use there:
what is stored for it is never loaded into it.
-/
def createPushToRegSet (program : FilteredProgram) (fn : Nat)
    (state : CrtRegs Value) : CrtRegs Value :=
  let idx := program.regSetIdx fn
  { state with
    regset :=
      update state.regset idx fun reg =>
        if program.filtered fn reg && reg != .gpr getCrtCtxReg then
          state.regs reg
        else state.regset idx reg }

/-- `createPopFromRegSet`, with the addressing register as it was. -/
def createPopFromRegSet (program : FilteredProgram) (fn : Nat)
    (state : CrtRegs Value) : CrtRegs Value :=
  { state with
    regs := fun reg =>
      if program.filtered fn reg && reg != .gpr getCrtCtxReg then
        state.regset (program.regSetIdx fn) reg
      else state.regs reg }

/-- Start an activation and run the instructions inserted at its entry. -/
def enter (program : FilteredProgram) (fn : Nat) (state : CrtRegs Value) :
    CrtRegs Value :=
  program.createPushToRegSet fn
    { state with stack := ⟨fn, state.regs, false⟩ :: state.stack }

/-- A callee-saved register that the instrumentation has to bring back. -/
def Expected (program : FilteredProgram) (fn : Nat) (reg : Reg) : Prop :=
  calleeSaved reg = true ∧ program.filtered fn reg = true

/-- Whether a yield leaves another value in a register to bring back. -/
def changes [DecidableEq Value] (program : FilteredProgram) (fn : Nat)
    (before found : Reg → Value) : Bool :=
  calleeSavedRegs.any fun reg =>
    program.filtered fn reg && before reg != found reg

/--
The function's own code has brought back the callee-saved registers that it
does not leave to the instrumentation.
-/
def OwnRegsBack (program : FilteredProgram)
    (activation : Activation Value) (regs : Reg → Value) : Prop :=
  ∀ reg, calleeSaved reg = true →
    program.filtered activation.fn reg = false →
      regs reg = activation.entry reg

/--
The steps of a coroutine.  The code of a function does not touch the
callee-saved registers that were filtered; the coroutines that run during a
yield may leave any values.
-/
inductive Step [DecidableEq Value] (program : FilteredProgram) :
    CrtRegs Value → CrtAction → CrtRegs Value → Prop where
  | call {state : CrtRegs Value} (fn : Nat) :
      Step program state (.call fn) (program.enter fn state)
  | branchToEntry {state : CrtRegs Value} {top : Activation Value}
      {rest : List (Activation Value)} :
      state.stack = top :: rest →
      Step program state .branchToEntry
        (program.createPushToRegSet top.fn state)
  | body {state : CrtRegs Value} {top : Activation Value}
      {rest : List (Activation Value)} {regs : Reg → Value} :
      state.stack = top :: rest →
      (∀ reg, program.Expected top.fn reg → regs reg = state.regs reg) →
      Step program state .body { state with regs := regs }
  | yield {state : CrtRegs Value} {top : Activation Value}
      {rest : List (Activation Value)} {found : Reg → Value} :
      state.stack = top :: rest →
      Step program state .yield
        { state with
          regs := found
          stack :=
            { top with
              changed :=
                top.changed || program.changes top.fn state.regs found } ::
              rest }
  | ret {state : CrtRegs Value} {top : Activation Value}
      {rest : List (Activation Value)} :
      state.stack = top :: rest →
      program.OwnRegsBack top state.regs →
      Step program state .ret
        { program.createPopFromRegSet top.fn state with stack := rest }
  | tailCall {state : CrtRegs Value} {top : Activation Value}
      {rest : List (Activation Value)} (fn : Nat) :
      state.stack = top :: rest →
      program.OwnRegsBack top state.regs →
      Step program state (.tailCall fn)
        (program.enter fn { state with stack := rest })

/-- The registers to bring back have an activation's values. -/
def Holds (program : FilteredProgram) (regs : Reg → Value)
    (activation : Activation Value) : Prop :=
  ∀ reg, program.Expected activation.fn reg →
    regs reg = activation.entry reg

/-- A step that leaves a function leaves its filtered registers restored. -/
def RestoresOnExit (program : FilteredProgram) (state : CrtRegs Value) :
    CrtAction → Prop
  | .ret =>
      ∀ top ∈ state.stack.head?,
        program.Holds (program.createPopFromRegSet top.fn state).regs top
  | .tailCall _ =>
      ∀ top ∈ state.stack.head?, program.Holds state.regs top
  | _ => True

/-- What a save would store is what the function's activations entered with. -/
def SavesSame (program : FilteredProgram) (fn : Nat) (regs : Reg → Value)
    (stack : List (Activation Value)) : Prop :=
  ∀ activation ∈ stack, activation.fn = fn → program.Holds regs activation

/--
The condition on a step: a save during an activation of the same function
finds the registers as that activation found them, and a function is not left
by a tail call after its yields have changed them.
-/
def Safe (program : FilteredProgram) (state : CrtRegs Value) :
    CrtAction → Prop
  | .call fn => program.SavesSame fn state.regs state.stack
  | .branchToEntry =>
      ∀ top ∈ state.stack.head?,
        program.SavesSame top.fn state.regs state.stack
  | .tailCall fn =>
      (∀ top ∈ state.stack.head?, top.changed = false) ∧
        program.SavesSame fn state.regs state.stack.tail
  | _ => True

/-- Until its own yields change them, an activation's callees get its values. -/
def Linked (program : FilteredProgram) :
    List (Activation Value) → Prop
  | callee :: caller :: rest =>
      (caller.changed = false → program.Holds callee.entry caller) ∧
        Linked program (caller :: rest)
  | _ => True

/-- What holds between the steps of a run that meets the condition. -/
structure Inv (program : FilteredProgram) (state : CrtRegs Value) :
    Prop where
  saved :
    ∀ activation ∈ state.stack,
      program.Holds (state.regset (program.regSetIdx activation.fn))
        activation
  current :
    ∀ top ∈ state.stack.head?, top.changed = false →
      program.Holds state.regs top
  linked : program.Linked state.stack

/-- A register to bring back does not address the register set. -/
theorem Expected.notAddress {program : FilteredProgram} {fn : Nat}
    {reg : Reg} (expected : program.Expected fn reg) :
    (program.filtered fn reg && reg != .gpr getCrtCtxReg) = true := by
  have differ : reg ≠ .gpr getCrtCtxReg := by
    intro isAddress
    have saved := expected.1
    rw [isAddress] at saved
    cases saved
  rw [expected.2]
  simpa using differ

/-- Every callee-saved register is listed. -/
theorem mem_calleeSavedRegs {reg : Reg} (saved : calleeSaved reg = true) :
    reg ∈ calleeSavedRegs := by
  cases reg with
  | gpr gpr =>
      cases gpr <;> first | decide | cases saved
  | _ =>
      cases saved

/-- A yield that changes nothing keeps the registers to bring back. -/
theorem same_of_changes_eq_false [DecidableEq Value]
    {program : FilteredProgram} {fn : Nat} {before found : Reg → Value}
    (unchanged : program.changes fn before found = false)
    {reg : Reg} (expected : program.Expected fn reg) :
    found reg = before reg := by
  have noChange :=
    List.any_eq_false.mp unchanged reg (mem_calleeSavedRegs expected.1)
  rw [expected.2, Bool.true_and, bne_iff_ne, not_not] at noChange
  exact noChange.symm

variable {program : FilteredProgram} {state : CrtRegs Value}
variable {top : Activation Value} {rest : List (Activation Value)}

/-- A save puts the registers into the function's set. -/
theorem createPushToRegSet_self {fn : Nat} {reg : Reg}
    (expected : program.Expected fn reg) :
    (program.createPushToRegSet fn state).regset (program.regSetIdx fn) reg =
      state.regs reg := by
  unfold createPushToRegSet
  show update state.regset (program.regSetIdx fn) _ (program.regSetIdx fn)
    reg = state.regs reg
  rw [update_self, if_pos expected.notAddress]

/-- A save leaves the sets of the other functions. -/
theorem createPushToRegSet_of_ne {fn other : Nat} {reg : Reg}
    (expected : program.Expected other reg) (differ : other ≠ fn) :
    (program.createPushToRegSet fn state).regset (program.regSetIdx other)
        reg =
      state.regset (program.regSetIdx other) reg := by
  unfold createPushToRegSet
  by_cases sameIdx : program.regSetIdx other = program.regSetIdx fn
  · show update state.regset (program.regSetIdx fn) _
      (program.regSetIdx other) reg = _
    rw [sameIdx, update_self]
    -- a function that shares the index saves nothing
    have empty :
        (program.filtered fn reg && reg != .gpr getCrtCtxReg) = false := by
      rw [Bool.and_eq_false_iff]
      left
      rw [← Bool.not_eq_true]
      intro isFiltered
      exact differ (program.distinct expected.2 isFiltered sameIdx)
    rw [empty]
    rfl
  · exact congrFun (update_of_ne sameIdx _ _) reg

/-- A save during which its activations agree keeps what they have saved. -/
theorem holds_createPushToRegSet {fn : Nat}
    {activation : Activation Value}
    (saved :
      program.Holds (state.regset (program.regSetIdx activation.fn))
        activation)
    (same :
      activation.fn = fn → program.Holds state.regs activation) :
    program.Holds
      ((program.createPushToRegSet fn state).regset
        (program.regSetIdx activation.fn))
      activation := by
  intro reg expected
  by_cases isFn : activation.fn = fn
  · rw [isFn] at expected ⊢
    rw [createPushToRegSet_self expected]
    exact same isFn reg (isFn ▸ expected)
  · rw [createPushToRegSet_of_ne expected isFn]
    exact saved reg expected

/-- Starting an activation keeps the invariant. -/
theorem Inv.enter (inv : program.Inv state) {fn : Nat}
    (same : program.SavesSame fn state.regs state.stack) :
    program.Inv (program.enter fn state) := by
  refine ⟨?_, ?_, ?_⟩
  · intro activation member
    rcases List.mem_cons.mp member with isNew | outstanding
    · subst isNew
      intro reg expected
      exact createPushToRegSet_self expected
    · exact holds_createPushToRegSet (inv.saved activation outstanding)
        (same activation outstanding)
  · intro activation isNew _ reg _
    rw [← Option.mem_some.mp isNew]
    rfl
  · cases isStack : state.stack with
    | nil =>
        show program.Linked (_ :: state.stack)
        rw [isStack]
        trivial
    | cons caller below =>
        show program.Linked (_ :: state.stack)
        rw [isStack]
        have current := inv.current caller (by rw [isStack]; rfl)
        have linked := inv.linked
        rw [isStack] at linked
        exact ⟨current, linked⟩

/--
Leaving an activation keeps the invariant when all the callee-saved registers
are back.
-/
theorem Inv.leave (inv : program.Inv state)
    (isStack : state.stack = top :: rest)
    {regs : Reg → Value}
    (back : ∀ reg, calleeSaved reg = true → regs reg = top.entry reg) :
    program.Inv { state with regs := regs, stack := rest } := by
  have saved := inv.saved
  have linked := inv.linked
  rw [isStack] at saved linked
  refine ⟨?_, ?_, ?_⟩
  · intro activation outstanding
    exact saved activation (List.mem_cons_of_mem _ outstanding)
  · intro caller isCaller unchanged reg expected
    cases rest with
    | nil =>
        cases isCaller
    | cons next below =>
        cases isCaller
        exact (back reg expected.1).trans (linked.1 unchanged reg expected)
  · cases rest with
    | nil =>
        trivial
    | cons next below =>
        exact linked.2

/-- Registers that the instrumentation and the code bring back together. -/
theorem back_of_holds {regs : Reg → Value}
    (holds : program.Holds regs top) (own : program.OwnRegsBack top regs) :
    ∀ reg, calleeSaved reg = true → regs reg = top.entry reg := by
  intro reg saved
  cases isFiltered : program.filtered top.fn reg with
  | true =>
      exact holds reg ⟨saved, isFiltered⟩
  | false =>
      exact own reg saved isFiltered

/-- Loading the set restores an activation whose values it has. -/
theorem holds_createPopFromRegSet
    (saved : program.Holds (state.regset (program.regSetIdx top.fn)) top) :
    program.Holds (program.createPopFromRegSet top.fn state).regs top := by
  intro reg expected
  refine (if_pos expected.notAddress).trans ?_
  exact saved reg expected

/-- Loading the set leaves what the function's own code has brought back. -/
theorem ownRegsBack_createPopFromRegSet
    (own : program.OwnRegsBack top state.regs) :
    program.OwnRegsBack top
      (program.createPopFromRegSet top.fn state).regs := by
  intro reg saved notFiltered
  refine (if_neg ?_).trans (own reg saved notFiltered)
  rw [notFiltered]
  exact Bool.false_ne_true

/-- A step that meets the condition keeps the invariant. -/
theorem Inv.step [DecidableEq Value] {after : CrtRegs Value}
    {action : CrtAction}
    (inv : program.Inv state) (safe : program.Safe state action)
    (taken : program.Step state action after) :
    program.Inv after ∧ program.RestoresOnExit state action := by
  cases taken with
  | call fn =>
      exact ⟨inv.enter safe, trivial⟩
  | @branchToEntry top rest isStack =>
      have same := safe top (by rw [isStack]; rfl)
      refine ⟨⟨?_, inv.current, inv.linked⟩, trivial⟩
      intro activation outstanding
      exact holds_createPushToRegSet (inv.saved activation outstanding)
        (same activation outstanding)
  | @body top rest regs isStack untouched =>
      refine ⟨⟨inv.saved, ?_, inv.linked⟩, trivial⟩
      intro current isTop unchanged reg expected
      have isCurrent : top = current := by
        change current ∈ state.stack.head? at isTop
        rw [isStack] at isTop
        exact Option.some.inj isTop
      subst isCurrent
      exact (untouched reg expected).trans
        (inv.current top isTop unchanged reg expected)
  | @yield top rest found isStack =>
      have saved := inv.saved
      have linked := inv.linked
      have current := inv.current top (by rw [isStack]; rfl)
      rw [isStack] at saved linked
      refine ⟨⟨?_, ?_, ?_⟩, trivial⟩
      · intro activation member
        rcases List.mem_cons.mp member with isTop | outstanding
        · subst isTop
          exact saved top List.mem_cons_self
        · exact saved activation (List.mem_cons_of_mem _ outstanding)
      · intro activation isTop unchanged reg expected
        cases isTop
        obtain ⟨before, now⟩ := Bool.or_eq_false_iff.mp unchanged
        exact (same_of_changes_eq_false now expected).trans
          (current before reg expected)
      · cases rest with
        | nil =>
            trivial
        | cons caller below =>
            exact linked
  | @ret top rest isStack own =>
      have saved := inv.saved top (by rw [isStack]; exact List.mem_cons_self)
      have restored := holds_createPopFromRegSet saved
      refine ⟨inv.leave isStack (back_of_holds restored
        (ownRegsBack_createPopFromRegSet own)), ?_⟩
      intro current isTop
      rw [isStack] at isTop
      cases isTop
      exact restored
  | @tailCall top rest fn isStack own =>
      obtain ⟨notChanged, same⟩ := safe
      have isTop : top ∈ state.stack.head? := by rw [isStack]; rfl
      have holds := inv.current top isTop (notChanged top isTop)
      have left := inv.leave isStack (back_of_holds holds own)
      rw [isStack] at same
      refine ⟨left.enter same, ?_⟩
      intro current isCurrent
      rw [isStack] at isCurrent
      cases isCurrent
      exact holds

/--
In a run whose saves find an outstanding activation's values and whose tail
calls come before a change, every function is left with its callee-saved
filtered registers as it was entered with.
-/
theorem calleeSaved_restored [DecidableEq Value]
    (program : FilteredProgram) {start : CrtRegs Value}
    {run : List (CrtAction × CrtRegs Value)}
    (begins : start.stack = [])
    (valid : FiniteRun program.Step start run)
    (safe : EveryStep program.Safe start run) :
    EveryStep program.RestoresOnExit start run := by
  have inv : program.Inv start := by
    refine ⟨?_, ?_, ?_⟩
    · rw [begins]
      intro activation member
      cases member
    · rw [begins]
      intro top isTop
      cases isTop
    · rw [begins]
      trivial
  exact valid.everyStep_of_everyStep program.Inv program.RestoresOnExit
    (fun _ _ _ inv safe taken => inv.step safe taken) inv safe

/-- A program with one function, from which `r12` was filtered. -/
def oneFunction : FilteredProgram where
  filtered fn reg := decide (fn = 0 ∧ reg = .gpr .r12)
  regSetIdx fn := fn
  distinct _ _ same := same

/-- A coroutine before it calls the function. -/
def notEntered : CrtRegs Nat :=
  ⟨fun _ => 1, fun _ _ => 0, []⟩

/-- The coroutine in the function. -/
def entered : CrtRegs Nat :=
  oneFunction.enter 0 notEntered

/-- After a yield that left 7 in `r12`. -/
def clobbered : CrtRegs Nat :=
  { entered with
    regs := fun reg => if reg = .gpr .r12 then 7 else 1
    stack := [⟨0, notEntered.regs, true⟩] }

/-- The function has returned. -/
def returned : CrtRegs Nat :=
  { oneFunction.createPopFromRegSet 0 clobbered with stack := [] }

/-- The function calls itself after the yield. -/
def enteredAgain : CrtRegs Nat :=
  oneFunction.enter 0 clobbered

/-- The inner activation has returned. -/
def innerReturned : CrtRegs Nat :=
  { oneFunction.createPopFromRegSet 0 enteredAgain with
    stack := clobbered.stack }

/-- Both activations have returned. -/
def bothReturned : CrtRegs Nat :=
  { oneFunction.createPopFromRegSet 0 innerReturned with stack := [] }

/-- Registers that only differ from an activation's in `r12`. -/
theorem oneFunction_ownRegsBack {regs : Reg → Nat}
    {activation : Activation Nat} (isFn : activation.fn = 0)
    (same : ∀ reg, reg ≠ .gpr .r12 → regs reg = activation.entry reg) :
    oneFunction.OwnRegsBack activation regs := by
  intro reg _ notFiltered
  apply same reg
  rintro rfl
  rw [isFn] at notFiltered
  cases notFiltered

/-- The yield changes a register to bring back. -/
theorem entered_yields : oneFunction.Step entered .yield clobbered :=
  @Step.yield _ _ oneFunction entered ⟨0, notEntered.regs, false⟩ []
    clobbered.regs rfl

/-- One call with a yield restores `r12`. -/
theorem calleeSaved_restored_oneCall :
    EveryStep oneFunction.RestoresOnExit notEntered
      [(.call 0, entered), (.yield, clobbered), (.ret, returned)] := by
  have leaves : oneFunction.Step clobbered .ret returned := by
    refine @Step.ret _ _ oneFunction clobbered
      ⟨0, notEntered.regs, true⟩ [] rfl ?_
    exact oneFunction_ownRegsBack rfl fun reg differ => if_neg differ
  apply calleeSaved_restored oneFunction rfl
  · exact .cons (.call 0) (.cons entered_yields (.cons leaves (.nil _)))
  · refine ⟨?_, trivial, trivial, trivial⟩
    intro activation member
    cases member

/-- A call from the function to itself after a yield loses `r12`. -/
theorem recursion_loses_r12 :
    FiniteRun oneFunction.Step notEntered
        [(.call 0, entered), (.yield, clobbered), (.call 0, enteredAgain),
          (.ret, innerReturned), (.ret, bothReturned)] ∧
      ¬ EveryStep oneFunction.RestoresOnExit notEntered
        [(.call 0, entered), (.yield, clobbered), (.call 0, enteredAgain),
          (.ret, innerReturned), (.ret, bothReturned)] := by
  have innerLeaves : oneFunction.Step enteredAgain .ret innerReturned := by
    refine @Step.ret _ _ oneFunction enteredAgain
      ⟨0, clobbered.regs, false⟩ clobbered.stack rfl ?_
    exact oneFunction_ownRegsBack rfl fun reg _ => rfl
  have leaves : oneFunction.Step innerReturned .ret bothReturned := by
    refine @Step.ret _ _ oneFunction innerReturned
      ⟨0, notEntered.regs, true⟩ [] rfl ?_
    refine oneFunction_ownRegsBack rfl fun reg differ => ?_
    have notFiltered :
        ¬ (oneFunction.filtered 0 reg &&
          reg != .gpr getCrtCtxReg) = true := by
      intro isFiltered
      have isR12 := of_decide_eq_true (Bool.and_eq_true_iff.mp isFiltered).1
      exact differ isR12.2
    exact (if_neg notFiltered).trans (if_neg differ)
  constructor
  · exact .cons (.call 0) (.cons entered_yields (.cons (.call 0)
      (.cons innerLeaves (.cons leaves (.nil _)))))
  · rintro ⟨_, _, _, _, lost, _⟩
    have restored :=
      lost ⟨0, notEntered.regs, true⟩ rfl (.gpr .r12) ⟨rfl, rfl⟩
    exact absurd restored (by decide)

end FilteredProgram

end Msh
