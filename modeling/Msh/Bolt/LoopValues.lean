import Msh.Bolt.LoopOptimization

namespace Msh

open X86 Relation TransitionSystem LoopFunction

/-!
# The values in an optimised loop

A live register that does not have its value was left unsaved at a yield, and
control is still in the loop of that yield: no use there can be reached
without a definition.  Its value is in the set of the loop.
-/

/--
A yield of a loop has left a register unsaved, and no definition of it was on
the way since.  It was parked for the inner loops when they were entered.
-/
structure LeftUnsaved (fn : LoopFunction) (parked : Nat → Reg → Bool)
    (loop node : Nat) (reg : Reg) : Prop where
  inLoop : fn.contains loop node = true
  outermost :
    ∀ {other : Nat}, fn.contains other node = true →
      (parked other reg = true ↔ loop < other)
  origin :
    ∃ yield_ kind, fn.yields yield_ = true ∧
      (kind = .evac ∨ kind = .asymPush) ∧
      AnalysedFunction.Classified fn kind loop yield_ reg ∧
      (∀ {other : Nat}, fn.contains other yield_ = true →
        fn.regsToAsymPop other reg = false) ∧
      ReflTransGen (fn.Clear reg) yield_ node

namespace LeftUnsaved

variable {fn : AnalysedFunction} {parked : Nat → Reg → Bool}
  {loop node next : Nat} {reg : Reg}

/-- The loop loads the register behind its exits. -/
theorem added (unsaved : LeftUnsaved fn.toLoopFunction parked loop node reg) :
    fn.regsToEvac loop reg = true ∨ fn.regsToAsymPush loop reg = true := by
  obtain ⟨yield_, kind, yields, unused, classified, _, _⟩ := unsaved.origin
  have found : fn.addedRegs kind loop reg = true :=
    AnalysedFunction.addedRegs_iff.mpr
      ⟨yield_, classified.inLoop, yields, classified⟩
  rcases unused with rfl | rfl
  · exact .inl found
  · exact .inr found

/-- No use in the loop comes before a definition. -/
theorem unused (unsaved : LeftUnsaved fn.toLoopFunction parked loop node reg)
    {use_ : Nat} (inLoop : fn.contains loop use_ = true)
    (path : ReflTransGen (fn.Clear reg) node use_) :
    fn.uses use_ reg = false := by
  obtain ⟨_, _, _, unused, classified, _, clear⟩ := unsaved.origin
  exact AnalysedFunction.no_clear_use classified unused inLoop
    (clear.trans path)

/-- A loop around the node does not load the register after its yields. -/
theorem not_asymPop
    (unsaved : LeftUnsaved fn.toLoopFunction parked loop node reg)
    {other : Nat} (inOther : fn.contains other node = true) :
    fn.regsToAsymPop other reg = false := by
  cases asymPop : fn.regsToAsymPop other reg with
  | false =>
      rfl
  | true =>
      obtain ⟨use_, useInOther, isUse, path⟩ :=
        AnalysedFunction.exists_clear_use asymPop inOther
      rcases Nat.lt_or_ge other loop with outside | inside
      · -- The loop is in the other one, and the yield is too.
        obtain ⟨yield_, _, _, _, classified, noPop, _⟩ := unsaved.origin
        have yieldInOther : fn.contains other yield_ = true :=
          fn.natural.nested outside inOther unsaved.inLoop classified.inLoop
        rw [noPop yieldInOther] at asymPop
        cases asymPop
      · have useInLoop : fn.contains loop use_ = true := by
          rcases Nat.lt_or_eq_of_le inside with deeper | same
          · exact fn.natural.nested deeper unsaved.inLoop inOther useInOther
          · rw [same]
            exact useInOther
        rw [unsaved.unused useInLoop path] at isUse
        cases isUse

end LeftUnsaved

namespace LoopState

variable {Value : Type} (fn : AnalysedFunction)

/-- What holds when control arrives at a node. -/
structure Inv (state : LoopState Value) : Prop where
  values :
    ∀ {reg : Reg}, state.intact reg = true →
      state.regs reg = state.prog reg
  slots :
    ∀ {loop : Nat} {reg : Reg}, fn.contains loop state.node = true →
      fn.inSets loop reg = true → state.fresh loop reg = true →
        state.slots loop reg = state.prog reg
  unsaved :
    ∀ {reg : Reg}, fn.live state.node reg = true →
      state.intact reg = false →
        ∃ loop, LeftUnsaved fn.toLoopFunction state.parked loop
          state.node reg
  notIntact :
    ∀ {loop : Nat} {reg : Reg}, fn.contains loop state.node = true →
      state.parked loop reg = true → fn.live state.node reg = true →
        state.intact reg = false
  notFresh :
    ∀ {loop : Nat} {reg : Reg}, fn.contains loop state.node = true →
      fn.inSets loop reg = true → state.parked loop reg = true →
        fn.live state.node reg = true → state.fresh loop reg = false
  evac :
    ∀ {loop : Nat} {reg : Reg}, fn.contains loop state.node = true →
      fn.regsToEvac loop reg = true →
        state.fresh loop reg = true ∨ state.parked loop reg = true
  asymPop :
    ∀ {loop : Nat} {reg : Reg}, fn.contains loop state.node = true →
      fn.regsToAsymPop loop reg = true → state.fresh loop reg = true

variable {fn}

/-- A state in which the functions begin. -/
theorem Begins.inv {state : LoopState Value}
    (begins : state.Begins fn.toLoopFunction) : state.Inv fn := by
  have notIn : ∀ {loop : Nat}, ¬ fn.contains loop state.node = true := by
    intro loop inLoop
    rw [begins.outside loop] at inLoop
    cases inLoop
  refine ⟨?_, ?_, ?_, ?_, ?_, ?_, ?_⟩
  · intro reg _
    rw [begins.same]
  · intro loop reg inLoop
    exact absurd inLoop notIn
  · intro reg _ notIntact
    rw [begins.intact reg] at notIntact
    cases notIntact
  · intro loop reg inLoop
    exact absurd inLoop notIn
  · intro loop reg inLoop
    exact absurd inLoop notIn
  · intro loop reg inLoop
    exact absurd inLoop notIn
  · intro loop reg inLoop
    exact absurd inLoop notIn

/-- The set of a loop after the stores of a yield. -/
theorem Inv.pushed {state : LoopState Value} (inv : state.Inv fn)
    {loop : Nat} {reg : Reg} (inLoop : fn.contains loop state.node = true)
    (inSets : fn.inSets loop reg = true)
    (fresh :
      fn.pushAtYield state.node state.intact state.fresh loop reg = true) :
    fn.pushAtYield state.node state.regs state.slots loop reg =
      state.prog reg := by
  cases asymPush : fn.regsToAsymPush loop reg with
  | true =>
      rw [pushAtYield_of_asymPush inLoop asymPush] at fresh ⊢
      exact inv.values fresh
  | false =>
      rw [pushAtYield_of_not asymPush] at fresh ⊢
      exact inv.slots inLoop inSets fresh

/-- A set that a yield loads from has the value. -/
theorem Inv.pushedFresh {state : LoopState Value} (inv : state.Inv fn)
    {loop : Nat} {reg : Reg} (inLoop : fn.contains loop state.node = true)
    (asymPop : fn.regsToAsymPop loop reg = true) :
    fn.pushAtYield state.node state.intact state.fresh loop reg = true := by
  rw [pushAtYield_of_not
    (AnalysedFunction.asymPush_eq_false (.inr asymPop))]
  exact inv.asymPop inLoop asymPop

/-- A yield leaves a register unsaved that no loop around loads after it. -/
theorem Inv.leaveUnsaved {state : LoopState Value} (inv : state.Inv fn)
    (yields : fn.yields state.node = true) {reg : Reg}
    (isLive : fn.live state.node reg = true)
    (isIntact : state.intact reg = true)
    (notSaved : fn.stackSaved state.node reg = false)
    (notLoaded : fn.poppingLoop state.node reg = none) :
    ∃ loop, LeftUnsaved fn.toLoopFunction state.parked loop state.node
      reg := by
  obtain ⟨loop, classified⟩ :=
    AnalysedFunction.exists_classified isLive notSaved
  have inLoop := classified.inLoop
  have noPop : ∀ {other : Nat}, fn.contains other state.node = true →
      fn.regsToAsymPop other reg = false :=
    AnalysedFunction.asymPop_eq_false_of_poppingLoop notLoaded
  refine ⟨loop, inLoop, ?_, state.node, fn.annotateReg state.node reg,
    yields, ?_, classified, noPop, .refl⟩
  · intro other inOther
    have notInside : ¬ loop < other :=
      Nat.not_lt_of_le
        ((AnalysedFunction.getLoopFor_eq_some classified.innermost).2 inOther)
    have notParked : ¬ state.parked other reg = true := by
      intro isParked
      rw [inv.notIntact inOther isParked isLive] at isIntact
      cases isIntact
    exact iff_of_false notParked notInside
  · cases isKind : fn.annotateReg state.node reg with
    | save =>
        rw [LoopFunction.stackSaved_of_save isLive isKind] at notSaved
        cases notSaved
    | evac =>
        exact .inl rfl
    | asymPush =>
        exact .inr rfl
    | asymPop =>
        have popped : fn.regsToAsymPop loop reg = true :=
          AnalysedFunction.addedRegs_iff.mpr
            ⟨state.node, inLoop, yields, isKind ▸ classified⟩
        rw [noPop inLoop] at popped
        cases popped

/-- A register that is intact after the loads of a yield. -/
theorem Inv.popped {state : LoopState Value} (inv : state.Inv fn)
    {found : Reg → Value} {reg : Reg}
    (isIntact :
      fn.popAtYield state.node state.intact (fun _ => false)
        (fn.pushAtYield state.node state.intact state.fresh) reg = true) :
    fn.popAtYield state.node state.regs found
        (fn.pushAtYield state.node state.regs state.slots) reg =
      state.prog reg := by
  cases saved : fn.stackSaved state.node reg with
  | true =>
      rw [popAtYield_of_saved saved] at isIntact ⊢
      exact inv.values isIntact
  | false =>
      cases loaded : fn.poppingLoop state.node reg with
      | none =>
          rw [popAtYield_of_not saved loaded] at isIntact
          cases isIntact
      | some loop =>
          rw [popAtYield_of_loaded saved loaded] at isIntact ⊢
          obtain ⟨inLoop, asymPop⟩ := poppingLoop_eq_some loaded
          exact inv.pushed inLoop (inSets_iff.mpr (.inr asymPop)) isIntact

/-- A live register that is not intact after the loads of a yield. -/
theorem Inv.poppedUnsaved {state : LoopState Value} (inv : state.Inv fn)
    (yields : fn.yields state.node = true) {reg : Reg}
    (isLive : fn.live state.node reg = true)
    (notIntact :
      fn.popAtYield state.node state.intact (fun _ => false)
        (fn.pushAtYield state.node state.intact state.fresh) reg = false) :
    ∃ loop, LeftUnsaved fn.toLoopFunction state.parked loop state.node
      reg := by
  cases wasIntact : state.intact reg with
  | false =>
      exact inv.unsaved isLive wasIntact
  | true =>
      cases saved : fn.stackSaved state.node reg with
      | true =>
          rw [popAtYield_of_saved saved, wasIntact] at notIntact
          cases notIntact
      | false =>
          cases loaded : fn.poppingLoop state.node reg with
          | none =>
              exact inv.leaveUnsaved yields isLive wasIntact saved loaded
          | some loop =>
              obtain ⟨inLoop, asymPop⟩ := poppingLoop_eq_some loaded
              rw [popAtYield_of_loaded saved loaded,
                inv.pushedFresh inLoop asymPop] at notIntact
              cases notIntact

/-- A yield does not bring back a register that it finds unsaved. -/
theorem Inv.popped_eq_false {state : LoopState Value} (inv : state.Inv fn)
    {reg : Reg} (isLive : fn.live state.node reg = true)
    (notIntact : state.intact reg = false) :
    fn.popAtYield state.node state.intact (fun _ => false)
      (fn.pushAtYield state.node state.intact state.fresh) reg = false := by
  cases saved : fn.stackSaved state.node reg with
  | true =>
      rw [popAtYield_of_saved saved]
      exact notIntact
  | false =>
      cases loaded : fn.poppingLoop state.node reg with
      | none =>
          exact popAtYield_of_not saved loaded
      | some loop =>
          obtain ⟨inLoop, asymPop⟩ := poppingLoop_eq_some loaded
          obtain ⟨_, unsaved⟩ := inv.unsaved isLive notIntact
          rw [unsaved.not_asymPop inLoop] at asymPop
          cases asymPop

/-- A parked register is stored without its value. -/
theorem Inv.pushed_eq_false {state : LoopState Value} (inv : state.Inv fn)
    {loop : Nat} {reg : Reg} (inLoop : fn.contains loop state.node = true)
    (inSets : fn.inSets loop reg = true)
    (isParked : state.parked loop reg = true)
    (isLive : fn.live state.node reg = true) :
    fn.pushAtYield state.node state.intact state.fresh loop reg =
      false := by
  cases asymPush : fn.regsToAsymPush loop reg with
  | true =>
      rw [pushAtYield_of_asymPush inLoop asymPush]
      exact inv.notIntact inLoop isParked isLive
  | false =>
      rw [pushAtYield_of_not asymPush]
      exact inv.notFresh inLoop inSets isParked isLive

/-- An evacuated register is in the set, or its value is in an outer one. -/
theorem Inv.pushedEvac {state : LoopState Value} (inv : state.Inv fn)
    {loop : Nat} {reg : Reg} (inLoop : fn.contains loop state.node = true)
    (evac : fn.regsToEvac loop reg = true) :
    fn.pushAtYield state.node state.intact state.fresh loop reg = true ∨
      state.parked loop reg = true := by
  rw [pushAtYield_of_not (AnalysedFunction.asymPush_eq_false (.inl evac))]
  exact inv.evac inLoop evac

/-- A yield keeps what holds at the node. -/
theorem Inv.atYield {state : LoopState Value} (inv : state.Inv fn)
    (found : Reg → Value) :
    (state.atYield fn.toLoopFunction found).Inv fn := by
  cases yields : fn.yields state.node with
  | false =>
      rw [atYield_of_not yields]
      exact inv
  | true =>
      rw [atYield_of_yields yields]
      exact
        { values := inv.popped
          slots := inv.pushed
          unsaved := inv.poppedUnsaved yields
          notIntact := fun inLoop isParked isLive =>
            inv.popped_eq_false isLive
              (inv.notIntact inLoop isParked isLive)
          notFresh := inv.pushed_eq_false
          evac := inv.pushedEvac
          asymPop := inv.pushedFresh }

/-- An instruction finds the values of the original function. -/
theorem Inv.readsSame {state : LoopState Value} (inv : state.Inv fn)
    {reg : Reg} (isUse : fn.uses state.node reg = true) :
    state.regs reg = state.prog reg := by
  have isLive : fn.live state.node reg = true :=
    AnalysedFunction.live_of_clear isUse .refl
  cases isIntact : state.intact reg with
  | true =>
      exact inv.values isIntact
  | false =>
      obtain ⟨loop, unsaved⟩ := inv.unsaved isLive isIntact
      rw [unsaved.unused unsaved.inLoop .refl] at isUse
      cases isUse

section Move

variable {state : LoopState Value} {action : LoopAction Value}
  {loop : Nat} {reg : Reg}

/-- What is loaded behind an exit is fresh in the set or was parked. -/
theorem Inv.freshOrParked (inv : state.Inv fn)
    (stored : state.Stored fn.toLoopFunction action)
    (isLeft : fn.leftLoop state.node action.next reg = some loop)
    (isLive : fn.live action.next reg = true) :
    (state.execute fn.toLoopFunction action).fresh loop reg = true ∨
      (state.execute fn.toLoopFunction action).parked loop reg = true := by
  obtain ⟨leaves, isEvac | isAsymPush⟩ := leftLoop_eq_some isLeft
  · have inLoop := (leaves_iff.mp leaves).1
    have undefined :=
      AnalysedFunction.defs_eq_false_of_added (.inl isEvac) inLoop
    rcases inv.evac inLoop isEvac with isFresh | isParked
    · exact .inl (execute_fresh.mpr ⟨undefined, isFresh⟩)
    · exact .inr (execute_parked.mpr ⟨undefined, isParked⟩)
  · exact stored loop reg isLeft isAsymPush isLive

/--
A live register without its value behind an edge had none before it, and
control is still in the loop whose yield left it unsaved.
-/
theorem Inv.unsavedBehind (inv : state.Inv fn)
    (edge : action.next ∈ fn.succs state.node)
    (stored : state.Stored fn.toLoopFunction action)
    (isLive : fn.live action.next reg = true)
    (notIntact :
      (state.move fn.toLoopFunction action).intact reg = false) :
    fn.defs state.node reg = false ∧
      ∃ loop, LeftUnsaved fn.toLoopFunction state.parked loop state.node
          reg ∧
        fn.contains loop action.next = true := by
  cases isLeft : fn.leftLoop state.node action.next reg with
  | none =>
      have wasNot : (state.execute fn.toLoopFunction action).intact reg =
          false :=
        (popAtExit_of_not isLeft).symm.trans notIntact
      obtain ⟨undefined, unsavedBefore⟩ := execute_intact_eq_false.mp wasNot
      have wasLive := AnalysedFunction.live_before edge undefined isLive
      obtain ⟨loop, unsaved⟩ := inv.unsaved wasLive unsavedBefore
      refine ⟨undefined, loop, unsaved,
        contains_next_of_not_leaves unsaved.inLoop fun leaves => ?_⟩
      obtain ⟨_, isSome, _⟩ :=
        AnalysedFunction.leftLoop_le leaves unsaved.added
      rw [isSome] at isLeft
      cases isLeft
  | some left =>
      have notFresh :
          (state.execute fn.toLoopFunction action).fresh left reg = false :=
        (popAtExit_of_left isLeft).symm.trans notIntact
      have parkedAfter :
          (state.execute fn.toLoopFunction action).parked left reg =
            true := by
        rcases inv.freshOrParked stored isLeft isLive with
          isFresh | isParked
        · rw [isFresh] at notFresh
          cases notFresh
        · exact isParked
      obtain ⟨undefined, wasParked⟩ := execute_parked.mp parkedAfter
      have inLeft := (leaves_iff.mp (leftLoop_eq_some isLeft).1).1
      have wasLive := AnalysedFunction.live_before edge undefined isLive
      obtain ⟨loop, unsaved⟩ :=
        inv.unsaved wasLive (inv.notIntact inLeft wasParked wasLive)
      have outside : loop < left := (unsaved.outermost inLeft).mp wasParked
      refine ⟨undefined, loop, unsaved,
        contains_next_of_not_leaves unsaved.inLoop fun leaves => ?_⟩
      obtain ⟨first, isFirst, notAfter⟩ :=
        AnalysedFunction.leftLoop_le leaves unsaved.added
      rw [isLeft] at isFirst
      cases isFirst
      exact Nat.not_lt_of_le notAfter outside

/-- A register stays unsaved on an edge that stays in the loop. -/
theorem unsaved_move
    (unsaved :
      LeftUnsaved fn.toLoopFunction state.parked loop state.node reg)
    (edge : action.next ∈ fn.succs state.node)
    (undefined : fn.defs state.node reg = false)
    (stays : fn.contains loop action.next = true)
    (notIntact :
      (state.move fn.toLoopFunction action).intact reg = false) :
    LeftUnsaved fn.toLoopFunction
      (state.move fn.toLoopFunction action).parked loop action.next reg := by
  obtain ⟨yield_, kind, yields, unused, classified, noPop, path⟩ :=
    unsaved.origin
  refine ⟨stays, ?_, yield_, kind, yields, unused, classified, noPop,
    path.tail ⟨edge, undefined⟩⟩
  intro other inOther
  cases entered : fn.enters other state.node action.next with
  | true =>
      rw [move_parked_of_enters entered, notIntact]
      have inner : loop < other :=
        AnalysedFunction.lt_of_contains_of_not stays inOther unsaved.inLoop
          (enters_iff.mp entered).1
      exact iff_of_true rfl inner
  | false =>
      rw [move_parked_of_not entered, execute_parked,
        and_iff_right undefined]
      exact unsaved.outermost (contains_of_not_enters inOther entered)

/-- A live register without its value behind an edge is left unsaved. -/
theorem Inv.unsavedMoved (inv : state.Inv fn)
    (edge : action.next ∈ fn.succs state.node)
    (stored : state.Stored fn.toLoopFunction action)
    (isLive : fn.live action.next reg = true)
    (notIntact :
      (state.move fn.toLoopFunction action).intact reg = false) :
    ∃ loop, LeftUnsaved fn.toLoopFunction
      (state.move fn.toLoopFunction action).parked loop action.next reg := by
  obtain ⟨undefined, loop, unsaved, stays⟩ :=
    inv.unsavedBehind edge stored isLive notIntact
  exact ⟨loop, unsaved_move unsaved edge undefined stays notIntact⟩

/-- A set that is fresh after an instruction has the value. -/
theorem Inv.executedSlots (inv : state.Inv fn)
    (kept : state.Kept fn.toLoopFunction action)
    (inLoop : fn.contains loop state.node = true)
    (inSets : fn.inSets loop reg = true)
    (isFresh :
      (state.execute fn.toLoopFunction action).fresh loop reg = true) :
    (state.execute fn.toLoopFunction action).slots loop reg =
      (state.execute fn.toLoopFunction action).prog reg := by
  obtain ⟨undefined, wasFresh⟩ := execute_fresh.mp isFresh
  calc
    action.slots loop reg = state.slots loop reg :=
        kept loop reg inLoop inSets
    _ = state.prog reg := inv.slots inLoop inSets wasFresh
    _ = (state.execute fn.toLoopFunction action).prog reg :=
        (execute_prog_of_not undefined).symm

/-- A register that is intact after an instruction has its value. -/
theorem Inv.executedValues (inv : state.Inv fn)
    (computes : action.instrumented = action.result)
    (isIntact :
      (state.execute fn.toLoopFunction action).intact reg = true) :
    (state.execute fn.toLoopFunction action).regs reg =
      (state.execute fn.toLoopFunction action).prog reg := by
  cases defines : fn.defs state.node reg with
  | true =>
      calc
        (state.execute fn.toLoopFunction action).regs reg =
            action.instrumented reg := if_pos defines
        _ = action.result reg := by rw [computes]
        _ = (state.execute fn.toLoopFunction action).prog reg :=
            (if_pos defines).symm
  | false =>
      have wasIntact : state.intact reg = true := by
        rw [← Bool.not_eq_false]
        intro notIntact
        rw [execute_intact_eq_false.mpr ⟨defines, notIntact⟩] at isIntact
        cases isIntact
      rw [execute_regs_of_not defines, execute_prog_of_not defines]
      exact inv.values wasIntact

/-- A register that is intact behind an edge has its value. -/
theorem Inv.movedValues (inv : state.Inv fn)
    (kept : state.Kept fn.toLoopFunction action)
    (computes : action.instrumented = action.result)
    (isIntact : (state.move fn.toLoopFunction action).intact reg = true) :
    (state.move fn.toLoopFunction action).regs reg =
      (state.move fn.toLoopFunction action).prog reg := by
  cases isLeft : fn.leftLoop state.node action.next reg with
  | none =>
      have wasIntact :
          (state.execute fn.toLoopFunction action).intact reg = true :=
        (popAtExit_of_not isLeft).symm.trans isIntact
      exact (popAtExit_of_not isLeft).trans
        (inv.executedValues computes wasIntact)
  | some left =>
      have isFresh :
          (state.execute fn.toLoopFunction action).fresh left reg = true :=
        (popAtExit_of_left isLeft).symm.trans isIntact
      obtain ⟨leaves, added⟩ := leftLoop_eq_some isLeft
      exact (popAtExit_of_left isLeft).trans
        (inv.executedSlots kept (leaves_iff.mp leaves).1
          (inSets_iff.mpr (.inl added)) isFresh)

/-- A set that is fresh behind an edge has the value. -/
theorem Inv.movedSlots (inv : state.Inv fn)
    (kept : state.Kept fn.toLoopFunction action)
    (computes : action.instrumented = action.result)
    (inLoop : fn.contains loop action.next = true)
    (inSets : fn.inSets loop reg = true)
    (isFresh :
      (state.move fn.toLoopFunction action).fresh loop reg = true) :
    (state.move fn.toLoopFunction action).slots loop reg =
      (state.move fn.toLoopFunction action).prog reg := by
  cases entered : fn.enters loop state.node action.next with
  | true =>
      have isIntact : (state.move fn.toLoopFunction action).intact reg =
          true :=
        (pushAtEntry_of_enters entered inSets).symm.trans isFresh
      exact (pushAtEntry_of_enters entered inSets).trans
        (inv.movedValues kept computes isIntact)
  | false =>
      have wasFresh :
          (state.execute fn.toLoopFunction action).fresh loop reg = true :=
        (pushAtEntry_of_not entered).symm.trans isFresh
      exact (pushAtEntry_of_not entered).trans
        (inv.executedSlots kept (contains_of_not_enters inLoop entered)
          inSets wasFresh)

/-- A parked register that is live has not its value behind an edge. -/
theorem Inv.movedNotIntact (inv : state.Inv fn)
    (edge : action.next ∈ fn.succs state.node)
    (inLoop : fn.contains loop action.next = true)
    (isParked :
      (state.move fn.toLoopFunction action).parked loop reg = true)
    (isLive : fn.live action.next reg = true) :
    (state.move fn.toLoopFunction action).intact reg = false := by
  cases entered : fn.enters loop state.node action.next with
  | true =>
      rw [move_parked_of_enters entered, Bool.not_eq_true'] at isParked
      exact isParked
  | false =>
      rw [move_parked_of_not entered] at isParked
      obtain ⟨undefined, wasParked⟩ := execute_parked.mp isParked
      have wasIn := contains_of_not_enters inLoop entered
      have wasLive := AnalysedFunction.live_before edge undefined isLive
      have wasNot := inv.notIntact wasIn wasParked wasLive
      cases isLeft : fn.leftLoop state.node action.next reg with
      | none =>
          exact (popAtExit_of_not isLeft).trans
            (execute_intact_eq_false.mpr ⟨undefined, wasNot⟩)
      | some left =>
          -- The loop that is left was entered later, so it is parked there.
          obtain ⟨leaves, added⟩ := leftLoop_eq_some isLeft
          obtain ⟨inLeft, notIn⟩ := leaves_iff.mp leaves
          obtain ⟨_, unsaved⟩ := inv.unsaved wasLive wasNot
          have inner : loop < left :=
            AnalysedFunction.lt_of_contains_of_not wasIn inLeft inLoop notIn
          have parkedLeft : state.parked left reg = true :=
            (unsaved.outermost inLeft).mpr
              (Nat.lt_trans ((unsaved.outermost wasIn).mp wasParked) inner)
          have notFresh := inv.notFresh inLeft
            (inSets_iff.mpr (.inl added)) parkedLeft wasLive
          refine (popAtExit_of_left isLeft).trans ?_
          rw [← Bool.not_eq_true, execute_fresh, notFresh]
          exact fun isFresh => Bool.noConfusion isFresh.2

/-- A parked register that is live is not fresh behind an edge. -/
theorem Inv.movedNotFresh (inv : state.Inv fn)
    (edge : action.next ∈ fn.succs state.node)
    (inLoop : fn.contains loop action.next = true)
    (inSets : fn.inSets loop reg = true)
    (isParked :
      (state.move fn.toLoopFunction action).parked loop reg = true)
    (isLive : fn.live action.next reg = true) :
    (state.move fn.toLoopFunction action).fresh loop reg = false := by
  cases entered : fn.enters loop state.node action.next with
  | true =>
      exact (pushAtEntry_of_enters entered inSets).trans
        (inv.movedNotIntact edge inLoop isParked isLive)
  | false =>
      rw [move_parked_of_not entered] at isParked
      obtain ⟨undefined, wasParked⟩ := execute_parked.mp isParked
      have notFresh := inv.notFresh (contains_of_not_enters inLoop entered)
        inSets wasParked
        (AnalysedFunction.live_before edge undefined isLive)
      refine (pushAtEntry_of_not entered).trans ?_
      rw [← Bool.not_eq_true, execute_fresh, notFresh]
      exact fun isFresh => Bool.noConfusion isFresh.2

/-- An evacuated register is in the set or parked behind an edge. -/
theorem Inv.movedEvac (inv : state.Inv fn)
    (inLoop : fn.contains loop action.next = true)
    (isEvac : fn.regsToEvac loop reg = true) :
    (state.move fn.toLoopFunction action).fresh loop reg = true ∨
      (state.move fn.toLoopFunction action).parked loop reg = true := by
  cases entered : fn.enters loop state.node action.next with
  | true =>
      have stores :
          (state.move fn.toLoopFunction action).fresh loop reg =
            (state.move fn.toLoopFunction action).intact reg :=
        pushAtEntry_of_enters entered (inSets_iff.mpr (.inl (.inl isEvac)))
      rw [stores, move_parked_of_enters entered]
      cases (state.move fn.toLoopFunction action).intact reg with
      | true => exact .inl rfl
      | false => exact .inr rfl
  | false =>
      have wasIn := contains_of_not_enters inLoop entered
      have undefined :=
        AnalysedFunction.defs_eq_false_of_added (.inl isEvac) wasIn
      rcases inv.evac wasIn isEvac with isFresh | isParked
      · exact .inl ((pushAtEntry_of_not entered).trans
          (execute_fresh.mpr ⟨undefined, isFresh⟩))
      · refine .inr ((move_parked_of_not entered).trans ?_)
        exact execute_parked.mpr ⟨undefined, isParked⟩

/-- A set that yields load from has the value behind an edge. -/
theorem Inv.movedAsymPop (inv : state.Inv fn)
    (edge : action.next ∈ fn.succs state.node)
    (stored : state.Stored fn.toLoopFunction action)
    (inLoop : fn.contains loop action.next = true)
    (asymPop : fn.regsToAsymPop loop reg = true) :
    (state.move fn.toLoopFunction action).fresh loop reg = true := by
  cases entered : fn.enters loop state.node action.next with
  | true =>
      refine (pushAtEntry_of_enters entered
        (inSets_iff.mpr (.inr asymPop))).trans ?_
      rw [← Bool.not_eq_false]
      intro notIntact
      obtain ⟨use_, _, isUse, path⟩ :=
        AnalysedFunction.exists_clear_use asymPop inLoop
      have isLive := AnalysedFunction.live_of_clear isUse path
      obtain ⟨_, unsaved⟩ := inv.unsavedMoved edge stored isLive notIntact
      rw [unsaved.not_asymPop inLoop] at asymPop
      cases asymPop
  | false =>
      have wasIn := contains_of_not_enters inLoop entered
      exact (pushAtEntry_of_not entered).trans (execute_fresh.mpr
        ⟨AnalysedFunction.defs_eq_false_of_added (.inr asymPop) wasIn,
          inv.asymPop wasIn asymPop⟩)

/-- An instruction and the edge behind it keep what holds. -/
theorem Inv.move (inv : state.Inv fn)
    (edge : action.next ∈ fn.succs state.node)
    (computes : action.instrumented = action.result)
    (stored : state.Stored fn.toLoopFunction action)
    (kept : state.Kept fn.toLoopFunction action) :
    (state.move fn.toLoopFunction action).Inv fn where
  values := inv.movedValues kept computes
  slots := inv.movedSlots kept computes
  unsaved := inv.unsavedMoved edge stored
  notIntact := inv.movedNotIntact edge
  notFresh := inv.movedNotFresh edge
  evac := inv.movedEvac
  asymPop := inv.movedAsymPop edge stored

/-- Behind an exit the live registers have their values. -/
theorem Inv.exitsSame (inv : state.Inv fn)
    (edge : action.next ∈ fn.succs state.node)
    (computes : action.instrumented = action.result)
    (stored : state.Stored fn.toLoopFunction action)
    (kept : state.Kept fn.toLoopFunction action)
    (leaves : fn.leaves loop state.node action.next = true)
    (isLive : fn.live action.next reg = true)
    (notParked :
      (state.execute fn.toLoopFunction action).parked loop reg = false) :
    (state.move fn.toLoopFunction action).regs reg =
      (state.move fn.toLoopFunction action).prog reg := by
  apply inv.movedValues kept computes
  rw [← Bool.not_eq_false]
  intro notIntact
  obtain ⟨undefined, around, unsaved, stays⟩ :=
    inv.unsavedBehind edge stored isLive notIntact
  obtain ⟨inLoop, notIn⟩ := leaves_iff.mp leaves
  have outside : around < loop :=
    AnalysedFunction.lt_of_contains_of_not unsaved.inLoop inLoop stays notIn
  have isParked :
      (state.execute fn.toLoopFunction action).parked loop reg = true :=
    execute_parked.mpr ⟨undefined, (unsaved.outermost inLoop).mpr outside⟩
  rw [isParked] at notParked
  cases notParked

end Move

/-- A step keeps what holds, and its reads and exits are the same. -/
theorem Inv.step {before after : LoopState Value}
    {action : LoopAction Value} (inv : before.Inv fn)
    (disciplined : before.Disciplined fn.toLoopFunction action)
    (taken : Step fn.toLoopFunction before action after) :
    after.Inv fn ∧ before.ReadsSame fn.toLoopFunction action ∧
      before.ExitsSame fn.toLoopFunction action := by
  have atYield := inv.atYield action.found
  have readsSame : before.ReadsSame fn.toLoopFunction action := by
    intro reg isUse
    rw [← atYield_node] at isUse
    exact (atYield.readsSame isUse).trans (congrFun atYield_prog reg)
  have computes := taken.computes readsSame
  have edge := taken.edge
  rw [← atYield_node] at edge
  rw [taken.isAfter]
  refine ⟨atYield.move edge computes disciplined.stored disciplined.kept,
    readsSame, ?_⟩
  intro loop reg leaves isLive notParked
  rw [← atYield_node] at leaves
  exact atYield.exitsSame edge computes disciplined.stored
    disciplined.kept leaves isLive notParked

end LoopState

end Msh
