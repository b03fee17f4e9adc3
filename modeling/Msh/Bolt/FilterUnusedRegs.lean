import Msh.Bolt.DefaultInstrumenter
import Msh.Library.LockStep

namespace Msh

open X86 Relation LockStep

/-!
# Filtering unused registers

The scanner collects the registers that the instructions of a function use
and takes all others out of the save sets of the function's yields.  A
register that is taken out may have any value after a yield, so that nothing
in the function may touch it from there on.
-/

/-- The narrower parts of a general register. -/
inductive GprPart where
  | dword | word | byte | highByte
  deriving DecidableEq, Repr

/-- The registers that operands name: whole ones and those inside them. -/
inductive RegName where
  | whole (reg : Reg)
  | part (gpr : Gpr) (size : GprPart)
  | ymm (index : Fin 16)
  deriving DecidableEq, Repr

/-- The register that a name is an alias of. -/
def RegName.aliasOf : RegName → Reg
  | .whole reg => reg
  | .part gpr _ => .gpr gpr
  | .ymm index => .xmm index

/--
`getAliasSized(reg, 8)` for the aliases in `getGPRegs`, which are those of all
general registers but the stack pointer.
-/
def RegName.normalise : RegName → RegName
  | .part gpr size =>
      if gpr = .rsp then .part gpr size else .whole (.gpr gpr)
  | name => name

/-- What the scanners read of an instruction. -/
structure MCInst where
  /-- The register operands, which are read, written or both. -/
  operands : List RegName
  implicitUses : List RegName
  implicitDefs : List RegName
  /-- The parameters that a call's callees read; a call does not name them. -/
  callParams : List RegName
  mark : CMInst

/-- A function: its instructions, its flow graph and its live registers. -/
structure BinaryFunction where
  insts : List MCInst
  succs : Nat → List Nat
  /-- The registers that are live before an instruction. -/
  live : Nat → Reg → Bool

namespace MCInst

/-- `FilterUnusedRegScanner::annotateInst`, adding to `UsedRegs`. -/
def annotateUsed (usedRegs : RegName → Bool) (inst : MCInst) :
    RegName → Bool :=
  fun name =>
    usedRegs name || (inst.operands.map RegName.normalise).contains name ||
      inst.implicitUses.contains name

/-- An instruction reads or writes some part of a register. -/
def Touches (inst : MCInst) (reg : Reg) : Prop :=
  ∃ name, name.aliasOf = reg ∧
    (name ∈ inst.operands ∨ name ∈ inst.implicitUses ∨
      name ∈ inst.implicitDefs ∨ name ∈ inst.callParams)

/-- What the scanner takes for a use of a register. -/
inductive Names (inst : MCInst) (reg : Reg) : Prop where
  | operand :
      .whole reg ∈ inst.operands → Names inst reg
  | gprPart {gpr : Gpr} {size : GprPart} :
      .part gpr size ∈ inst.operands → reg = .gpr gpr → Names inst reg
  | implicitUse :
      .whole reg ∈ inst.implicitUses → Names inst reg

/-- What the scanner does not see. -/
inductive Misses (inst : MCInst) (reg : Reg) : Prop where
  | implicitDef {name : RegName} :
      name ∈ inst.implicitDefs → name.aliasOf = reg → Misses inst reg
  | implicitUseOfPart {name : RegName} :
      name ∈ inst.implicitUses → name.aliasOf = reg →
      name ≠ .whole reg → Misses inst reg
  | vectorOperand {index : Fin 16} :
      .ymm index ∈ inst.operands → reg = .xmm index → Misses inst reg
  | callParam {name : RegName} :
      name ∈ inst.callParams → name.aliasOf = reg → Misses inst reg

end MCInst

namespace BinaryFunction

/-- `UsedRegs` after the whole function has been scanned. -/
def usedRegs (fn : BinaryFunction) : RegName → Bool :=
  fn.insts.foldl MCInst.annotateUsed fun _ => false

/-- The save set of an instruction in `IM`, if it is a yield point. -/
def instMap (fn : BinaryFunction) (node : Nat) : Option AliveRegs :=
  fn.insts[node]?.bind fun inst => inst.mark.annotateInst (fn.live node)

/-- The save sets after `FilterUnusedRegScanner::updateState`. -/
def filteredMap (fn : BinaryFunction) (node : Nat) : Option (Reg → Bool) :=
  (fn.instMap node).map fun regsToSave reg =>
    regsToSave.test reg && fn.usedRegs (.whole reg)

/-- The function's `FilteredRegs` after `updateState`. -/
def filteredRegs (fn : BinaryFunction) (reg : Reg) : Bool :=
  (List.range fn.insts.length).any fun node =>
    match fn.instMap node with
    | some regsToSave =>
        regsToSave.test reg && !fn.usedRegs (.whole reg)
    | none => false

/-- A register that the scanner takes out of the save set of a yield. -/
def Removed (fn : BinaryFunction) (node : Nat) (reg : Reg) : Prop :=
  ∃ regsToSave filtered,
    fn.instMap node = some regsToSave ∧ fn.filteredMap node = some filtered ∧
      regsToSave.test reg = true ∧ filtered reg = false

/-- Control goes from one instruction to the next. -/
def Edge (fn : BinaryFunction) (node after : Nat) : Prop :=
  after ∈ fn.succs node

/-- The instruction at a node touches a register. -/
def TouchesAt (fn : BinaryFunction) (node : Nat) (reg : Reg) : Prop :=
  ∃ inst, fn.insts[node]? = some inst ∧ inst.Touches reg

/--
Filtering is sound: a removed register is not touched on any path from its
yield; and with the removed registers clobbered at every yield, each
instruction finds the values of a run of the original function.
-/
structure FilteringSound (fn : BinaryFunction) : Prop where
  untouched :
    ∀ node reg, fn.Removed node reg →
      ∀ after, ReflTransGen fn.Edge node after → ¬ fn.TouchesAt after reg
  sameValues :
    ∀ {Value : Type}
      (semantics : Semantics Nat Reg Value fn.Edge fn.TouchesAt)
      {start node : Nat} {regs reached found : Reg → Value}
      {visited : List Nat},
      semantics.Run fn.Removed start regs visited node reached →
      (∀ reg, ¬ fn.Removed node reg → found reg = reached reg) →
        ∃ plain, semantics.PlainRun start regs visited node plain ∧
          ∀ reg, fn.TouchesAt node reg → found reg = plain reg

/--
Of a register that is live at a yield and that no instruction names, nothing
that the scanner does not see touches it on a path from the yield.
-/
def NothingMissed (fn : BinaryFunction) : Prop :=
  ∀ node inst, fn.insts[node]? = some inst →
    (inst.mark.prefetchTarget || inst.mark.yieldTarget) = true →
    ∀ reg, fn.live node reg = true → validReg reg = true →
      (∀ other ∈ fn.insts, ¬ other.Names reg) →
      ∀ after, ReflTransGen fn.Edge node after →
        ∀ other, fn.insts[after]? = some other → ¬ other.Misses reg

end BinaryFunction

/-- The operands that are normalised to a register to save. -/
theorem RegName.normalise_eq_whole_iff
    {name : RegName} {reg : Reg} (valid : validReg reg = true) :
    name.normalise = .whole reg ↔
      name = .whole reg ∨
        ∃ gpr size, name = .part gpr size ∧ reg = .gpr gpr := by
  cases name with
  | whole other =>
      simp [normalise]
  | ymm index =>
      simp [normalise]
  | part gpr size =>
      by_cases isSp : gpr = .rsp
      · subst isSp
        constructor
        · intro equal
          cases equal
        · rintro (equal | ⟨other, _, equal, isReg⟩)
          · cases equal
          · cases equal
            subst isReg
            cases valid
      · simp [normalise, isSp, eq_comm]

namespace MCInst

/-- What an instruction adds to the used registers. -/
theorem annotateUsed_iff (usedRegs : RegName → Bool) (inst : MCInst)
    {reg : Reg} (valid : validReg reg = true) :
    inst.annotateUsed usedRegs (.whole reg) = true ↔
      usedRegs (.whole reg) = true ∨ inst.Names reg := by
  have named :
      inst.Names reg ↔
        RegName.whole reg ∈ inst.operands.map RegName.normalise ∨
          RegName.whole reg ∈ inst.implicitUses := by
    constructor
    · intro names
      cases names with
      | operand isOperand =>
          exact .inl (List.mem_map.mpr ⟨_, isOperand, rfl⟩)
      | gprPart isOperand isGpr =>
          refine .inl (List.mem_map.mpr ⟨_, isOperand, ?_⟩)
          exact (RegName.normalise_eq_whole_iff valid).mpr
            (.inr ⟨_, _, rfl, isGpr⟩)
      | implicitUse isUse =>
          exact .inr isUse
    · rintro (isOperand | isUse)
      · obtain ⟨name, inOperands, normalised⟩ := List.mem_map.mp isOperand
        rcases (RegName.normalise_eq_whole_iff valid).mp normalised with
          isWhole | ⟨gpr, size, isPart, isGpr⟩
        · exact .operand (isWhole ▸ inOperands)
        · exact .gprPart (isPart ▸ inOperands) isGpr
      · exact .implicitUse isUse
  unfold annotateUsed
  rw [named, Bool.or_eq_true_iff, Bool.or_eq_true_iff,
    List.contains_iff_mem, List.contains_iff_mem, or_assoc]

/-- What touches a register is named by the scanner or missed by it. -/
theorem touches_iff (inst : MCInst) {reg : Reg}
    (unnamed : ¬ inst.Names reg) :
    inst.Touches reg ↔ inst.Misses reg := by
  constructor
  · rintro ⟨name, isAlias, isOperand | isUse | isDef | isParam⟩
    · cases name with
      | whole other =>
          exact absurd (.operand (isAlias ▸ isOperand)) unnamed
      | part gpr size =>
          exact absurd (.gprPart isOperand isAlias.symm) unnamed
      | ymm index =>
          exact .vectorOperand isOperand isAlias.symm
    · refine .implicitUseOfPart isUse isAlias ?_
      intro isWhole
      exact unnamed (.implicitUse (isWhole ▸ isUse))
    · exact .implicitDef isDef isAlias
    · exact .callParam isParam isAlias
  · intro misses
    cases misses with
    | implicitDef isDef isAlias =>
        exact ⟨_, isAlias, .inr (.inr (.inl isDef))⟩
    | implicitUseOfPart isUse isAlias _ =>
        exact ⟨_, isAlias, .inr (.inl isUse)⟩
    | @vectorOperand index isOperand isXmm =>
        exact ⟨.ymm index, isXmm.symm, .inl isOperand⟩
    | callParam isParam isAlias =>
        exact ⟨_, isAlias, .inr (.inr (.inr isParam))⟩

end MCInst

namespace BinaryFunction

/-- A register is used when some instruction names it. -/
theorem usedRegs_iff (fn : BinaryFunction)
    {reg : Reg} (valid : validReg reg = true) :
    fn.usedRegs (.whole reg) = true ↔ ∃ inst ∈ fn.insts, inst.Names reg := by
  have scanned : ∀ (insts : List MCInst) (used : RegName → Bool),
      insts.foldl MCInst.annotateUsed used (.whole reg) = true ↔
        used (.whole reg) = true ∨ ∃ inst ∈ insts, inst.Names reg := by
    intro insts
    induction insts with
    | nil =>
        intro used
        simp
    | cons inst rest inductionHypothesis =>
        intro used
        rw [List.foldl_cons, inductionHypothesis,
          inst.annotateUsed_iff used valid, List.exists_mem_cons_iff,
          or_assoc]
  rw [usedRegs, scanned]
  simp

/-- The save set that the initial scanner takes down. -/
theorem instMap_eq_some_iff (fn : BinaryFunction) (node : Nat)
    (regsToSave : AliveRegs) :
    fn.instMap node = some regsToSave ↔
      (∃ inst, fn.insts[node]? = some inst ∧
        (inst.mark.prefetchTarget || inst.mark.yieldTarget) = true) ∧
        regsToSave = .filterValidRegsInPnY (fn.live node) := by
  unfold instMap
  rw [Option.bind_eq_some_iff]
  constructor
  · rintro ⟨inst, isInst, annotated⟩
    unfold CMInst.annotateInst at annotated
    split at annotated
    · cases annotated
    · rename_i notUnmarked
      refine ⟨⟨inst, isInst, ?_⟩, (Option.some.inj annotated).symm⟩
      simpa [Bool.not_eq_true, or_iff_not_imp_left] using notUnmarked
  · rintro ⟨⟨inst, isInst, marked⟩, isFiltered⟩
    refine ⟨inst, isInst, ?_⟩
    have notUnmarked :
        (!inst.mark.prefetchTarget && !inst.mark.yieldTarget) = false := by
      rw [← Bool.not_or, marked]
      rfl
    unfold CMInst.annotateInst
    rw [notUnmarked, isFiltered]
    rfl

/-- The registers that are removed at a yield. -/
theorem removed_iff (fn : BinaryFunction) (node : Nat) (reg : Reg) :
    fn.Removed node reg ↔
      validReg reg = true ∧ fn.live node reg = true ∧
        (∃ inst, fn.insts[node]? = some inst ∧
          (inst.mark.prefetchTarget || inst.mark.yieldTarget) = true) ∧
        ∀ inst ∈ fn.insts, ¬ inst.Names reg := by
  have unused (valid : validReg reg = true) :
      fn.usedRegs (.whole reg) = false ↔
        ∀ inst ∈ fn.insts, ¬ inst.Names reg := by
    rw [← Bool.not_eq_true, fn.usedRegs_iff valid]
    simp
  constructor
  · rintro ⟨regsToSave, filtered, inMap, inFiltered, alive, dropped⟩
    have isFiltered := inFiltered
    unfold filteredMap at isFiltered
    rw [inMap, Option.map_some] at isFiltered
    have valid := regsToSave.valid reg alive
    obtain ⟨marked, isLive⟩ := (fn.instMap_eq_some_iff node _).mp inMap
    subst isLive
    have live := (Bool.and_eq_true_iff.mp alive).1
    refine ⟨valid, live, marked, (unused valid).mp ?_⟩
    rw [← Option.some.inj isFiltered] at dropped
    exact (Bool.and_eq_false_iff.mp dropped).resolve_left
      (by rw [alive]; exact Bool.noConfusion)
  · rintro ⟨valid, live, marked, unnamed⟩
    have inMap :=
      (fn.instMap_eq_some_iff node (.filterValidRegsInPnY (fn.live node))).mpr
        ⟨marked, rfl⟩
    have alive :
        (AliveRegs.filterValidRegsInPnY (fn.live node)).test reg = true :=
      Bool.and_eq_true_iff.mpr ⟨live, valid⟩
    have inFiltered :
        fn.filteredMap node =
          some fun reg =>
            (AliveRegs.filterValidRegsInPnY (fn.live node)).test reg &&
              fn.usedRegs (.whole reg) := by
      unfold filteredMap
      rw [inMap]
      rfl
    refine ⟨_, _, inMap, inFiltered, alive, ?_⟩
    exact Bool.and_eq_false_iff.mpr (.inr ((unused valid).mpr unnamed))

/--
The scanner is sound for a function exactly when it misses nothing that
touches a register on a path from a yield at which the register is live.
-/
theorem filteringSound_iff (fn : BinaryFunction) :
    fn.FilteringSound ↔ fn.NothingMissed := by
  have untouched_iff :
      (∀ node reg, fn.Removed node reg →
        ∀ after, ReflTransGen fn.Edge node after →
          ¬ fn.TouchesAt after reg) ↔ fn.NothingMissed := by
    constructor
    · intro untouched node inst isInst marked reg isLive valid unnamed
        after path other isOther misses
      have removed : fn.Removed node reg :=
        (fn.removed_iff node reg).mpr
          ⟨valid, isLive, ⟨inst, isInst, marked⟩, unnamed⟩
      apply untouched node reg removed after path
      refine ⟨other, isOther, (other.touches_iff ?_).mpr misses⟩
      exact unnamed other (List.mem_of_getElem? isOther)
    · intro nothingMissed node reg removed after path touched
      obtain ⟨valid, isLive, ⟨inst, isInst, marked⟩, unnamed⟩ :=
        (fn.removed_iff node reg).mp removed
      obtain ⟨other, isOther, touches⟩ := touched
      apply nothingMissed node inst isInst marked reg isLive valid unnamed
        after path other isOther
      exact (other.touches_iff
        (unnamed other (List.mem_of_getElem? isOther))).mp touches
  constructor
  · intro sound
    exact untouched_iff.mp sound.untouched
  · intro nothingMissed
    have untouched := untouched_iff.mpr nothingMissed
    refine ⟨untouched, ?_⟩
    intro Value semantics start node regs reached found visited run kept
    exact run.same untouched kept

/-- A function that loads, yielding before, and passes `rsi` on to a call. -/
def passesThrough : BinaryFunction where
  insts :=
    [{ operands := [.whole (.gpr .rax), .whole (.gpr .rdi)]
       implicitUses := [], implicitDefs := [], callParams := []
       mark := markedLoad },
      { operands := []
        implicitUses := [.whole (.gpr .rsp)]
        implicitDefs := [.whole (.gpr .rsp)]
        callParams := [.whole (.gpr .rdi), .whole (.gpr .rsi)]
        mark := { markedLoad with insertYield := false } },
      { operands := []
        implicitUses := [.whole (.gpr .rsp)]
        implicitDefs := [.whole (.gpr .rsp)]
        callParams := []
        mark := { markedLoad with insertYield := false } }]
  succs node := if node < 2 then [node + 1] else []
  live node reg :=
    decide (node < 2 ∧ (reg = .gpr .rdi ∨ reg = .gpr .rsi))

/-- The parameter that is only passed on is not saved at the yield. -/
theorem passesThrough_unsound :
    passesThrough.Removed 0 (.gpr .rsi) ∧ ¬ passesThrough.FilteringSound := by
  have removed : passesThrough.Removed 0 (.gpr .rsi) := by
    refine ⟨_, _, rfl, rfl, ?_, ?_⟩
    · decide
    · decide
  refine ⟨removed, fun sound => ?_⟩
  have path : ReflTransGen passesThrough.Edge 0 1 :=
    .single (List.mem_singleton.mpr rfl)
  apply sound.untouched 0 (.gpr .rsi) removed 1 path
  exact ⟨_, rfl, .whole (.gpr .rsi), rfl, by decide⟩

end BinaryFunction

end Msh
