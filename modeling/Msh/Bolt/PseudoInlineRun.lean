import Msh.Bolt.PseudoInlineScan

/-!
# Instrumenting around redirected calls

Around a marked call the pass pushes and pops every register that it takes
from its callee's filtered set.  A vector register is pushed like the general
register that has its number, which saves that one instead.  Instrumenting a
function depends on the copies that it calls, and on no other function, so
that it does not matter in which order the functions come.
-/

namespace Msh.PseudoInline

open X86 ByteMemory Function

/-- The filtered registers are among those that the pass saves. -/
theorem Setting.filteredRegs_valid (setting : Setting)
    {fn : BinaryFunction} {reg : Reg}
    (filtered : setting.filteredRegs fn reg = true) :
    validReg reg = true := by
  simp only [filteredRegs, Msh.BinaryFunction.filteredRegs,
    Bool.and_eq_true, List.any_eq_true] at filtered
  obtain ⟨-, node, -, removed⟩ := filtered
  split at removed
  · next regsToSave _ =>
      rw [Bool.and_eq_true] at removed
      exact regsToSave.valid reg removed.1
  · cases removed

/-! ## Pushing and popping -/

/-- The registers that the pass saves. -/
def validRegs : List Reg :=
  ([.rax, .rbx, .rcx, .rdx, .rsi, .rdi, .rbp, .r8, .r9, .r10, .r11, .r12,
    .r13, .r14, .r15] : List Gpr).map .gpr ++
    ([0, 1, 2, 3] : List (Fin 16)).map .xmm

theorem mem_validRegs {reg : Reg} (valid : validReg reg = true) :
    reg ∈ validRegs := by
  cases reg with
  | gpr gpr => cases gpr <;> first | decide | cases valid
  | xmm index => revert valid; revert index; decide
  | eflags => cases valid

/-- The code around a call restores a register, whatever the callee does. -/
def Placed.Restores (placed : Placed) (reg : Reg) : Prop :=
  ∀ before later : State,
    8 * placed.before.length ≤ (before.gpr .rsp).toNat →
      FrameKept before (before.run placed.before) later →
        (later.run placed.after).reg reg = before.reg reg

namespace RegisterFile

variable (registers : RegisterFile)

/-- The register that is in fact pushed for another one. -/
def pushed : Reg → Gpr
  | .gpr reg => reg
  | .xmm index => registers.encodedLike index
  | .eflags => .rsp

theorem pushed_ne_sp {reg : Reg} (valid : validReg reg = true) :
    registers.pushed reg ≠ .rsp := by
  cases reg with
  | gpr gpr => simpa [validReg, pushed] using valid
  | xmm index => exact registers.notSp index valid
  | eflags => cases valid

theorem saves_pushInstrs {regs : Reg → Bool}
    (valid : ∀ reg, regs reg = true → validReg reg = true) :
    Saves (registers.pushInstrs regs) (registers.popInstrs regs)
      (fun reg =>
        ∃ item ∈ registers.order.filter regs,
          reg = .gpr (registers.pushed item))
      (8 * (registers.pushInstrs regs).length) := by
  have isValid : ∀ item ∈ registers.order.filter regs,
      validReg item = true := fun item member =>
    valid item (List.mem_filter.mp member).2
  have saves :
      Saves
        ((registers.order.filter regs).flatMap fun item =>
          [registers.createPushRegister item])
        ((registers.order.filter regs).reverse.flatMap fun item =>
          [registers.createPopRegister item])
        (fun reg =>
          ∃ item ∈ registers.order.filter regs,
            reg = .gpr (registers.pushed item))
        ((registers.order.filter regs).map fun _ => 8).sum := by
    apply Saves.list
    · intro item member
      have notSp := registers.pushed_ne_sp (isValid item member)
      cases item with
      | gpr gpr => exact saves_push64r notSp
      | xmm index => exact saves_push64r notSp
      | eflags => cases isValid _ member
    · intro item member isSp
      exact registers.pushed_ne_sp (isValid item member) (Reg.gpr.inj isSp)
    · intro item _
      nofun
  have room :
      ((registers.order.filter regs).map fun _ => 8).sum =
        8 * (registers.pushInstrs regs).length := by
    simp [pushInstrs, Nat.mul_comm]
  rw [room, ← List.map_eq_flatMap, ← List.map_eq_flatMap] at saves
  exact saves

/-- The values of the registers but one, which has another value. -/
def perturb (state : State) : Reg → State
  | .gpr reg => state.setGpr reg (state.gpr reg + 1)
  | .xmm index =>
      { state with xmm := update state.xmm index (state.xmm index + 1) }
  | .eflags => { state with eflags := state.eflags + 1 }

theorem perturb_reg (state : State) (reg : Reg) :
    (perturb state reg).reg reg ≠ state.reg reg := by
  cases reg with
  | gpr gpr =>
      have value : (perturb state (.gpr gpr)).gpr gpr = state.gpr gpr + 1 :=
        update_self _ _ _
      change (perturb state (.gpr gpr)).gpr gpr ≠ state.gpr gpr
      rw [value]
      bv_omega
  | xmm index =>
      have value :
          (perturb state (.xmm index)).xmm index = state.xmm index + 1 :=
        update_self _ _ _
      change (perturb state (.xmm index)).xmm index ≠ state.xmm index
      rw [value]
      bv_omega
  | eflags =>
      change state.eflags + 1 ≠ state.eflags
      bv_omega

/-- Changing a register other than the stack pointer keeps the frame. -/
theorem frameKept_perturb {before saved : State} {reg : Reg}
    (notSp : reg ≠ .gpr .rsp) :
    FrameKept before saved (perturb saved reg) := by
  cases reg with
  | gpr gpr =>
      have differ : Gpr.rsp ≠ gpr := fun isSp => notSp (isSp ▸ rfl)
      exact ⟨saved.gpr_setGpr_of_ne differ _, fun _ _ _ => rfl⟩
  | xmm index => exact ⟨rfl, fun _ _ _ => rfl⟩
  | eflags => exact ⟨rfl, fun _ _ _ => rfl⟩

/-- The pushed registers fit on the stack. -/
theorem length_pushInstrs_le {regs : Reg → Bool}
    (valid : ∀ reg, regs reg = true → validReg reg = true) :
    (registers.pushInstrs regs).length ≤ 19 := by
  have distinct := registers.distinct.filter regs
  have inside : registers.order.filter regs ⊆ validRegs := by
    intro reg member
    exact mem_validRegs (valid reg (List.mem_filter.mp member).2)
  rw [pushInstrs, List.length_map]
  exact (List.subperm_of_subset distinct inside).length_le

/-- Exactly the registers that are in fact pushed are restored. -/
theorem restores_iff {regs : Reg → Bool} (inst : MCInst)
    (valid : ∀ reg, regs reg = true → validReg reg = true) {reg : Reg}
    (isValid : validReg reg = true) :
    Placed.Restores
        ⟨registers.pushInstrs regs, inst, registers.popInstrs regs⟩ reg ↔
      ∃ item, regs item = true ∧ reg = .gpr (registers.pushed item) := by
  have saves := registers.saves_pushInstrs valid
  constructor
  · intro restores
    have fits := registers.length_pushInstrs_le valid
    have notSp : reg ≠ .gpr .rsp := by
      rintro rfl
      cases isValid
    have notFlags : reg ≠ .eflags := by
      rintro rfl
      cases isValid
    let before : State :=
      { gpr := fun _ => 4096
        xmm := fun _ => 0
        eflags := 0
        rip := 0
        gsBase := 0
        memory := fun _ => 0 }
    have room :
        8 * (registers.pushInstrs regs).length ≤
          (before.gpr .rsp).toNat := by
      have top : (before.gpr .rsp).toNat = 4096 := rfl
      omega
    by_contra notSaved
    have kept :=
      @frameKept_perturb before (before.run (registers.pushInstrs regs)) _
        notSp
    have same := restores before _ room kept
    have unchanged :=
      (saves.restores before _ room kept).others reg notSp notFlags
        fun ⟨item, member, isReg⟩ =>
          notSaved ⟨item, (List.mem_filter.mp member).2, isReg⟩
    rw [same, ← saves.keepsRegs before reg notSp notFlags] at unchanged
    exact perturb_reg _ _ unchanged.symm
  · rintro ⟨item, isSaved, isReg⟩ before later fits kept
    refine (saves.restores before later fits kept).back reg
      ⟨item, List.mem_filter.mpr ⟨?_, isSaved⟩, isReg⟩
    exact registers.complete item (valid item isSaved)

end RegisterFile

/-! ## Going over functions -/

/-- Instrumenting depends on the filtered sets of the copies called. -/
theorem Setting.instrument_congr (setting : Setting) {bin other : Binary}
    {fn : BinaryFunction}
    (same :
      ∀ inst ∈ fn.insts, inst.annotations.pseudoInline = true →
        bin.calleeOf inst = other.calleeOf inst) :
    setting.instrument bin fn = setting.instrument other fn := by
  have saved :
      ∀ node inst, fn.insts[node]? = some inst → ∀ reg,
        setting.regsToSave bin fn node inst reg =
          setting.regsToSave other fn node inst reg := by
    intro node inst isInst reg
    unfold regsToSave
    cases marked : inst.annotations.pseudoInline with
    | false => rfl
    | true => rw [same inst (List.mem_of_getElem? isInst) marked]
  have evacuated :
      ∀ node inst, fn.insts[node]? = some inst → ∀ reg,
        setting.evacuates bin fn node inst reg =
          setting.evacuates other fn node inst reg := by
    intro node inst isInst reg
    rw [evacuates, evacuates, saved node inst isInst reg]
  have taken :
      ∀ node inst, fn.insts[node]? = some inst →
        setting.regsFromPseudoInline bin fn node inst =
          setting.regsFromPseudoInline other fn node inst := by
    intro node inst isInst
    funext reg
    rw [regsFromPseudoInline, regsFromPseudoInline,
      saved node inst isInst reg, evacuated node inst isInst reg]
  have code :
      (setting.instrument bin fn).code =
        (setting.instrument other fn).code := by
    apply List.ext_getElem?
    intro node
    simp only [instrument, List.getElem?_mapIdx]
    cases isInst : fn.insts[node]? with
    | none => rfl
    | some inst =>
        simp only [Option.map_some, modifyInst, taken node inst isInst]
  have evac :
      setting.regsToEvac bin fn = setting.regsToEvac other fn := by
    funext loop reg
    unfold regsToEvac
    rw [Bool.eq_iff_iff, List.any_eq_true, List.any_eq_true]
    refine exists_congr fun ⟨inst, node⟩ => and_congr_right ?_
    intro member
    simp only
      [evacuated node inst (List.mem_zipIdx_iff_getElem?.mp member) reg]
  calc setting.instrument bin fn
      = ⟨(setting.instrument bin fn).code, setting.regsToEvac bin fn⟩ := rfl
    _ = setting.instrument other fn := by
      rw [code, evac]
      rfl

/-- Some functions of a binary have been scanned. -/
structure ScannedOn (setting : Setting) (base : Binary) (done : List Nat)
    (bin : Binary) : Prop where
  symbols : bin.getFunctionForSymbol = base.getFunctionForSymbol
  functions :
    ∀ index, bin.functions[index]? =
      base.functions[index]?.map fun fn =>
        if index ∈ done then
          { fn with filteredRegs := setting.filteredRegs fn }
        else fn

/-- Some functions of a binary have been scanned and instrumented. -/
structure RunOn (setting : Setting) (base : Binary) (done : List Nat)
    (bin : Binary) : Prop extends ScannedOn setting base done bin where
  instrumented :
    ∀ index, bin.instrumented index =
      if index ∈ done then
        base.functions[index]?.map (setting.instrument base)
      else base.instrumented index

/-- A marked call that meets the assertions, of a function outside a list. -/
structure CallsCopy (base : Binary) (order : List Nat)
    (fn : BinaryFunction) (inst : MCInst) : Prop where
  notCopy : fn.isPseudoCopy = false
  callee :
    ∃ symbol place calleeBF, inst.getTargetSymbol = some symbol ∧
      base.getFunctionForSymbol symbol = some place ∧ place ∉ order ∧
      base.functions[place]? = some calleeBF ∧
      calleeBF.isPseudoCopy = true

/-- A function whose marked calls meet the assertions. -/
def Ready (base : Binary) (order : List Nat) (index : Nat) : Prop :=
  ∃ fn, base.functions[index]? = some fn ∧
    ∀ inst ∈ fn.insts, inst.annotations.pseudoInline = true →
      CallsCopy base order fn inst

section Run

variable {setting : Setting} {base bin : Binary} {done order : List Nat}

/-- Calls to functions outside the list find them as they were. -/
theorem ScannedOn.calleeOf_eq {fn : BinaryFunction} {inst : MCInst}
    (scanned : ScannedOn setting base done bin)
    (within : ∀ index ∈ done, index ∈ order)
    (calls : CallsCopy base order fn inst) :
    bin.calleeOf inst = base.calleeOf inst := by
  obtain ⟨symbol, place, calleeBF, target, found, outside, -, -⟩ :=
    calls.callee
  have notDone : place ∉ done := fun isDone =>
    outside (within place isDone)
  simp only [Binary.calleeOf, target, Option.bind_some, scanned.symbols,
    found, scanned.functions place, notDone, ↓reduceIte, Option.map_id']

theorem CallsCopy.assertions {fn : BinaryFunction} {inst : MCInst}
    (calls : CallsCopy base order fn inst)
    (same : bin.calleeOf inst = base.calleeOf inst) :
    bin.assertions fn inst = true := by
  obtain ⟨symbol, place, calleeBF, target, found, -, isCallee, isCopy⟩ :=
    calls.callee
  have callee : base.calleeOf inst = some calleeBF := by
    simp only [Binary.calleeOf, target, found, isCallee, Option.bind_some]
  simp [Binary.assertions, same, callee, isCopy, calls.notCopy]

/-- The scan of one more function. -/
theorem ScannedOn.append {index : Nat}
    (scanned : ScannedOn setting base done bin) (fresh : index ∉ done) :
    ScannedOn setting base (done ++ [index])
      (bin.modify index fun fn =>
        { fn with filteredRegs := setting.filteredRegs fn }) where
  symbols := scanned.symbols
  functions place := by
    rw [Binary.getElem?_modify, scanned.functions place]
    by_cases here : index = place
    · subst here
      simp [fresh]
    · simp [here, Ne.symm here]

/-- The round for one more function. -/
theorem RunOn.step {index : Nat} (run : RunOn setting base done bin)
    (within : ∀ place ∈ done, place ∈ order) (member : index ∈ order)
    (fresh : index ∉ done) (ready : Ready base order index) :
    ∃ after, setting.runOnFunction bin index = some after ∧
      RunOn setting base (done ++ [index]) after := by
  obtain ⟨fn, isFn, calls⟩ := ready
  have binFn : bin.functions[index]? = some fn := by
    rw [run.functions, isFn]
    simp [fresh]
  have scanned := run.toScannedOn.append fresh
  have withinNow : ∀ place ∈ done ++ [index], place ∈ order := by
    intro place isDone
    rcases List.mem_append.mp isDone with before | isLast
    · exact within place before
    · rw [List.mem_singleton.mp isLast]
      exact member
  have sameCallee :
      ∀ inst ∈ fn.insts, inst.annotations.pseudoInline = true →
        (bin.modify index fun fn =>
            { fn with
              filteredRegs := setting.filteredRegs fn }).calleeOf inst =
          base.calleeOf inst := fun inst inFn marked =>
    scanned.calleeOf_eq withinNow (calls inst inFn marked)
  have assertions :
      fn.insts.all
          ((bin.modify index fun fn =>
            { fn with
              filteredRegs := setting.filteredRegs fn }).assertions fn) =
        true := by
    rw [List.all_eq_true]
    intro inst inFn
    cases marked : inst.annotations.pseudoInline with
    | false => simp [Binary.assertions, marked]
    | true =>
        exact (calls inst inFn marked).assertions
          (sameCallee inst inFn marked)
  unfold Setting.runOnFunction
  simp only [binFn, Option.bind_some, assertions, ↓reduceIte]
  refine ⟨_, rfl, ⟨scanned.symbols, scanned.functions⟩, ?_⟩
  intro place
  simp only [Function.update_apply, setting.instrument_congr sameCallee,
    run.instrumented place, List.mem_append, List.mem_singleton]
  by_cases here : place = index
  · subst here
    simp [isFn]
  · simp [here]

/-- Going over distinct functions in any order. -/
theorem RunOn.foldlM {rest : List Nat}
    (run : RunOn setting base done bin)
    (within : ∀ place ∈ done ++ rest, place ∈ order)
    (distinct : rest.Nodup) (fresh : ∀ place ∈ rest, place ∉ done)
    (ready : ∀ index ∈ rest, Ready base order index) :
    ∃ after, rest.foldlM setting.runOnFunction bin = some after ∧
      RunOn setting base (done ++ rest) after := by
  induction rest generalizing done bin with
  | nil =>
      exact ⟨bin, rfl, by simpa using run⟩
  | cons index rest inductionHypothesis =>
      obtain ⟨notInRest, restDistinct⟩ := List.nodup_cons.mp distinct
      obtain ⟨next, stepped, nextRun⟩ :=
        run.step
          (fun place isDone =>
            within place (List.mem_append_left _ isDone))
          (within index (List.mem_append_right _ List.mem_cons_self))
          (fresh index List.mem_cons_self)
          (ready index List.mem_cons_self)
      have nextFresh :
          ∀ place ∈ rest, place ∉ done ++ [index] := by
        intro place inRest isDone
        rcases List.mem_append.mp isDone with before | isLast
        · exact fresh place (List.mem_cons_of_mem _ inRest) before
        · rw [List.mem_singleton.mp isLast] at inRest
          exact notInRest inRest
      obtain ⟨after, folded, afterRun⟩ :=
        inductionHypothesis nextRun
          (by simpa using within) restDistinct nextFresh
          fun place inRest => ready place (List.mem_cons_of_mem _ inRest)
      rw [List.foldlM_cons, stepped]
      exact ⟨after, folded, by simpa using afterRun⟩

/-- Nothing done yet. -/
theorem runOn_nil (setting : Setting) (base : Binary) :
    RunOn setting base [] base where
  symbols := rfl
  functions index := by simp
  instrumented index := by simp

end Run

end Msh.PseudoInline
