import Msh.Bolt.Yield

namespace Msh

open X86 ByteMemory YieldPoint

/-!
# Instrumenting a yield point

What the scanner takes down at an annotated instruction, what the default
instrumenter inserts before it, and which of the live registers the inserted
code keeps.
-/

/-- What the pass sees of an instruction. -/
structure CMInst where
  /-- `hasAnnotation(Inst, "InsertPrefetchAndYield")` -/
  insertPrefetchAndYield : Bool
  /-- `hasAnnotation(Inst, "InsertYield")` -/
  insertYield : Bool
  /-- `hasAnnotation(Inst, "IterationBound")` -/
  iterationBound : Bool
  /-- `isConditionalBranch(Inst)` -/
  isConditionalBranch : Bool
  /-- The prefetch of its operand, `none` for an unsuitable instruction. -/
  createPrefetchInstrs : Option Instr
  /-- A prefetch is all that `createPrefetchInstrs` makes. -/
  prefetches :
    ∀ instr, createPrefetchInstrs = some instr →
      ∃ size, instr = .prefetcht0 size

/-- No instruction is a prefetch as well. -/
theorem CMInst.prefetches_none :
    ∀ instr : Instr, none = some instr → ∃ size, instr = .prefetcht0 size := by
  intro instr isNone
  cases isNone

/-- The options of the pass. -/
structure PassOptions where
  /-- The symbol `crt_pos` under `InstScavenger`, `none` for a primary. -/
  instScavenger : Option (BitVec 64)
  saveAllRegister : Bool
  numbering : RegNumbering

/-- What is inserted before an instruction. -/
structure Inserted where
  prefetch : List Instr
  point : YieldPoint

namespace CMInst

/-- `PrefetchTarget` -/
def prefetchTarget (inst : CMInst) : Bool :=
  inst.insertPrefetchAndYield

/-- `YieldTarget` -/
def yieldTarget (inst : CMInst) : Bool :=
  inst.insertPrefetchAndYield || inst.insertYield

/--
`InitialScanner::annotateInst`: the registers to save at an instruction, from
those that are live before it.
-/
def annotateInst (inst : CMInst) (live : Reg → Bool) : Option AliveRegs :=
  if !inst.prefetchTarget && !inst.yieldTarget then none
  else some (.filterValidRegsInPnY live)

/-- `DefaultInstrumenter::insertPrefetchAndYield` -/
def insertPrefetchAndYieldInstrs (inst : CMInst) (options : PassOptions)
    (regsToSave : AliveRegs) (isPrefetch : Bool) : Option Inserted :=
  let point : YieldPoint :=
    { numbering := options.numbering
      aliveRegs := regsToSave
      isCB := inst.isConditionalBranch
      crtPos := options.instScavenger
      retFloat := true
      isNormalYield := options.instScavenger.isNone }
  if isPrefetch then
    inst.createPrefetchInstrs.map fun prefetch => ⟨[prefetch], point⟩
  else some ⟨[], point⟩

/-- `AllGPRs | RegsToSave` -/
def withAllGprs (regsToSave : AliveRegs) : AliveRegs where
  test reg :=
    regsToSave.test reg ||
      match reg with
      | .gpr gpr => gpr != .rsp
      | _ => false
  valid reg alive := by
    rcases Bool.or_eq_true_iff.mp alive with inRegs | isGpr
    · exact regsToSave.valid reg inRegs
    · cases reg with
      | gpr gpr =>
          exact isGpr
      | _ =>
          cases isGpr

/--
`DefaultInstrumenter::modifyInst`, with the registers that the scanner took
down for the instruction.
-/
def modifyInst (inst : CMInst) (options : PassOptions)
    (instPoint : Option AliveRegs) : Option Inserted :=
  if inst.iterationBound then none
  else if !inst.prefetchTarget && !inst.yieldTarget then none
  else
    instPoint.bind fun regsToSave =>
      inst.insertPrefetchAndYieldInstrs options
        (if options.saveAllRegister then withAllGprs regsToSave
          else regsToSave)
        inst.prefetchTarget

end CMInst

namespace Inserted

/-- The inserted code up to its jump. -/
def upToJump (inserted : Inserted) : List Instr :=
  inserted.prefetch ++ inserted.point.upToJump

/-- All the inserted code. -/
def code (inserted : Inserted) : List Instr :=
  inserted.prefetch ++ inserted.point.createYieldInstrs

/-- A coroutine comes back to inserted code that it has left from a state. -/
structure Resumed (inserted : Inserted) (stackTop : Nat)
    (before later : State) : Prop where
  rip :
    later.rip =
      before.rip + BitVec.ofNat 64 (codeSize inserted.upToJump)
  sp : later.gpr .rsp = inserted.point.savedSp before
  stack :
    AgreeOn (inserted.point.savedSp before).toNat stackTop later.memory
      (before.run inserted.upToJump).memory

end Inserted

/--
Of the live registers, those of one kind have their values when the original
instruction executes, whatever the other coroutines did.
-/
def LiveSurvive (options : PassOptions) (inst : CMInst)
    (live : Reg → Bool) (kept : Reg → Prop) : Prop :=
  ∀ inserted,
    inst.modifyInst options (inst.annotateInst live) = some inserted →
      ∀ (pos stackTop : Nat) (before later : State),
        inserted.point.Hosted pos stackTop before →
        inserted.Resumed stackTop before later →
          ∀ reg, live reg = true → kept reg →
            (later.run inserted.point.pops).reg reg = before.reg reg

/-- The registers that the inserted code keeps when they are live. -/
def CMInst.keeps (inst : CMInst) : Reg → Prop
  | .gpr _ => True
  | .xmm index => index.val < 4
  | .eflags => inst.isConditionalBranch = true

/-- What is inserted at an instruction to save some registers. -/
structure CMInst.Inserts
    (inst : CMInst) (regsToSave : AliveRegs) (inserted : Inserted) :
    Prop where
  prefetch :
    inserted.prefetch = [] ∨
      ∃ size, inserted.prefetch = [.prefetcht0 size]
  retFloat : inserted.point.retFloat = true
  isCB : inserted.point.isCB = inst.isConditionalBranch
  aliveRegs : inserted.point.aliveRegs = regsToSave

theorem CMInst.inserts_of_insertPrefetchAndYield
    {inst : CMInst} {options : PassOptions} {regsToSave : AliveRegs}
    {isPrefetch : Bool} {inserted : Inserted}
    (modified :
      inst.insertPrefetchAndYieldInstrs options regsToSave isPrefetch =
        some inserted) :
    inst.Inserts regsToSave inserted := by
  unfold insertPrefetchAndYieldInstrs at modified
  cases isPrefetch with
  | true =>
      obtain ⟨instr, created, isInserted⟩ :=
        Option.map_eq_some_iff.mp modified
      obtain ⟨size, isPrefetch⟩ := inst.prefetches instr created
      subst isInserted isPrefetch
      exact ⟨.inr ⟨size, rfl⟩, rfl, rfl, rfl⟩
  | false =>
      cases modified
      exact ⟨.inl rfl, rfl, rfl, rfl⟩

/-- The inserted code saves every live register that it can save. -/
theorem CMInst.inserts_of_modifyInst
    {inst : CMInst} {options : PassOptions} {live : Reg → Bool}
    {inserted : Inserted}
    (modified :
      inst.modifyInst options (inst.annotateInst live) = some inserted) :
    ∃ regsToSave : AliveRegs, inst.Inserts regsToSave inserted ∧
      ∀ reg, live reg = true → validReg reg = true →
        regsToSave.test reg = true := by
  unfold modifyInst annotateInst at modified
  split at modified
  · cases modified
  split at modified
  · cases modified
  rw [Option.bind_some] at modified
  refine ⟨_, inserts_of_insertPrefetchAndYield modified, ?_⟩
  intro reg isLive isValid
  have filtered :
      (AliveRegs.filterValidRegsInPnY live).test reg = true :=
    Bool.and_eq_true_iff.mpr ⟨isLive, isValid⟩
  cases options.saveAllRegister with
  | true =>
      exact Bool.or_eq_true_iff.mpr (.inl filtered)
  | false =>
      exact filtered

/-- A prefetch only moves the instruction pointer. -/
theorem CMInst.Inserts.run_prefetch
    {inst : CMInst} {regsToSave : AliveRegs} {inserted : Inserted}
    (inserts : inst.Inserts regsToSave inserted) (before : State) :
    before.run inserted.prefetch =
      { before with
        rip :=
          before.rip +
            BitVec.ofNat 64 (codeSize inserted.prefetch) } := by
  rcases inserts.prefetch with isNone | ⟨size, isSome⟩
  · rw [isNone]
    show before = { before with rip := before.rip + 0#64 }
    rw [BitVec.add_zero]
  · rw [isSome]
    rfl

/-- What is kept for a coroutine by the code that is inserted for it. -/
structure Inserted.Back (inst : CMInst) (live : Reg → Bool) (stackTop : Nat)
    (before final : State) : Prop where
  sp : final.gpr .rsp = before.gpr .rsp
  regs :
    ∀ reg, live reg = true → inst.keeps reg →
      final.reg reg = before.reg reg
  ownStack :
    AgreeOn (before.gpr .rsp).toNat stackTop final.memory before.memory

theorem Inserted.Resumed.back
    {inst : CMInst} {options : PassOptions} {live : Reg → Bool}
    {inserted : Inserted} {pos stackTop : Nat} {before later : State}
    (modified :
      inst.modifyInst options (inst.annotateInst live) = some inserted)
    (hosted : inserted.point.Hosted pos stackTop before)
    (resumed : inserted.Resumed stackTop before later) :
    Inserted.Back inst live stackTop before
      (later.run inserted.point.pops) := by
  obtain ⟨regsToSave, inserts, saves⟩ :=
    CMInst.inserts_of_modifyInst modified
  rw [← inserts.aliveRegs] at saves
  have moved := inserts.run_prefetch before
  have hosted' :
      inserted.point.Hosted pos stackTop
        (before.run inserted.prefetch) := by
    rw [moved]
    exact ⟨hosted.hosted, hosted.room, hosted.inStack, hosted.contexts,
      hosted.contextsApart, hosted.crtPosApart⟩
  have size :
      codeSize inserted.upToJump =
        codeSize inserted.prefetch + codeSize inserted.point.upToJump := by
    unfold Inserted.upToJump codeSize
    rw [List.map_append, List.sum_append]
  have rip :
      later.rip =
        inserted.point.resumeAddress (before.run inserted.prefetch) := by
    rw [resumed.rip, size, BitVec.ofNat_add, ← BitVec.add_assoc, moved]
    rfl
  have sameSp :
      inserted.point.savedSp (before.run inserted.prefetch) =
        inserted.point.savedSp before := by
    rw [moved]
    rfl
  have stack := resumed.stack
  rw [Inserted.upToJump, State.run_append, ← sameSp] at stack
  have switchedBack :=
    hosted'.switchedBack inserts.retFloat rip
      (resumed.sp.trans sameSp.symm) stack
  have sameReg (reg : Reg) :
      (before.run inserted.prefetch).reg reg = before.reg reg := by
    rw [moved]
    cases reg <;> rfl
  have spBack :=
    (switchedBack.regs (.gpr .rsp) (.inr (.inr (.inr (.inl rfl))))).trans
      (sameReg (.gpr .rsp))
  refine ⟨spBack, ?_, ?_⟩
  · intro reg isLive isKept
    refine (switchedBack.regs reg ?_).trans (sameReg reg)
    cases reg with
    | gpr gpr =>
        by_cases isSp : gpr = .rsp
        · exact .inr (.inr (.inr (.inl (by rw [isSp]))))
        · exact .inl (saves _ isLive (by simpa [validReg] using isSp))
    | xmm index =>
        exact .inl (saves _ isLive (decide_eq_true isKept))
    | eflags =>
        exact .inr (.inr (.inr (.inr
          ⟨inserts.isCB.trans isKept, rfl⟩)))
  · have ownStack := switchedBack.stack
    rw [moved] at ownStack
    exact ownStack

/-- The general registers, the first vector registers, and the flags at a
conditional branch survive a yield when they are live. -/
theorem liveSurvive
    (options : PassOptions) (inst : CMInst) (live : Reg → Bool) :
    LiveSurvive options inst live inst.keeps :=
  fun _ modified _ _ _ _ hosted resumed =>
    (Inserted.Resumed.back modified hosted resumed).regs

/-- A load that was marked for a yield. -/
def markedLoad : CMInst where
  insertPrefetchAndYield := false
  insertYield := true
  iterationBound := false
  isConditionalBranch := false
  createPrefetchInstrs := none
  prefetches := CMInst.prefetches_none

/-- The options for a scavenger with its `crt_pos` at 4096. -/
def scavengerOptions : PassOptions where
  instScavenger := some 4096
  saveAllRegister := false
  numbering := targetNumbering

/-- A conditional branch that was marked for a yield. -/
def markedBranch : CMInst :=
  { markedLoad with isConditionalBranch := true }

/-- What the branch reads. -/
def liveAtBranch (reg : Reg) : Bool := decide (reg = .eflags)

/-- What is inserted before the branch. -/
def insertedAtBranch : Inserted where
  prefetch := []
  point :=
    { numbering := targetNumbering
      aliveRegs := .filterValidRegsInPnY liveAtBranch
      isCB := true
      crtPos := some 4096
      retFloat := true
      isNormalYield := false }

/-- The scavenger comes back, its registers changed. -/
def resumedAtBranch : State where
  gpr reg :=
    if reg = .rsp then insertedAtBranch.point.savedSp scavengerState else 0
  xmm _ := 0
  eflags := 0
  rip :=
    scavengerState.rip +
      BitVec.ofNat 64 (codeSize insertedAtBranch.upToJump)
  gsBase := 65536
  memory := (scavengerState.run insertedAtBranch.upToJump).memory

/-- The branch reads the flags that were set before the yield. -/
theorem liveSurvive_branch :
    (resumedAtBranch.run insertedAtBranch.point.pops).eflags =
      scavengerState.eflags := by
  have hosted :
      insertedAtBranch.point.Hosted 1 16384 scavengerState := by
    have crtPos :
        insertedAtBranch.point.readCrtPos scavengerState =
          some (20 * 1) := by
      decide
    refine ⟨?_, by decide, by decide, by decide, by decide, ?_⟩
    · rw [crtPos]
      exact .scavenger (by decide)
    · intro symbol isSymbol
      cases isSymbol
      decide
  have resumed :
      insertedAtBranch.Resumed 16384 scavengerState resumedAtBranch :=
    ⟨rfl, rfl, .refl _⟩
  exact
    liveSurvive scavengerOptions markedBranch liveAtBranch insertedAtBranch
      rfl 1 16384 scavengerState resumedAtBranch hosted resumed .eflags rfl
      rfl

/-- Live before a load between a comparison and its jump, in vector code. -/
def liveAtLoad (reg : Reg) : Bool :=
  decide (reg = .gpr .rax ∨ reg = .xmm 4 ∨ reg = .eflags)

/-- What is inserted before the load. -/
def insertedAtLoad : Inserted where
  prefetch := []
  point :=
    { numbering := targetNumbering
      aliveRegs := .filterValidRegsInPnY liveAtLoad
      isCB := false
      crtPos := some 4096
      retFloat := true
      isNormalYield := false }

/-- The scavenger comes back, the flags and the vector registers changed. -/
def clobberedState : State where
  gpr reg := if reg = .rsp then 8168 else 0
  xmm _ := 0
  eflags := 0
  rip := 1062
  gsBase := 65536
  memory := (scavengerState.run insertedAtLoad.upToJump).memory

/--
A yield before a load loses the flags that a following jump reads and a vector
register beyond the first four.
-/
theorem markedLoad_clobbers :
    ¬ LiveSurvive scavengerOptions markedLoad liveAtLoad
          (fun reg => reg = .eflags) ∧
      ¬ LiveSurvive scavengerOptions markedLoad liveAtLoad
          (fun reg => reg = .xmm 4) := by
  have hosted :
      insertedAtLoad.point.Hosted 1 16384 scavengerState := by
    have crtPos :
        insertedAtLoad.point.readCrtPos scavengerState = some (20 * 1) := by
      decide
    refine ⟨?_, by decide, by decide, by decide, by decide, ?_⟩
    · rw [crtPos]
      exact .scavenger (by decide)
    · intro symbol isSymbol
      cases isSymbol
      decide
  have resumed :
      insertedAtLoad.Resumed 16384 scavengerState clobberedState :=
    ⟨by decide, by decide, .refl _⟩
  constructor
  · intro survive
    have kept :=
      survive insertedAtLoad rfl 1 16384 scavengerState clobberedState
        hosted resumed .eflags rfl rfl
    exact absurd kept (by decide)
  · intro survive
    have kept :=
      survive insertedAtLoad rfl 1 16384 scavengerState clobberedState
        hosted resumed (.xmm 4) rfl rfl
    exact absurd kept (by decide)

end Msh
