import Msh.Library.SaveRestore
import Msh.Bolt.RegSet

namespace Msh

open X86 ByteMemory

/-!
# The yield sequence

The instructions that the pass inserts at a yield: save the live registers on
the coroutine's own stack, leave the stack pointer and the resume address in
its `yield_ctx`, jump to the coroutine that its link names, and restore the
registers when control comes back.
-/

/-- `getCrtCtxReg`, the register that holds a coroutine's offset. -/
abbrev getCrtCtxReg : Gpr := .rdi

/-- The registers that `filterValidRegsInPnY` lets through. -/
def validReg : Reg → Bool
  | .gpr reg => reg != .rsp
  | .xmm index => decide (index.val < 4)
  | .eflags => false

/--
A set of registers to save at a yield.  The source's invariant, that it has
only general registers and the first vector registers, is part of it.
-/
structure AliveRegs where
  test : Reg → Bool
  valid : ∀ reg, test reg = true → validReg reg = true

namespace AliveRegs

/-- `filterValidRegsInPnY` -/
def filterValidRegsInPnY (regs : Reg → Bool) : AliveRegs where
  test reg := regs reg && validReg reg
  valid _ alive := (Bool.and_eq_true_iff.mp alive).2

/-- Add a register to the set. -/
def set (regs : AliveRegs) (reg : Reg) (isValid : validReg reg = true) :
    AliveRegs where
  test other := regs.test other || other == reg
  valid other alive := by
    rcases Bool.or_eq_true_iff.mp alive with inRegs | isReg
    · exact regs.valid other inRegs
    · rw [beq_iff_eq.mp isReg]
      exact isValid

/-- `RegsToSave`: the live registers and the two that the switch uses. -/
def regsToSave (aliveRegs : AliveRegs) : AliveRegs :=
  (aliveRegs.set (.gpr getCrtCtxReg) rfl).set (.gpr .rcx) rfl

end AliveRegs

/-- The general registers in the order of their numbers in the target. -/
structure RegNumbering where
  order : List Gpr
  complete : ∀ reg, reg ∈ order

/-- The parameters of `createYieldInstrs`. -/
structure YieldPoint where
  numbering : RegNumbering
  aliveRegs : AliveRegs
  /-- `isConditionalBranch(CMInst)` -/
  isCB : Bool
  /-- The address of the symbol `crt_pos`; `none` in a primary. -/
  crtPos : Option (BitVec 64)
  retFloat : Bool
  isNormalYield : Bool

namespace YieldPoint

/-- `OffsetToSp` -/
abbrev offsetToSp : BitVec 64 := 0

/-- `OffsetToIp` -/
abbrev offsetToIp : BitVec 64 := 8

/-- `OffsetToNext` -/
abbrev offsetToNext : BitVec 64 := 18

/-- `OffsetToSpecialNext` -/
abbrev offsetToSpecialNext : BitVec 64 := 16

/-- The vector registers that are pushed, `XMMAliveVec`. -/
def savedXmms (point : YieldPoint) : List (Fin 16) :=
  [0, 1, 2, 3].filter fun index =>
    point.aliveRegs.regsToSave.test (.xmm index) && point.retFloat

/-- The general registers that are pushed, in the order of their numbers. -/
def savedGprs (point : YieldPoint) : List Gpr :=
  point.numbering.order.filter fun reg =>
    point.aliveRegs.regsToSave.test (.gpr reg)

/-- Make room for a vector register and store it there. -/
def pushXmm (index : Fin 16) : List Instr :=
  [.sub64ri8 .rsp 16, .movupsmr (.base false .rsp 0) index]

/-- Load a vector register and drop its room. -/
def popXmm (index : Fin 16) : List Instr :=
  [.movupsrm index (.base false .rsp 0), .add64ri8 .rsp 16]

/-- What is pushed before the switch. -/
def pushes (point : YieldPoint) : List Instr :=
  (if point.isCB then [.pushf64] else []) ++
    point.savedXmms.flatMap pushXmm ++
    point.savedGprs.map .push64r

/-- The instruction annotated `FirstCtxAccess`. -/
def firstCtxAccess (point : YieldPoint) : Instr :=
  match point.crtPos with
  | some crtPos => .mov32rm getCrtCtxReg (.symbol crtPos)
  | none => .xor64rr getCrtCtxReg getCrtCtxReg

/-- The offset of the link that a normal or a special yield follows. -/
def offsetToLink (point : YieldPoint) : BitVec 64 :=
  if point.isNormalYield then offsetToNext else offsetToSpecialNext

/-- The switch after the coroutine's offset is in place. -/
def switchTail (point : YieldPoint) : List Instr :=
  [.mov64mr (.base true getCrtCtxReg offsetToSp) .rsp,
    -- the displacement reaches over the instructions up to the jump
    .lea64r .rcx 18,
    .mov64mr (.base true getCrtCtxReg offsetToIp) .rcx,
    .mov16rm getCrtCtxReg (.base true getCrtCtxReg point.offsetToLink),
    .mov64rm .rsp (.base true getCrtCtxReg offsetToSp),
    .jmp64m (.base true getCrtCtxReg offsetToIp)]

/-- The sequence up to its indirect jump. -/
def upToJump (point : YieldPoint) : List Instr :=
  point.pushes ++ point.firstCtxAccess :: point.switchTail

/-- What is popped when control comes back. -/
def pops (point : YieldPoint) : List Instr :=
  point.savedGprs.reverse.map .pop64r ++
    point.savedXmms.reverse.flatMap popXmm ++
    (if point.isCB then [.popf64] else [])

/-- `createYieldInstrs` -/
def createYieldInstrs (point : YieldPoint) : List Instr :=
  point.upToJump ++ point.pops

/-- The bytes that the pushes take on the stack. -/
def frameSize (point : YieldPoint) : Nat :=
  (if point.isCB then 8 else 0) + (point.savedXmms.map fun _ => 16).sum +
    (point.savedGprs.map fun _ => 8).sum

/-- The registers that come back with their values. -/
def Preserved (point : YieldPoint) (reg : Reg) : Prop :=
  point.aliveRegs.test reg = true ∨ reg = .gpr .rdi ∨ reg = .gpr .rcx ∨
    reg = .gpr .rsp ∨ (point.isCB = true ∧ reg = .eflags)

theorem saves_pushes (point : YieldPoint) :
    Saves point.pushes point.pops
      (fun reg =>
        (point.isCB = true ∧ reg = .eflags) ∨
          (∃ index ∈ point.savedXmms, reg = .xmm index) ∨
            ∃ gpr ∈ point.savedGprs, reg = .gpr gpr)
      point.frameSize := by
  have flags :
      Saves (if point.isCB then [.pushf64] else [])
        (if point.isCB then [.popf64] else [])
        (fun reg => point.isCB = true ∧ reg = .eflags)
        (if point.isCB then 8 else 0) := by
    cases isCB : point.isCB with
    | true =>
        exact saves_pushf64.congr fun reg => by simp
    | false =>
        exact Saves.nil.congr fun reg => by simp
  have xmms :
      Saves (point.savedXmms.flatMap pushXmm)
        (point.savedXmms.reverse.flatMap popXmm)
        (fun reg => ∃ index ∈ point.savedXmms, reg = .xmm index)
        (point.savedXmms.map fun _ => 16).sum := by
    apply Saves.list
    · intro index _
      exact saves_movupsmr index
    · intro index _ isSp
      cases isSp
    · intro index _ isFlags
      cases isFlags
  have notSp : ∀ gpr ∈ point.savedGprs, gpr ≠ .rsp := by
    intro gpr saved isSp
    have alive := (List.mem_filter.mp saved).2
    have valid := point.aliveRegs.regsToSave.valid _ alive
    rw [isSp] at valid
    cases valid
  have gprs :
      Saves (point.savedGprs.map .push64r)
        (point.savedGprs.reverse.map .pop64r)
        (fun reg => ∃ gpr ∈ point.savedGprs, reg = .gpr gpr)
        (point.savedGprs.map fun _ => 8).sum := by
    rw [List.map_eq_flatMap, List.map_eq_flatMap]
    apply Saves.list
    · intro gpr saved
      exact saves_push64r (notSp gpr saved)
    · intro gpr saved isSp
      cases isSp
      exact notSp _ saved rfl
    · intro gpr _ isFlags
      cases isFlags
  have flagsXmms :=
    flags.append xmms
      (fun ⟨_, _, isXmm⟩ => Reg.noConfusion isXmm)
      (fun ⟨_, _, isXmm⟩ => Reg.noConfusion isXmm)
  have nested :=
    flagsXmms.append gprs
      (fun ⟨gpr, saved, isGpr⟩ => notSp gpr saved (Reg.gpr.inj isGpr).symm)
      (fun ⟨_, _, isGpr⟩ => Reg.noConfusion isGpr)
  rw [← List.append_assoc] at nested
  exact nested.congr fun reg => or_assoc.symm

/-- The six instructions that leave the stack pointer and the resume address. -/
theorem run_switchTail (point : YieldPoint) (state : State) :
    let offset := state.gpr getCrtCtxReg
    let memory :=
      store 8
        (store 8 state.memory (state.gsBase + offset + offsetToSp).toNat
          (state.gpr .rsp))
        (state.gsBase + offset + offsetToIp).toNat (state.rip + 29)
    let link : BitVec 16 :=
      load 2 memory (state.gsBase + offset + point.offsetToLink).toNat
    let next := offset.extractLsb' 16 48 ++ link
    let jumped := state.run point.switchTail
    jumped.memory = memory ∧
      jumped.gpr .rsp =
        load 8 memory (state.gsBase + next + offsetToSp).toNat ∧
      jumped.rip =
        load 8 memory (state.gsBase + next + offsetToIp).toNat := by
  have resume : state.rip + 4#64 + 7#64 + 18#64 = state.rip + 29#64 := by
    rw [BitVec.add_assoc, BitVec.add_assoc]
    rfl
  have storeSize :
      Instr.size (.mov64mr (.base true getCrtCtxReg offsetToSp) .rsp) = 4 :=
    rfl
  have leaSize : Instr.size (.lea64r .rcx 18) = 7 := rfl
  simp only [switchTail, State.run_cons, State.run_nil, State.exec,
    State.effect, storeSize, leaSize]
  simp [State.setGpr, Mem.address, Function.update, resume]

/-- What the code of a coroutine reads in `crt_pos`. -/
def readCrtPos (point : YieldPoint) (state : State) : Option Nat :=
  point.crtPos.map fun symbol => (load 4 state.memory symbol.toNat).toNat

/-- The address of `ycs[pos]` of the thread that executes the code. -/
def ycAddress (state : State) (pos : Nat) : Nat :=
  state.gsBase.toNat + sizeofYieldCtx * pos

/--
A coroutine at a yield: it runs at a position, has room on its stack, and the
stack shares no byte with the yield contexts or with `crt_pos`.
-/
structure Hosted
    (point : YieldPoint) (pos stackTop : Nat) (state : State) : Prop where
  hosted : CrtPosOf pos (point.readCrtPos state)
  room : point.frameSize ≤ (state.gpr .rsp).toNat
  inStack : (state.gpr .rsp).toNat ≤ stackTop
  contexts : ycAddress state (maxCrtPerThread + 1) ≤ 2 ^ 64
  contextsApart :
    ycAddress state (maxCrtPerThread + 1) + point.frameSize ≤
        (state.gpr .rsp).toNat ∨
      stackTop ≤ ycAddress state 0
  crtPosApart :
    ∀ symbol, point.crtPos = some symbol →
      symbol.toNat + 4 + point.frameSize ≤ (state.gpr .rsp).toNat ∨
        (state.gpr .rsp).toNat ≤ symbol.toNat

/-- The stack pointer that the switch stores. -/
def savedSp (point : YieldPoint) (before : State) : BitVec 64 :=
  before.gpr .rsp - BitVec.ofNat 64 point.frameSize

/-- The address of the first pop. -/
def resumeAddress (point : YieldPoint) (before : State) : BitVec 64 :=
  before.rip + BitVec.ofNat 64 (codeSize point.upToJump)

/-- The link of `ycs[pos]` that the yield follows. -/
def link (point : YieldPoint) (pos : Nat) (before : State) : BitVec 16 :=
  load 2 before.memory (ycAddress before pos + point.offsetToLink.toNat)

/-- The yield context has the coroutine's place, and its link is followed. -/
structure SwitchedOut
    (point : YieldPoint) (pos : Nat) (before atJump : State) : Prop where
  ownSp :
    load 8 atJump.memory (ycAddress before pos + offsetToSp.toNat) =
      point.savedSp before
  ownIp :
    load 8 atJump.memory (ycAddress before pos + offsetToIp.toNat) =
      point.resumeAddress before
  sp :
    atJump.gpr .rsp =
      load 8 atJump.memory
        (before.gsBase + (point.link pos before).setWidth 64 +
          offsetToSp).toNat
  ip :
    atJump.rip =
      load 8 atJump.memory
        (before.gsBase + (point.link pos before).setWidth 64 +
          offsetToIp).toNat
  elsewhere :
    ∀ address,
      address + point.frameSize < (before.gpr .rsp).toNat ∨
          (before.gpr .rsp).toNat ≤ address →
        address < ycAddress before pos ∨
            ycAddress before pos + 16 ≤ address →
          atJump.memory address = before.memory address

/--
The registers are back, the stack is as it was, and control is at the
instruction behind the sequence.
-/
structure SwitchedBack
    (point : YieldPoint) (stackTop : Nat) (before final : State) : Prop where
  next :
    final.rip =
      before.rip + BitVec.ofNat 64 (codeSize point.createYieldInstrs)
  regs : ∀ reg, point.Preserved reg → final.reg reg = before.reg reg
  stack :
    AgreeOn (before.gpr .rsp).toNat stackTop final.memory before.memory

variable {point : YieldPoint} {pos stackTop : Nat} {state : State}

/-- The address of a byte of a yield context does not wrap around. -/
theorem toNat_ycAddress
    (contexts : ycAddress state (maxCrtPerThread + 1) ≤ 2 ^ 64)
    (position : pos ≤ maxCrtPerThread)
    {offset : BitVec 64} (inContext : offset.toNat < sizeofYieldCtx) :
    (state.gsBase + BitVec.ofNat 64 (sizeofYieldCtx * pos) +
        offset).toNat =
      ycAddress state pos + offset.toNat := by
  unfold ycAddress at *
  simp only [sizeofYieldCtx, maxCrtPerThread] at *
  rw [BitVec.toNat_add, BitVec.toNat_add, BitVec.toNat_ofNat]
  omega

/-- The first instruction puts the coroutine's offset in place. -/
theorem Hosted.firstCtxAccess (hosted : point.Hosted pos stackTop state) :
    let pushed := state.run point.pushes
    let ready := pushed.exec point.firstCtxAccess
    ready.gpr getCrtCtxReg = BitVec.ofNat 64 (sizeofYieldCtx * pos) ∧
      ready.gpr .rsp = pushed.gpr .rsp ∧
      ready.memory = pushed.memory ∧
      ready.gsBase = state.gsBase ∧
      ready.rip =
        pushed.rip + BitVec.ofNat 64 point.firstCtxAccess.size := by
  intro pushed ready
  have saves := point.saves_pushes
  have gsKept : ready.gsBase = state.gsBase := by
    refine Eq.trans ?_ (saves.keepsGs state)
    show (pushed.exec point.firstCtxAccess).gsBase = pushed.gsBase
    unfold YieldPoint.firstCtxAccess
    cases point.crtPos <;> rfl
  have ripNext :
      ready.rip =
        pushed.rip + BitVec.ofNat 64 point.firstCtxAccess.size := by
    apply State.exec_rip
    unfold YieldPoint.firstCtxAccess
    cases point.crtPos <;> rfl
  have position := hosted.hosted
  have apart := hosted.crtPosApart
  unfold readCrtPos at position
  have spKept : ready.gpr .rsp = pushed.gpr .rsp := by
    show (pushed.exec point.firstCtxAccess).gpr .rsp = pushed.gpr .rsp
    unfold YieldPoint.firstCtxAccess
    cases point.crtPos <;> rfl
  have memoryKept : ready.memory = pushed.memory := by
    show (pushed.exec point.firstCtxAccess).memory = pushed.memory
    unfold YieldPoint.firstCtxAccess
    cases point.crtPos <;> rfl
  refine ⟨?_, spKept, memoryKept, gsKept, ripNext⟩
  show (pushed.exec point.firstCtxAccess).gpr getCrtCtxReg = _
  unfold YieldPoint.firstCtxAccess
  cases isScav : point.crtPos with
  | none =>
      rw [isScav] at position
      cases position
      show pushed.gpr getCrtCtxReg ^^^ pushed.gpr getCrtCtxReg = _
      exact BitVec.xor_self
  | some symbol =>
      rw [isScav] at position
      have outside := apart symbol isScav
      have room := hosted.room
      have loaded :
          load 4 pushed.memory symbol.toNat =
            load 4 state.memory symbol.toNat := by
        apply load_congr
        intro address fromSymbol toSymbol
        exact saves.keepsMemory state room address (by omega)
      have value :
          (load 4 pushed.memory symbol.toNat).toNat =
            sizeofYieldCtx * pos := by
        rw [loaded]
        exact position.eq_of_some
      have small : sizeofYieldCtx * pos < 2 ^ 64 := by
        have bound := position.pos_lt
        simp only [sizeofYieldCtx, maxCrtPerThread] at *
        omega
      apply BitVec.eq_of_toNat_eq
      have zeroExtended :
          (BitVec.setWidth 64
            (load 4 pushed.memory symbol.toNat : BitVec 32)).toNat =
              sizeofYieldCtx * pos := by
        rw [BitVec.toNat_setWidth]
        exact (Nat.mod_eq_of_lt (value ▸ small)).trans value
      rw [BitVec.toNat_ofNat, Nat.mod_eq_of_lt small, ← zeroExtended]
      exact congrArg BitVec.toNat (State.gpr_setGpr_self _ getCrtCtxReg _)

/-- The address of the first pop, counted from the jump's instructions. -/
theorem resumeAddress_eq (point : YieldPoint) (state : State) :
    point.resumeAddress state =
      state.rip + BitVec.ofNat 64 (codeSize point.pushes) +
        BitVec.ofNat 64 point.firstCtxAccess.size + 29 := by
  have tail : codeSize point.switchTail = 29 := by
    unfold switchTail offsetToLink
    cases point.isNormalYield <;> rfl
  have total :
      codeSize point.upToJump =
        codeSize point.pushes + (point.firstCtxAccess.size + 29) := by
    unfold upToJump codeSize
    rw [List.map_append, List.sum_append, List.map_cons, List.sum_cons]
    exact congrArg
      (fun size => codeSize point.pushes + (point.firstCtxAccess.size + size))
      tail
  unfold resumeAddress
  rw [total, BitVec.ofNat_add, BitVec.ofNat_add, ← BitVec.add_assoc,
    ← BitVec.add_assoc]
  rfl

/-- A 16-bit load into a cleared register clears the rest of it. -/
theorem extractLsb_append {offset : BitVec 64} (link : BitVec 16)
    (small : offset.toNat < 2 ^ 16) :
    offset.extractLsb' 16 48 ++ link = link.setWidth 64 := by
  have upper : offset.extractLsb' 16 48 = 0 := by
    apply BitVec.eq_of_toNat_eq
    rw [BitVec.extractLsb'_toNat, Nat.shiftRight_eq_div_pow,
      Nat.div_eq_of_lt small]
    rfl
  rw [upper]
  apply BitVec.eq_of_toNat_eq
  have appended : (0#48 ++ link).toNat = link.toNat := by
    rw [BitVec.toNat_append]
    simp
  refine appended.trans ?_
  have bound := link.isLt
  rw [BitVec.toNat_setWidth, Nat.mod_eq_of_lt (by omega)]

theorem offsetToLink_bounds (point : YieldPoint) :
    16 ≤ point.offsetToLink.toNat ∧ point.offsetToLink.toNat ≤ 18 := by
  unfold offsetToLink
  cases point.isNormalYield <;> decide

/-- The state in which the switch starts. -/
structure Ready
    (point : YieldPoint) (pos : Nat) (before ready : State) : Prop where
  offset :
    ready.gpr getCrtCtxReg = BitVec.ofNat 64 (sizeofYieldCtx * pos)
  sp : ready.gpr .rsp = point.savedSp before
  gsBase : ready.gsBase = before.gsBase
  resume : ready.rip + 29 = point.resumeAddress before
  memory : ready.memory = (before.run point.pushes).memory
  jump : before.run point.upToJump = ready.run point.switchTail

theorem Hosted.exists_ready (hosted : point.Hosted pos stackTop state) :
    ∃ ready, point.Ready pos state ready := by
  obtain ⟨offset, sp, memory, gsBase, rip⟩ := hosted.firstCtxAccess
  have saves := point.saves_pushes
  have room := hosted.room
  refine ⟨_, offset, ?_, gsBase, ?_, memory, ?_⟩
  · apply BitVec.eq_of_toNat_eq
    rw [sp, saves.descends state room]
    exact (toNat_sub_room room).symm
  · rw [rip, State.run_rip state saves.falls, resumeAddress_eq]
  · unfold upToJump
    rw [State.run_append, State.run_cons]

/-- The memory when the sequence jumps, and where it jumps. -/
structure Jumped
    (point : YieldPoint) (pos : Nat) (before atJump : State) : Prop where
  memory :
    atJump.memory =
      store 8
        (store 8 (before.run point.pushes).memory
          (ycAddress before pos + offsetToSp.toNat) (point.savedSp before))
        (ycAddress before pos + offsetToIp.toNat)
        (point.resumeAddress before)
  sp :
    atJump.gpr .rsp =
      load 8 atJump.memory
        (before.gsBase + (point.link pos before).setWidth 64 +
          offsetToSp).toNat
  ip :
    atJump.rip =
      load 8 atJump.memory
        (before.gsBase + (point.link pos before).setWidth 64 +
          offsetToIp).toNat

/-- Besides the coroutine's own context, the switch writes nothing. -/
theorem Jumped.elsewhere {atJump : State}
    (jumped : point.Jumped pos state atJump) {address : Nat}
    (outside :
      address < ycAddress state pos ∨ ycAddress state pos + 16 ≤ address) :
    atJump.memory address = (state.run point.pushes).memory address := by
  have spOffset : offsetToSp.toNat = 0 := rfl
  have ipOffset : offsetToIp.toNat = 8 := rfl
  rw [jumped.memory, store_of_outside _ _ (by omega),
    store_of_outside _ _ (by omega)]

/-- A yield context lies in the array, below what follows it. -/
theorem ycAddress_bounds (state : State) (position : pos ≤ maxCrtPerThread) :
    ycAddress state 0 ≤ ycAddress state pos ∧
      ycAddress state pos + 20 ≤ ycAddress state (maxCrtPerThread + 1) := by
  simp only [ycAddress, sizeofYieldCtx, maxCrtPerThread] at *
  omega

theorem Hosted.jumped (hosted : point.Hosted pos stackTop state) :
    point.Jumped pos state (state.run point.upToJump) := by
  obtain ⟨ready, isReady⟩ := hosted.exists_ready
  have room := hosted.room
  have apart := hosted.contextsApart
  have inStack := hosted.inStack
  have position : pos ≤ maxCrtPerThread :=
    Nat.le_of_lt_succ hosted.hosted.pos_lt
  have linkBounds := point.offsetToLink_bounds
  have bounds := ycAddress_bounds state position
  have addressOf : ∀ {offset : BitVec 64}, offset.toNat < sizeofYieldCtx →
      (state.gsBase + BitVec.ofNat 64 (sizeofYieldCtx * pos) +
          offset).toNat =
        ycAddress state pos + offset.toNat :=
    fun inContext => toNat_ycAddress hosted.contexts position inContext
  have linkInContext : point.offsetToLink.toNat < sizeofYieldCtx :=
    Nat.lt_of_le_of_lt linkBounds.2 (by decide)
  obtain ⟨jumpMemory, jumpSp, jumpRip⟩ := point.run_switchTail ready
  rw [isReady.offset, isReady.sp, isReady.gsBase, isReady.resume,
    isReady.memory,
    addressOf (show offsetToSp.toNat < _ by decide),
    addressOf (show offsetToIp.toNat < _ by decide)] at *
  rw [addressOf linkInContext, ← jumpMemory] at jumpSp jumpRip
  have linkKept :
      load 2 (ready.run point.switchTail).memory
          (ycAddress state pos + point.offsetToLink.toNat) =
        point.link pos state := by
    have spOffset : offsetToSp.toNat = 0 := rfl
    have ipOffset : offsetToIp.toNat = 8 := rfl
    apply load_congr
    intro address fromLink toLink
    rw [jumpMemory, store_of_outside _ _ (by omega),
      store_of_outside _ _ (by omega)]
    exact point.saves_pushes.keepsMemory state room address (by omega)
  have narrow :
      (BitVec.ofNat 64 (sizeofYieldCtx * pos)).toNat < 2 ^ 16 := by
    rw [BitVec.toNat_ofNat]
    refine Nat.lt_of_le_of_lt (Nat.mod_le _ _) ?_
    simp only [sizeofYieldCtx, maxCrtPerThread] at *
    omega
  rw [linkKept, extractLsb_append _ narrow] at jumpSp jumpRip
  rw [isReady.jump]
  exact ⟨jumpMemory, jumpSp, jumpRip⟩

/-- Up to its jump, the sequence stores the coroutine's place and goes on. -/
theorem Hosted.switchedOut (hosted : point.Hosted pos stackTop state) :
    point.SwitchedOut pos state (state.run point.upToJump) := by
  have jumped := hosted.jumped
  refine ⟨?_, ?_, jumped.sp, jumped.ip, ?_⟩
  · have below : ycAddress state pos + offsetToSp.toNat + 8 ≤
        ycAddress state pos + offsetToIp.toNat := Nat.le_refl _
    rw [jumped.memory]
    refine (load_congr (agreeOn_store _ _ (.inl below))).trans ?_
    exact load_store _ _ _
  · rw [jumped.memory]
    exact load_store _ _ _
  · intro address notFrame notContext
    rw [jumped.elsewhere notContext]
    exact point.saves_pushes.keepsMemory state hosted.room address notFrame

/-- Every register that must come back was pushed. -/
theorem saved_of_preserved
    (retFloat : point.retFloat = true) {reg : Reg}
    (preserved : point.Preserved reg) :
    reg = .gpr .rsp ∨
      (point.isCB = true ∧ reg = .eflags) ∨
        (∃ index ∈ point.savedXmms, reg = .xmm index) ∨
          ∃ gpr ∈ point.savedGprs, reg = .gpr gpr := by
  have toSave :
      reg = .gpr .rsp ∨ (point.isCB = true ∧ reg = .eflags) ∨
        point.aliveRegs.regsToSave.test reg = true := by
    rcases preserved with alive | isRdi | isRcx | isRsp | flags
    · right
      right
      simp [AliveRegs.regsToSave, AliveRegs.set, alive]
    · right
      right
      simp [AliveRegs.regsToSave, AliveRegs.set, isRdi]
    · right
      right
      simp [AliveRegs.regsToSave, AliveRegs.set, isRcx]
    · exact .inl isRsp
    · exact .inr (.inl flags)
  rcases toSave with isRsp | flags | inSet
  · exact .inl isRsp
  · exact .inr (.inl flags)
  have valid := point.aliveRegs.regsToSave.valid reg inSet
  right
  right
  cases reg with
  | gpr gpr =>
      right
      exact ⟨gpr, List.mem_filter.mpr
        ⟨point.numbering.complete gpr, inSet⟩, rfl⟩
  | xmm index =>
      left
      have small : index.val < 4 := of_decide_eq_true valid
      have listed : index ∈ ([0, 1, 2, 3] : List (Fin 16)) := by
        simp only [List.mem_cons, List.not_mem_nil, or_false, Fin.ext_iff]
        show index.val = 0 ∨ index.val = 1 ∨ index.val = 2 ∨ index.val = 3
        omega
      refine ⟨index, List.mem_filter.mpr ⟨listed, ?_⟩, rfl⟩
      rw [inSet, retFloat]
      rfl
  | eflags =>
      cases valid

/-- The pops fall through to the instruction behind them. -/
theorem pops_fall (point : YieldPoint) :
    ∀ instr ∈ point.pops, instr.fallsThrough = true := by
  intro instr member
  unfold pops at member
  rcases List.mem_append.mp member with front | flags
  · rcases List.mem_append.mp front with gprs | xmms
    · obtain ⟨gpr, _, isPop⟩ := List.mem_map.mp gprs
      rw [← isPop]
      rfl
    · obtain ⟨index, _, inPop⟩ := List.mem_flatMap.mp xmms
      rcases List.mem_cons.mp inPop with isLoad | isAdd
      · rw [isLoad]
        rfl
      · rw [List.mem_singleton.mp isAdd]
        rfl
  · cases isCB : point.isCB with
    | true =>
        rw [isCB] at flags
        rw [List.mem_singleton.mp flags]
        rfl
    | false =>
        rw [isCB] at flags
        cases flags

/--
The frame of a coroutine that has switched out, whatever else has changed
since, restores its registers.
-/
theorem Hosted.switchedBack (hosted : point.Hosted pos stackTop state)
    (retFloat : point.retFloat = true) {later : State}
    (rip : later.rip = point.resumeAddress state)
    (sp : later.gpr .rsp = point.savedSp state)
    (stack :
      AgreeOn (point.savedSp state).toNat stackTop later.memory
        (state.run point.upToJump).memory) :
    point.SwitchedBack stackTop state (later.run point.pops) := by
  have saves := point.saves_pushes
  have room := hosted.room
  have inStack := hosted.inStack
  have apart := hosted.contextsApart
  have bounds :=
    ycAddress_bounds state (Nat.le_of_lt_succ hosted.hosted.pos_lt)
  have top := saves.descends state room
  have savedTop :
      (point.savedSp state).toNat =
        (state.gpr .rsp).toNat - point.frameSize :=
    toNat_sub_room room
  have onStack :
      AgreeOn (point.savedSp state).toNat stackTop later.memory
        (state.run point.pushes).memory := by
    refine stack.trans fun address fromTop toBottom => ?_
    exact hosted.jumped.elsewhere (by omega)
  have frameKept : FrameKept state (state.run point.pushes) later := by
    refine ⟨?_, onStack.mono (by omega) inStack⟩
    rw [sp]
    exact BitVec.eq_of_toNat_eq (savedTop.trans top.symm)
  have restored := saves.restores state later room frameKept
  refine ⟨?_, ?_, ?_⟩
  · have size :
        codeSize point.createYieldInstrs =
          codeSize point.upToJump + codeSize point.pops := by
      unfold createYieldInstrs codeSize
      rw [List.map_append, List.sum_append]
    rw [State.run_rip later point.pops_fall, rip, size, BitVec.ofNat_add,
      ← BitVec.add_assoc]
    rfl
  · intro reg preserved
    rcases saved_of_preserved retFloat preserved with isSp | saved
    · rw [isSp]
      exact restored.sp
    · exact restored.back reg saved
  · rw [restored.memory]
    refine (onStack.mono (by omega) (Nat.le_refl _)).trans ?_
    intro address fromSp _
    exact saves.keepsMemory state room address (.inr fromSp)

/--
The context switch: the sequence leaves the coroutine's place in its yield
context and jumps to the coroutine that its link names; when control returns,
everything that it preserves is as before, whatever the other coroutines did.
-/
theorem createYieldInstrs_roundTrip
    (point : YieldPoint) (retFloat : point.retFloat = true)
    {pos stackTop : Nat} {before : State}
    (hosted : point.Hosted pos stackTop before) :
    point.SwitchedOut pos before (before.run point.upToJump) ∧
      ∀ later : State,
        later.rip = point.resumeAddress before →
        later.gpr .rsp = point.savedSp before →
        AgreeOn (point.savedSp before).toNat stackTop later.memory
          (before.run point.upToJump).memory →
        point.SwitchedBack stackTop before (later.run point.pops) :=
  ⟨hosted.switchedOut, fun _ rip sp stack =>
    hosted.switchedBack retFloat rip sp stack⟩

/-- The order in which the target numbers the general registers. -/
def targetNumbering : RegNumbering where
  order :=
    [.rax, .rbp, .rbx, .rcx, .rdi, .rdx, .rsi, .rsp,
      .r8, .r9, .r10, .r11, .r12, .r13, .r14, .r15]
  complete reg := by cases reg <;> decide

/-- A special yield of a scavenger at a conditional branch. -/
def scavengerYield : YieldPoint where
  numbering := targetNumbering
  aliveRegs :=
    .filterValidRegsInPnY fun reg =>
      decide (reg = .gpr .rbx ∨ reg = .xmm 1 ∨ reg = .xmm 5)
  isCB := true
  crtPos := some 4096
  retFloat := true
  isNormalYield := false

/-- The scavenger at position 1 of a thread, with its `crt_pos` at 4096. -/
def scavengerState : State where
  gpr reg := if reg = .rsp then 8192 else 7
  xmm _ := 9
  eflags := 0x246
  rip := 1024
  gsBase := 65536
  memory address := if address = 4096 then 20 else 0

/-- The round trip of that yield. -/
theorem scavengerYield_roundTrip :
    scavengerYield.SwitchedOut 1 scavengerState
        (scavengerState.run scavengerYield.upToJump) ∧
      ∀ later : State,
        later.rip = scavengerYield.resumeAddress scavengerState →
        later.gpr .rsp = scavengerYield.savedSp scavengerState →
        AgreeOn (scavengerYield.savedSp scavengerState).toNat 16384
          later.memory (scavengerState.run scavengerYield.upToJump).memory →
        scavengerYield.SwitchedBack 16384 scavengerState
          (later.run scavengerYield.pops) := by
  have crtPos : scavengerYield.readCrtPos scavengerState = some (20 * 1) := by
    decide
  apply createYieldInstrs_roundTrip scavengerYield rfl
  refine ⟨?_, by decide, by decide, by decide, by decide, ?_⟩
  · rw [crtPos]
    exact .scavenger (by decide)
  · intro symbol isSymbol
    cases isSymbol
    decide

end YieldPoint

end Msh
