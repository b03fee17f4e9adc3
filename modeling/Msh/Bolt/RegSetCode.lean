import Msh.Bolt.RegSet
import Msh.Bolt.Yield
import Msh.Library.SaveArea

namespace Msh

open X86 ByteMemory StructLayout

/-!
# The code that fills and empties a register set

Where registers are saved in a register set, the pass emits code that finds
the set of the coroutine's position through `gs` and `crt_pos` and stores the
registers to their fields, and code that loads them.  The register that the
code addresses the set with is saved on the stack meanwhile, unless the code
is put where that register is saved already.
-/

/-- The parameters of `createPushToRegSet` and `createPopFromRegSet`. -/
structure RegSetCode where
  numbering : RegNumbering
  regs : AliveRegs
  /-- The address of the symbol `crt_pos`; `none` in a primary. -/
  crtPos : Option (BitVec 64)
  regSetIdx : Nat
  skipCtxManage : Bool

namespace RegSetCode

/-- The registers of the set in the order of their numbers: the general ones
come before the vector registers. -/
def saved (code : RegSetCode) : List Reg :=
  (code.numbering.order.map Reg.gpr ++ [0, 1, 2, 3].map Reg.xmm).filter
    code.regs.test

/-- The operand for a register; `none` where the pass exits. -/
def operand (code : RegSetCode) (reg : Reg) : Option Mem :=
  (offsetInRegSet reg code.regSetIdx).map fun regOffset =>
    .base true getCrtCtxReg (BitVec.ofNat 64 (regOffset + offsetToRegSet))

/-- The loop over the registers. -/
def transfer (code : RegSetCode) (instrs : Mem → Reg → List Instr) :
    List Reg → Option (List Instr)
  | [] => some []
  | reg :: rest => do
      let mem ← code.operand reg
      let others ← transfer code instrs rest
      some (instrs mem reg ++ others)

/-- `PushCrtCtxRegInst` -/
def pushCrtCtxReg (code : RegSetCode) : List Instr :=
  if code.skipCtxManage then [] else [.push64r getCrtCtxReg]

/-- `PopCrtCtxRegInst` -/
def popCrtCtxReg (code : RegSetCode) : List Instr :=
  if code.skipCtxManage then [] else [.pop64r getCrtCtxReg]

/-- `MovIdxInst` and `ImulCtxSzInst` -/
def movIdx (code : RegSetCode) : List Instr :=
  match code.crtPos with
  | some crtPos =>
      [.mov32rm getCrtCtxReg (.symbol crtPos),
        .imul64rri32 getCrtCtxReg getCrtCtxReg
          (BitVec.ofNat 32 (sizeOfRegset / sizeOfYieldCtx))]
  | none => [.xor64rr getCrtCtxReg getCrtCtxReg]

/-- `createPushToRegSet`, without the form that uses the stack. -/
def createPushToRegSet (code : RegSetCode) : Option (List Instr) := do
  let stores ← code.transfer (fun mem reg => reg.storeTo mem) code.saved
  some (code.pushCrtCtxReg ++ (code.movIdx ++ stores) ++ code.popCrtCtxReg)

/-- `createPopFromRegSet`, without the form that uses the stack. -/
def createPopFromRegSet (code : RegSetCode) : Option (List Instr) := do
  let loads ← code.transfer (fun mem reg => reg.loadFrom mem) code.saved
  some (code.pushCrtCtxReg ++ (code.movIdx ++ loads) ++ code.popCrtCtxReg)

/-- The bytes that the code uses below the stack pointer. -/
def room (code : RegSetCode) : Nat :=
  if code.skipCtxManage then 0 else 8

/-- What the code reads in `crt_pos`. -/
def readCrtPos (code : RegSetCode) (state : State) : Option Nat :=
  code.crtPos.map fun symbol => (load 4 state.memory symbol.toNat).toNat

/-- `regs[pos][RegSetIdx]` of the thread that executes the code. -/
def area (code : RegSetCode) (pos : Nat) (state : State) : Extent :=
  (regsElement pos code.regSetIdx).shift state.gsBase.toNat

/--
A coroutine at such code: it runs at a position, and the bytes below its stack
pointer are neither `crt_pos` nor in the register set.
-/
structure Hosted (code : RegSetCode) (pos : Nat) (state : State) :
    Prop where
  hosted : CrtPosOf pos (code.readCrtPos state)
  room : code.room ≤ (state.gpr .rsp).toNat
  fits : (code.area pos state).stop ≤ 2 ^ 64
  areaApart :
    (code.area pos state).stop + code.room ≤ (state.gpr .rsp).toNat ∨
      (state.gpr .rsp).toNat ≤ (code.area pos state).start
  crtPosApart :
    ∀ symbol, code.crtPos = some symbol →
      symbol.toNat + 4 + code.room ≤ (state.gpr .rsp).toNat ∨
        (state.gpr .rsp).toNat ≤ symbol.toNat

variable {code : RegSetCode}

/-! The code addresses the fields of the set. -/

theorem mem_saved_iff {reg : Reg} :
    reg ∈ code.saved ↔ code.regs.test reg = true := by
  rw [saved, List.mem_filter]
  constructor
  · intro isSaved
    exact isSaved.2
  · intro isTested
    refine ⟨?_, isTested⟩
    have isValid := code.regs.valid reg isTested
    cases reg with
    | gpr reg =>
        exact List.mem_append_left _
          (List.mem_map_of_mem (code.numbering.complete reg))
    | xmm index =>
        have few : ∀ index : Fin 16, index.val < 4 →
            index ∈ [(0 : Fin 16), 1, 2, 3] := by
          decide
        exact List.mem_append_right _
          (List.mem_map_of_mem (few index (of_decide_eq_true isValid)))
    | eflags => cases isValid

/-- The operand for a register that the sets have. -/
def mem (code : RegSetCode) (reg : Reg) : Mem :=
  .base true getCrtCtxReg
    (BitVec.ofNat 64
      ((offsetInRegSet reg code.regSetIdx).getD 0 + offsetToRegSet))

theorem exists_offsetInRegSet {reg : Reg} (isValid : validReg reg = true)
    (regSetIdx : Nat) :
    ∃ regOffset, offsetInRegSet reg regSetIdx = some regOffset := by
  cases reg with
  | gpr reg => cases reg <;> exact ⟨_, rfl⟩
  | xmm index =>
      have small : index.val < 4 := of_decide_eq_true isValid
      fin_cases index <;>
        first
          | exact ⟨_, rfl⟩
          | exact absurd small (by decide)
  | eflags => cases isValid

theorem transfer_eq
    (instrs : Mem → Reg → List Instr)
    {regs : List Reg}
    (areValid : ∀ reg ∈ regs, validReg reg = true) :
    code.transfer instrs regs =
      some (regs.flatMap fun reg => instrs (code.mem reg) reg) := by
  induction regs with
  | nil => rfl
  | cons reg rest inductionHypothesis =>
      have restEq := inductionHypothesis fun other inRest =>
        areValid other (List.mem_cons_of_mem _ inRest)
      obtain ⟨regOffset, isOffset⟩ :=
        exists_offsetInRegSet (areValid reg List.mem_cons_self)
          code.regSetIdx
      have operand : code.operand reg = some (code.mem reg) := by
        rw [RegSetCode.operand, RegSetCode.mem, isOffset]
        rfl
      rw [transfer, operand, restEq]
      rfl

theorem saved_valid : ∀ reg ∈ code.saved, validReg reg = true := by
  intro reg isSaved
  exact code.regs.valid reg (mem_saved_iff.mp isSaved)

/-- Where the code keeps a register, from the start of the contexts. -/
def slot (code : RegSetCode) (pos : Nat) (reg : Reg) : Extent :=
  ⟨sizeOfRegset * pos +
      ((offsetInRegSet reg code.regSetIdx).getD 0 + offsetToRegSet),
    reg.bytes⟩

theorem exists_slot
    (code : RegSetCode)
    {pos : Nat} {crtPos : Option Nat}
    (hosted : CrtPosOf pos crtPos)
    {reg : Reg}
    (isValid : validReg reg = true) :
    ∃ save : SaveSlot [code.regSetIdx],
      save.pos = pos ∧ save.regSetIdx = code.regSetIdx ∧
        save.reg = reg ∧ save.slot = code.slot pos reg := by
  obtain ⟨regOffset, isOffset⟩ :=
    exists_offsetInRegSet isValid code.regSetIdx
  have width : storeWidth reg = reg.bytes := by
    cases reg <;> rfl
  refine
    ⟨⟨pos, crtPos, code.regSetIdx, reg, code.slot pos reg, hosted,
      List.mem_singleton_self _, ?_⟩, rfl, rfl, rfl, rfl⟩
  rw [emittedSlot, slot, isOffset, hosted.crtCtxValue_eq, width]
  rfl

theorem slot_within
    (code : RegSetCode)
    {pos : Nat} {crtPos : Option Nat}
    (hosted : CrtPosOf pos crtPos)
    {reg : Reg}
    (isValid : validReg reg = true) :
    (code.slot pos reg).Within (regsElement pos code.regSetIdx) := by
  obtain ⟨save, samePos, sameIdx, -, isSlot⟩ := exists_slot code hosted isValid
  have within := save.within_element
  rw [samePos, sameIdx, isSlot] at within
  exact within

theorem slot_apart
    (code : RegSetCode)
    {pos : Nat} {crtPos : Option Nat}
    (hosted : CrtPosOf pos crtPos)
    {reg other : Reg}
    (isValid : validReg reg = true)
    (isValid' : validReg other = true)
    (differ : reg ≠ other) :
    (code.slot pos reg).Apart (code.slot pos other) := by
  obtain ⟨save, samePos, sameIdx, sameReg, isSlot⟩ :=
    exists_slot code hosted isValid
  obtain ⟨save', samePos', sameIdx', sameReg', isSlot'⟩ :=
    exists_slot code hosted isValid'
  have apart :=
    SaveSlot.apart_of_reg_ne (samePos.trans samePos'.symm)
      (sameIdx.trans sameIdx'.symm)
      (sameReg.symm ▸ sameReg'.symm ▸ differ)
  rw [isSlot, isSlot'] at apart
  exact apart

theorem toNat_base_add (base : BitVec 64) {start field : Nat}
    (fits : base.toNat + (start + field) < 2 ^ 64) :
    (base + BitVec.ofNat 64 start + BitVec.ofNat 64 field).toNat =
      base.toNat + (start + field) := by
  simp only [BitVec.toNat_add, BitVec.toNat_ofNat]
  omega

/-- Where an operand is, once the code has found the set. -/
theorem slot_mem
    {pos : Nat} {state found : State}
    (hosted : code.Hosted pos state)
    (sameGs : found.gsBase = state.gsBase)
    (offset :
      found.gpr getCrtCtxReg = BitVec.ofNat 64 (sizeOfRegset * pos))
    {reg : Reg}
    (isValid : validReg reg = true) :
    (code.mem reg).slot found reg =
      (code.slot pos reg).shift state.gsBase.toNat := by
  have inArea :=
    (slot_within code hosted.hosted isValid).shift state.gsBase.toNat
  have fits :
      state.gsBase.toNat + (code.slot pos reg).start + reg.bytes ≤ 2 ^ 64 :=
    inArea.2.trans hosted.fits
  have positive : 0 < reg.bytes := by
    cases reg <;> exact Nat.succ_pos _
  refine Extent.ext ?_ rfl
  rw [Mem.slot, RegSetCode.mem, Mem.address, if_pos rfl, sameGs, offset]
  exact
    toNat_base_add _
      (Nat.lt_of_lt_of_le (Nat.lt_add_of_pos_right positive) fits)

/-! The code finds the set. -/

/-- The offset of the coroutine's set is in the register; nothing else but the
flags has changed. -/
structure Found (pos : Nat) (state found : State) : Prop where
  offset : found.gpr getCrtCtxReg = BitVec.ofNat 64 (sizeOfRegset * pos)
  regs :
    ∀ reg, reg ≠ .gpr getCrtCtxReg → reg ≠ .eflags →
      found.reg reg = state.reg reg
  gsBase : found.gsBase = state.gsBase
  memory : found.memory = state.memory

theorem run_movIdx
    {pos : Nat} {state : State}
    (hosted : CrtPosOf pos (code.readCrtPos state)) :
    Found pos state (state.run code.movIdx) := by
  unfold readCrtPos at hosted
  unfold movIdx
  cases symbol : code.crtPos with
  | none =>
      rw [symbol] at hosted
      cases hosted
      refine ⟨?_, fun reg notCtx notFlags => ?_, rfl, rfl⟩
      · show state.gpr .rdi ^^^ state.gpr .rdi = _
        rw [BitVec.xor_self]
        rfl
      · cases reg with
        | gpr reg =>
            exact Function.update_of_ne
              (fun same => notCtx (congrArg _ same)) _ _
        | xmm index => rfl
        | eflags => exact absurd rfl notFlags
  | some crtPos =>
      rw [symbol] at hosted
      have read := hosted.eq_of_some
      refine ⟨?_, fun reg notCtx notFlags => ?_, rfl, rfl⟩
      · have value :
            BitVec.setWidth 64
                (load 4 state.memory crtPos.toNat : BitVec 32) =
              BitVec.ofNat 64 (sizeofYieldCtx * pos) := by
          apply BitVec.eq_of_toNat_eq
          rw [BitVec.toNat_setWidth, BitVec.toNat_ofNat]
          exact congrArg (· % 2 ^ 64) read
        have factor :
            (BitVec.ofNat 32 (sizeOfRegset / sizeOfYieldCtx)).signExtend 64 =
              BitVec.ofNat 64 144 := by
          decide
        have product :
            sizeofYieldCtx * pos * 144 = sizeOfRegset * pos := by
          simp only [sizeofYieldCtx, sizeOfRegset]
          omega
        have computed :
            (state.run
                [.mov32rm getCrtCtxReg (.symbol crtPos),
                  .imul64rri32 getCrtCtxReg getCrtCtxReg
                    (BitVec.ofNat 32 (sizeOfRegset / sizeOfYieldCtx))]).gpr
                getCrtCtxReg =
              BitVec.setWidth 64
                  (load 4 state.memory crtPos.toNat : BitVec 32) *
                (BitVec.ofNat 32
                  (sizeOfRegset / sizeOfYieldCtx)).signExtend 64 := by
          simp [State.exec, State.effect, State.setGpr, Mem.address,
            Function.update]
        rw [computed, value, factor, ← BitVec.ofNat_mul, product]
      · cases reg with
        | gpr reg =>
            have differ : reg ≠ .rdi := fun same => notCtx (congrArg _ same)
            exact (State.gpr_setGpr_of_ne _ differ _).trans
              (State.gpr_setGpr_of_ne _ differ _)
        | xmm index => rfl
        | eflags => exact absurd rfl notFlags

/-- Around the accesses, the register that addresses the set is saved. -/
theorem saves_crtCtxReg (code : RegSetCode) :
    Saves code.pushCrtCtxReg code.popCrtCtxReg
      (fun reg =>
        code.skipCtxManage = false ∧ reg = .gpr getCrtCtxReg)
      code.room := by
  unfold pushCrtCtxReg popCrtCtxReg room
  cases code.skipCtxManage with
  | true =>
      exact Saves.nil.congr fun reg => by simp
  | false =>
      have notSp : getCrtCtxReg ≠ .rsp := by
        decide
      exact (saves_push64r notSp).congr fun reg => by simp

theorem Hosted.found
    {pos : Nat} {state : State}
    (hosted : code.Hosted pos state) :
    Found pos (state.run code.pushCrtCtxReg)
      ((state.run code.pushCrtCtxReg).run code.movIdx) := by
  apply run_movIdx
  have sameRead :
      code.readCrtPos (state.run code.pushCrtCtxReg) =
        code.readCrtPos state := by
    unfold readCrtPos
    cases symbol : code.crtPos with
    | none => rfl
    | some crtPos =>
        have apart := hosted.crtPosApart crtPos symbol
        have sameLoad :
            load 4 (state.run code.pushCrtCtxReg).memory crtPos.toNat =
              load 4 state.memory crtPos.toNat := by
          apply load_congr
          intro address fromStart beforeStop
          exact code.saves_crtCtxReg.keepsMemory state hosted.room address
            (by omega)
        rw [Option.map_some, Option.map_some, sameLoad]
  rw [sameRead]
  exact hosted.hosted

/-- What the code for the set leaves behind: everything but the flags, the
bytes below the stack pointer and the set. -/
structure Filled (code : RegSetCode) (pos : Nat) (before after : State) :
    Prop where
  regs :
    ∀ reg, reg ≠ .eflags →
      (reg = .gpr getCrtCtxReg → code.skipCtxManage = false) →
        after.reg reg = before.reg reg
  gsBase : after.gsBase = before.gsBase
  elsewhere :
    ∀ address,
      address + code.room < (before.gpr .rsp).toNat ∨
          (before.gpr .rsp).toNat ≤ address →
        address < (code.area pos before).start ∨
            (code.area pos before).stop ≤ address →
          after.memory address = before.memory address

/-- The registers of the set are back, the others as they were. -/
structure Emptied (code : RegSetCode) (before later final : State) :
    Prop where
  back :
    ∀ reg, code.regs.test reg = true → reg ≠ .gpr getCrtCtxReg →
      final.reg reg = before.reg reg
  others :
    ∀ reg, reg ≠ .eflags →
      code.regs.test reg = false ∨ reg = .gpr getCrtCtxReg →
        (reg = .gpr getCrtCtxReg → code.skipCtxManage = false) →
          final.reg reg = later.reg reg
  elsewhere :
    ∀ address,
      address + code.room < (later.gpr .rsp).toNat ∨
          (later.gpr .rsp).toNat ≤ address →
        final.memory address = later.memory address

/-- The states on the way through the code, from a state of the coroutine. -/
def pushed (code : RegSetCode) (state : State) : State :=
  state.run code.pushCrtCtxReg

def found (code : RegSetCode) (state : State) : State :=
  (code.pushed state).run code.movIdx

variable {pos : Nat} {state : State}

theorem Hosted.pushed_sp (hosted : code.Hosted pos state) :
    ((code.pushed state).gpr .rsp).toNat =
      (state.gpr .rsp).toNat - code.room :=
  code.saves_crtCtxReg.descends state hosted.room

theorem pushed_reg {reg : Reg}
    (notSp : reg ≠ .gpr .rsp) (notFlags : reg ≠ .eflags) :
    (code.pushed state).reg reg = state.reg reg :=
  code.saves_crtCtxReg.keepsRegs state reg notSp notFlags

theorem found_gsBase : (code.found state).gsBase = state.gsBase := by
  rw [found, pushed, State.run_gsBase, State.run_gsBase]

theorem Hosted.found_sp (hosted : code.Hosted pos state) :
    (code.found state).gpr .rsp = (code.pushed state).gpr .rsp :=
  hosted.found.regs (.gpr .rsp)
    (fun same => Gpr.noConfusion (Reg.gpr.inj same)) Reg.noConfusion

theorem Hosted.found_reg
    (hosted : code.Hosted pos state)
    {reg : Reg}
    (notCtx : reg ≠ .gpr getCrtCtxReg)
    (notSp : reg ≠ .gpr .rsp)
    (notFlags : reg ≠ .eflags) :
    (code.found state).reg reg = state.reg reg :=
  (hosted.found.regs reg notCtx notFlags).trans (pushed_reg notSp notFlags)

theorem Hosted.found_memory (hosted : code.Hosted pos state) :
    (code.found state).memory = (code.pushed state).memory :=
  hosted.found.memory

/-- In the set, the memory is as before the code. -/
theorem Hosted.found_area (hosted : code.Hosted pos state) :
    AgreeOn (code.area pos state).start (code.area pos state).stop
      (code.found state).memory state.memory := by
  intro address fromStart beforeStop
  have apart := hosted.areaApart
  rw [hosted.found_memory]
  exact code.saves_crtCtxReg.keepsMemory state hosted.room address (by omega)

/-- Where the operands are. -/
theorem Hosted.slot_found
    (hosted : code.Hosted pos state)
    {reg : Reg}
    (isSaved : reg ∈ code.saved) :
    (code.mem reg).slot (code.found state) reg =
      (code.slot pos reg).shift state.gsBase.toNat :=
  slot_mem hosted found_gsBase hosted.found.offset (saved_valid reg isSaved)

theorem Hosted.slot_in_area
    (hosted : code.Hosted pos state)
    {reg : Reg}
    (isSaved : reg ∈ code.saved) :
    ((code.mem reg).slot (code.found state) reg).Within
      (code.area pos state) := by
  rw [hosted.slot_found isSaved]
  exact (slot_within code hosted.hosted (saved_valid reg isSaved)).shift _

/-- The accesses leave the frame alone: the saved register comes back. -/
theorem Hosted.restored
    (hosted : code.Hosted pos state)
    {accesses : List Instr}
    (sameSp :
      ((code.found state).run accesses).gpr .rsp =
        (code.found state).gpr .rsp)
    (inArea :
      ∀ address,
        address < (code.area pos state).start ∨
            (code.area pos state).stop ≤ address →
          ((code.found state).run accesses).memory address =
            (code.found state).memory address) :
    Restored
      (fun reg =>
        code.skipCtxManage = false ∧ reg = .gpr getCrtCtxReg)
      state ((code.found state).run accesses)
      (state.run
        (code.pushCrtCtxReg ++ (code.movIdx ++ accesses) ++
          code.popCrtCtxReg)) := by
  have middle :
      (state.run code.pushCrtCtxReg).run (code.movIdx ++ accesses) =
        (code.found state).run accesses := by
    rw [State.run_append]
    rfl
  have kept :
      FrameKept state (state.run code.pushCrtCtxReg)
        ((state.run code.pushCrtCtxReg).run (code.movIdx ++ accesses)) := by
    rw [middle]
    refine ⟨sameSp.trans hosted.found_sp, fun address fromTop below => ?_⟩
    have apart := hosted.areaApart
    have top := hosted.pushed_sp
    have fits := hosted.room
    unfold pushed at top
    rw [inArea address (by omega), hosted.found_memory]
    rfl
  have restored := code.saves_crtCtxReg.around hosted.room kept
  rw [middle] at restored
  exact restored

/-- Registers that the accesses keep are as before the code. -/
theorem Hosted.reg_eq
    (hosted : code.Hosted pos state)
    {accessed final : State}
    (restored :
      Restored
        (fun reg =>
          code.skipCtxManage = false ∧ reg = .gpr getCrtCtxReg)
        state accessed final)
    {reg : Reg}
    (notFlags : reg ≠ .eflags)
    (managed : reg = .gpr getCrtCtxReg → code.skipCtxManage = false)
    (kept :
      reg ≠ .gpr getCrtCtxReg →
        accessed.reg reg = (code.found state).reg reg) :
    final.reg reg = state.reg reg := by
  by_cases isCtx : reg = .gpr getCrtCtxReg
  · exact restored.back reg ⟨managed isCtx, isCtx⟩
  · by_cases isSp : reg = .gpr .rsp
    · rw [isSp]
      exact restored.sp
    · calc
        final.reg reg = accessed.reg reg :=
          restored.others reg isSp notFlags fun saved => isCtx saved.2
        _ = (code.found state).reg reg := kept isCtx
        _ = state.reg reg := hosted.found_reg isCtx isSp notFlags

/-! Filling the set, and emptying it. -/

def stores (code : RegSetCode) : List Instr :=
  code.saved.flatMap fun reg => reg.storeTo (code.mem reg)

def loads (code : RegSetCode) : List Instr :=
  code.saved.flatMap fun reg => reg.loadFrom (code.mem reg)

theorem createPushToRegSet_eq (code : RegSetCode) :
    code.createPushToRegSet =
      some
        (code.pushCrtCtxReg ++ (code.movIdx ++ code.stores) ++
          code.popCrtCtxReg) := by
  rw [createPushToRegSet, transfer_eq _ saved_valid]
  rfl

theorem createPopFromRegSet_eq (code : RegSetCode) :
    code.createPopFromRegSet =
      some
        (code.pushCrtCtxReg ++ (code.movIdx ++ code.loads) ++
          code.popCrtCtxReg) := by
  rw [createPopFromRegSet, transfer_eq _ saved_valid]
  rfl

/-- What the stores do. -/
theorem Hosted.run_stores (hosted : code.Hosted pos state) :
    let filled := (code.found state).run code.stores
    SameRegs (code.found state) filled ∧
      (∀ reg ∈ code.saved,
        HoldsReg filled.memory ((code.mem reg).address (code.found state))
          (code.found state) reg) ∧
        ∀ address,
          address < (code.area pos state).start ∨
              (code.area pos state).stop ≤ address →
            filled.memory address = (code.found state).memory address := by
  have apart :
      ∀ reg ∈ code.saved, ∀ other ∈ code.saved, reg ≠ other →
        ((code.mem reg).slot (code.found state) reg).Apart
          ((code.mem other).slot (code.found state) other) := by
    intro reg isSaved other otherSaved differ
    rw [hosted.slot_found isSaved, hosted.slot_found otherSaved]
    exact
      (slot_apart code hosted.hosted (saved_valid reg isSaved)
        (saved_valid other otherSaved) differ).shift _
  obtain ⟨same, held, outside⟩ :=
    X86.run_stores (code.found state) code.mem apart
  refine ⟨same, held, fun address out => outside address ?_⟩
  intro reg isSaved
  have within := hosted.slot_in_area isSaved
  unfold Extent.Within at within
  omega

theorem Hosted.filled (hosted : code.Hosted pos state) :
    code.Filled pos state
      (state.run
        (code.pushCrtCtxReg ++ (code.movIdx ++ code.stores) ++
          code.popCrtCtxReg)) := by
  obtain ⟨same, _, outside⟩ := hosted.run_stores
  have restored := hosted.restored (same.regs (.gpr .rsp)) outside
  refine ⟨fun reg notFlags managed => ?_, State.run_gsBase _ _, ?_⟩
  · exact
      hosted.reg_eq restored notFlags managed fun _ => same.regs reg
  · intro address outOfFrame outOfArea
    rw [restored.memory, outside address outOfArea, hosted.found_memory]
    exact
      code.saves_crtCtxReg.keepsMemory state hosted.room address outOfFrame

theorem Hosted.emptied
    {before later : State}
    (hosted : code.Hosted pos before)
    (hostedLater : code.Hosted pos later)
    (sameGs : later.gsBase = before.gsBase)
    (kept :
      AgreeOn (code.area pos before).start (code.area pos before).stop
        later.memory ((code.found before).run code.stores).memory) :
    code.Emptied before later
      (later.run
        (code.pushCrtCtxReg ++ (code.movIdx ++ code.loads) ++
          code.popCrtCtxReg)) := by
  have sameArea : code.area pos later = code.area pos before := by
    rw [area, area, sameGs]
  have sameSlot {reg : Reg} (isSaved : reg ∈ code.saved) :
      (code.mem reg).slot (code.found later) reg =
        (code.mem reg).slot (code.found before) reg := by
    rw [hostedLater.slot_found isSaved, hosted.slot_found isSaved, sameGs]
  have held : ∀ reg ∈ code.saved,
      HoldsReg (code.found later).memory
        ((code.mem reg).address (code.found later)) (code.found before)
        reg := by
    intro reg isSaved
    have sameAddress :
        (code.mem reg).address (code.found later) =
          (code.mem reg).address (code.found before) := by
      have slots := sameSlot isSaved
      unfold Mem.slot at slots
      exact (Extent.mk.inj slots).1
    have within := hosted.slot_in_area isSaved
    have inLater := hostedLater.found_area
    rw [sameArea] at inLater
    rw [sameAddress]
    refine (hosted.run_stores.2.1 reg isSaved).congr ?_
    exact (inLater.trans kept).mono within.1 within.2
  have based : ∀ reg, ∃ gs disp,
      code.mem reg = .base gs getCrtCtxReg disp := by
    intro reg
    exact ⟨true, _, rfl⟩
  have sameBase :
      (code.found before).gpr getCrtCtxReg =
        (code.found later).gpr getCrtCtxReg :=
    hosted.found.offset.trans hostedLater.found.offset.symm
  obtain ⟨loaded, others, _, sameMemory⟩ :=
    run_loads (code.found later) (code.found before) based sameBase held
  have spNotSaved : Reg.gpr .rsp ∉ code.saved := by
    intro isSaved
    exact absurd (saved_valid _ isSaved) (by decide)
  have sameSp :
      ((code.found later).run code.loads).gpr .rsp =
        (code.found later).gpr .rsp :=
    others _ spNotSaved
  have restored :=
    hostedLater.restored sameSp fun address _ => congrFun sameMemory address
  refine ⟨fun reg isTested notCtx => ?_, ?_, ?_⟩
  · have isSaved := mem_saved_iff.mpr isTested
    have notSp : reg ≠ .gpr .rsp := by
      intro isSp
      exact spNotSaved (isSp ▸ isSaved)
    have notFlags : reg ≠ .eflags := by
      intro isFlags
      have isValid := saved_valid reg isSaved
      rw [isFlags] at isValid
      exact Bool.false_ne_true isValid
    calc
      _ = ((code.found later).run code.loads).reg reg :=
        restored.others reg notSp notFlags fun saved => notCtx saved.2
      _ = (code.found before).reg reg := loaded reg isSaved notFlags
      _ = before.reg reg := hosted.found_reg notCtx notSp notFlags
  · intro reg notFlags notLoaded managed
    refine hostedLater.reg_eq restored notFlags managed fun notCtx => ?_
    have notSaved : reg ∉ code.saved := by
      intro isSaved
      rw [mem_saved_iff, notLoaded.resolve_right notCtx] at isSaved
      exact Bool.false_ne_true isSaved
    exact others reg notSaved
  · intro address outOfFrame
    have onlyRead :
        ((code.found later).run code.loads).memory =
          (code.pushed later).memory :=
      sameMemory.trans hostedLater.found_memory
    rw [restored.memory, onlyRead]
    exact
      code.saves_crtCtxReg.keepsMemory later hostedLater.room address
        outOfFrame

/--
Registers that are put into a register set come back: the pass writes the code
for every set that it makes, filling the set changes nothing else, and
emptying it later at the same position brings the registers back if nobody
wrote to the set, whatever else has changed.
-/
theorem createPushToRegSet_roundTrip
    (code : RegSetCode)
    {pos : Nat} {before : State}
    (hosted : code.Hosted pos before) :
    ∃ push pop,
      code.createPushToRegSet = some push ∧
        code.createPopFromRegSet = some pop ∧
          code.Filled pos before (before.run push) ∧
            ∀ later : State, code.Hosted pos later →
              later.gsBase = before.gsBase →
                AgreeOn (code.area pos before).start
                    (code.area pos before).stop later.memory
                    (before.run push).memory →
                  code.Emptied before later (later.run pop) := by
  refine
    ⟨_, _, createPushToRegSet_eq code, createPopFromRegSet_eq code,
      hosted.filled, ?_⟩
  intro later hostedLater sameGs kept
  obtain ⟨same, _, outside⟩ := hosted.run_stores
  have restored := hosted.restored (same.regs (.gpr .rsp)) outside
  rw [restored.memory] at kept
  exact hosted.emptied hostedLater sameGs kept

/-- Code of a scavenger that saves `rdi`, `rbx` and a vector register. -/
def scavengerCode : RegSetCode where
  numbering := YieldPoint.targetNumbering
  regs :=
    .filterValidRegsInPnY fun reg =>
      decide (reg = .gpr .rdi ∨ reg = .gpr .rbx ∨ reg = .xmm 1)
  crtPos := some 4096
  regSetIdx := 2
  skipCtxManage := false

/-- The round trip of that code. -/
theorem scavengerCode_roundTrip :
    ∃ push pop,
      scavengerCode.createPushToRegSet = some push ∧
        scavengerCode.createPopFromRegSet = some pop ∧
          scavengerCode.Filled 1 YieldPoint.scavengerState
              (YieldPoint.scavengerState.run push) ∧
            ∀ later : State, scavengerCode.Hosted 1 later →
              later.gsBase = YieldPoint.scavengerState.gsBase →
                AgreeOn
                    (scavengerCode.area 1 YieldPoint.scavengerState).start
                    (scavengerCode.area 1 YieldPoint.scavengerState).stop
                    later.memory
                    (YieldPoint.scavengerState.run push).memory →
                  scavengerCode.Emptied YieldPoint.scavengerState later
                    (later.run pop) := by
  have crtPos :
      scavengerCode.readCrtPos YieldPoint.scavengerState = some (20 * 1) := by
    decide
  apply createPushToRegSet_roundTrip scavengerCode
  refine ⟨?_, by decide, by decide, .inr (by decide), ?_⟩
  · rw [crtPos]
    exact .scavenger (by decide)
  · intro symbol isSymbol
    cases isSymbol
    exact .inl (by decide)

end RegSetCode

end Msh
