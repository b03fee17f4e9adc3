import Mathlib.Logic.Function.Basic
import Msh.Library.ByteMemory

/-!
# A subset of x86-64

The registers, the memory and the straight-line instructions that a context
switch is made of, with the lengths of their encodings.
-/

namespace X86

open ByteMemory Function

/-- The 64-bit general registers. -/
inductive Gpr where
  | rax | rbx | rcx | rdx | rsi | rdi | rbp | rsp
  | r8 | r9 | r10 | r11 | r12 | r13 | r14 | r15
  deriving DecidableEq, Repr

/-- The registers that instructions compute with. -/
inductive Reg where
  | gpr (reg : Gpr)
  | xmm (index : Fin 16)
  | eflags
  deriving DecidableEq, Repr

/-- Vector registers may be written as numerals. -/
instance neZeroVectorRegisters : NeZero 16 := ⟨by decide⟩

/-- The bits of a register. -/
abbrev Reg.width : Reg → Nat
  | .xmm _ => 128
  | _ => 64

/-- The state of one hardware thread. -/
structure State where
  gpr : Gpr → BitVec 64
  xmm : Fin 16 → BitVec 128
  eflags : BitVec 64
  rip : BitVec 64
  gsBase : BitVec 64
  memory : Memory

/-- A memory operand: a base register, or a symbol addressed through `rip`. -/
inductive Mem where
  | base (gs : Bool) (reg : Gpr) (disp : BitVec 64)
  | symbol (address : BitVec 64)
  deriving DecidableEq, Repr

/--
The instructions, under their assembler opcodes.  A prefetch changes no
register and no memory, so only its length is kept.
-/
inductive Instr where
  | push64r (reg : Gpr)
  | pop64r (reg : Gpr)
  | pushf64
  | popf64
  | sub64ri8 (reg : Gpr) (imm : BitVec 8)
  | add64ri8 (reg : Gpr) (imm : BitVec 8)
  | xor64rr (reg other : Gpr)
  | imul64rri32 (reg other : Gpr) (imm : BitVec 32)
  | mov64mr (mem : Mem) (reg : Gpr)
  | mov64rm (reg : Gpr) (mem : Mem)
  | mov32rm (reg : Gpr) (mem : Mem)
  | mov16rm (reg : Gpr) (mem : Mem)
  | movupsmr (mem : Mem) (index : Fin 16)
  | movupsrm (index : Fin 16) (mem : Mem)
  | lea64r (reg : Gpr) (disp : BitVec 64)
  | jmp64m (mem : Mem)
  | prefetcht0 (size : Nat)
  deriving DecidableEq, Repr

/-- Whether encoding a register takes a bit of the `REX` prefix. -/
def Gpr.extended : Gpr → Bool
  | .r8 | .r9 | .r10 | .r11 | .r12 | .r13 | .r14 | .r15 => true
  | _ => false

/-- The bytes of a displacement; `rbp` and `r13` cannot go without one. -/
def dispSize (reg : Gpr) (disp : BitVec 64) : Nat :=
  if disp = 0 ∧ reg ≠ .rbp ∧ reg ≠ .r13 then 0
  else if -128 ≤ disp.toInt ∧ disp.toInt < 128 then 1
  else 4

namespace Mem

/-- The bytes of the segment prefix. -/
def prefixSize : Mem → Nat
  | .base true _ _ => 1
  | _ => 0

/-- The bytes of the addressing form, and of what follows it. -/
def formSize : Mem → Nat
  | .base _ reg disp =>
      1 + (if reg = .rsp ∨ reg = .r12 then 1 else 0) + dispSize reg disp
  | .symbol _ => 5

/-- Whether the base takes a bit of the `REX` prefix. -/
def extended : Mem → Bool
  | .base _ reg _ => reg.extended
  | .symbol _ => false

/-- The address of a memory operand. -/
def address (state : State) : Mem → Nat
  | .base gs reg disp =>
      ((if gs then state.gsBase else 0) + state.gpr reg + disp).toNat
  | .symbol address => address.toNat

end Mem

/-- The length of an instruction's encoding. -/
def Instr.size : Instr → Nat
  | .push64r reg | .pop64r reg => 1 + reg.extended.toNat
  | .pushf64 | .popf64 => 1
  | .sub64ri8 _ _ | .add64ri8 _ _ => 4
  | .xor64rr _ _ => 3
  | .imul64rri32 _ _ _ => 7
  | .mov64mr mem _ | .mov64rm _ mem => mem.prefixSize + 2 + mem.formSize
  | .mov32rm reg mem =>
      mem.prefixSize + (reg.extended || mem.extended).toNat + 1 + mem.formSize
  | .mov16rm reg mem =>
      mem.prefixSize + 1 + (reg.extended || mem.extended).toNat + 1 +
        mem.formSize
  | .movupsmr mem index | .movupsrm index mem =>
      mem.prefixSize + (decide (8 ≤ index.val) || mem.extended).toNat + 2 +
        mem.formSize
  | .lea64r _ _ => 7
  | .jmp64m mem =>
      mem.prefixSize + mem.extended.toNat + 1 + mem.formSize
  | .prefetcht0 size => size

/-- The length of a sequence of instructions. -/
def codeSize (instrs : List Instr) : Nat :=
  (instrs.map Instr.size).sum

/-- Whether an instruction continues with the next one. -/
def Instr.fallsThrough : Instr → Bool
  | .jmp64m _ => false
  | _ => true

/--
The flags after an arithmetic instruction.  What the architecture leaves
undefined is cleared.
-/
def statusFlags
    (flags result : BitVec 64) (carry adjust overflow : Bool) : BitVec 64 :=
  let parity :=
    (List.range 8).countP (fun bit => result.getLsbD bit) % 2 == 0
  (flags &&& ~~~ 0x8d5) |||
    (if carry then 0x1 else 0) ||| (if parity then 0x4 else 0) |||
    (if adjust then 0x10 else 0) ||| (if result == 0 then 0x40 else 0) |||
    (if result.msb then 0x80 else 0) ||| (if overflow then 0x800 else 0)

namespace State

/-- The value of a register. -/
def reg (state : State) : (reg : Reg) → BitVec reg.width
  | .gpr reg => state.gpr reg
  | .xmm index => state.xmm index
  | .eflags => state.eflags

/-- Write a general register. -/
def setGpr (state : State) (reg : Gpr) (value : BitVec 64) : State :=
  { state with gpr := update state.gpr reg value }

/-- Push a value on the stack. -/
def push (state : State) (value : BitVec 64) : State :=
  let top := state.gpr .rsp - 8
  { state.setGpr .rsp top with
    memory := store 8 state.memory top.toNat value }

/-- The value on top of the stack. -/
def top (state : State) : BitVec 64 :=
  load 8 state.memory (state.gpr .rsp).toNat

/-- Drop the value on top of the stack. -/
def drop (state : State) : State :=
  state.setGpr .rsp (state.gpr .rsp + 8)

/-- Subtract an immediate. -/
def subImm (state : State) (reg : Gpr) (imm : BitVec 8) : State :=
  let left := state.gpr reg
  let right := imm.signExtend 64
  let result := left - right
  { state.setGpr reg result with
    eflags :=
      statusFlags state.eflags result (left.ult right)
        ((left &&& 0xf).ult (right &&& 0xf)) (left.ssubOverflow right) }

/-- Add an immediate. -/
def addImm (state : State) (reg : Gpr) (imm : BitVec 8) : State :=
  let left := state.gpr reg
  let right := imm.signExtend 64
  let result := left + right
  { state.setGpr reg result with
    eflags :=
      statusFlags state.eflags result (result.ult left)
        ((result &&& 0xf).ult (left &&& 0xf)) (left.saddOverflow right) }

/-- What an instruction does besides going on to the next one. -/
def effect (state : State) : Instr → State
  | .push64r reg => state.push (state.gpr reg)
  | .pop64r reg => state.drop.setGpr reg state.top
  | .pushf64 => state.push state.eflags
  | .popf64 => { state.drop with eflags := state.top }
  | .sub64ri8 reg imm => state.subImm reg imm
  | .add64ri8 reg imm => state.addImm reg imm
  | .xor64rr reg other =>
      let result := state.gpr reg ^^^ state.gpr other
      { state.setGpr reg result with
        eflags := statusFlags state.eflags result false false false }
  | .imul64rri32 reg other imm =>
      let result := state.gpr other * imm.signExtend 64
      let overflow := (state.gpr other).smulOverflow (imm.signExtend 64)
      { state.setGpr reg result with
        eflags := statusFlags state.eflags result overflow false overflow }
  | .mov64mr mem reg =>
      { state with
        memory := store 8 state.memory (mem.address state) (state.gpr reg) }
  | .mov64rm reg mem =>
      state.setGpr reg (load 8 state.memory (mem.address state))
  | .mov32rm reg mem =>
      -- the upper half of the register is cleared
      let value : BitVec 32 := load 4 state.memory (mem.address state)
      state.setGpr reg (value.setWidth 64)
  | .mov16rm reg mem =>
      -- the upper bits of the register stay
      let value : BitVec 16 := load 2 state.memory (mem.address state)
      state.setGpr reg ((state.gpr reg).extractLsb' 16 48 ++ value)
  | .movupsmr mem index =>
      { state with
        memory :=
          store 16 state.memory (mem.address state) (state.xmm index) }
  | .movupsrm index mem =>
      { state with
        xmm :=
          update state.xmm index (load 16 state.memory (mem.address state)) }
  | .lea64r reg disp =>
      -- relative to the next instruction, where `exec` has put `rip`
      state.setGpr reg (state.rip + disp)
  | .jmp64m mem =>
      { state with rip := load 8 state.memory (mem.address state) }
  | .prefetcht0 _ => state

/-- Execute one instruction. -/
def exec (state : State) (instr : Instr) : State :=
  ({ state with rip := state.rip + BitVec.ofNat 64 instr.size }).effect instr

/-- Execute a sequence of instructions. -/
def run (state : State) (instrs : List Instr) : State :=
  instrs.foldl exec state

end State

end X86
