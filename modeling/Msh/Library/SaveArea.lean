import Msh.Library.SaveRestore

/-!
# Saving registers in an area of memory

Registers are stored one after the other, each at its own memory operand, and
loaded from there later.  A register that an operand is based on may be among
them, if the value that is loaded into it is the one it has.
-/

namespace X86

open ByteMemory StructLayout Function

/-- The bytes that a register takes in memory. -/
def Reg.bytes : Reg → Nat
  | .xmm _ => 16
  | _ => 8

/-- Store a register; there is no instruction for the flags. -/
def Reg.storeTo (mem : Mem) : Reg → List Instr
  | .gpr reg => [.mov64mr mem reg]
  | .xmm index => [.movupsmr mem index]
  | .eflags => []

/-- Load a register. -/
def Reg.loadFrom (mem : Mem) : Reg → List Instr
  | .gpr reg => [.mov64rm reg mem]
  | .xmm index => [.movupsrm index mem]
  | .eflags => []

/-- The range of a register's operand. -/
def Mem.slot (mem : Mem) (state : State) (reg : Reg) : Extent :=
  ⟨mem.address state, reg.bytes⟩

/-- A range has the value of a register. -/
def HoldsReg (memory : Memory) (address : Nat) (state : State) : Reg → Prop
  | .gpr reg => load 8 memory address = state.gpr reg
  | .xmm index => load 16 memory address = state.xmm index
  | .eflags => True

theorem HoldsReg.congr
    {memory memory' : Memory} {address : Nat} {state : State} {reg : Reg}
    (holds : HoldsReg memory address state reg)
    (same : AgreeOn address (address + reg.bytes) memory' memory) :
    HoldsReg memory' address state reg := by
  cases reg with
  | gpr reg => exact (load_congr same).trans holds
  | xmm index => exact (load_congr same).trans holds
  | eflags => trivial

/-- The registers, and where `gs` points, are the same. -/
structure SameRegs (state state' : State) : Prop where
  regs : ∀ reg, state'.reg reg = state.reg reg
  gsBase : state'.gsBase = state.gsBase

namespace SameRegs

variable {state state' state'' : State}

theorem trans (first : SameRegs state state')
    (second : SameRegs state' state'') : SameRegs state state'' :=
  ⟨fun reg => (second.regs reg).trans (first.regs reg),
    second.gsBase.trans first.gsBase⟩

theorem address_eq (same : SameRegs state state') (mem : Mem) :
    mem.address state' = mem.address state := by
  cases mem with
  | base gs reg disp =>
      have sameReg : state'.gpr reg = state.gpr reg := same.regs (.gpr reg)
      simp only [Mem.address, same.gsBase, sameReg]
  | symbol address => rfl

theorem holdsReg_iff (same : SameRegs state state') {memory : Memory}
    {address : Nat} {reg : Reg} :
    HoldsReg memory address state' reg ↔ HoldsReg memory address state reg := by
  cases reg with
  | gpr reg =>
      have sameReg : state'.gpr reg = state.gpr reg := same.regs (.gpr reg)
      simp only [HoldsReg, sameReg]
  | xmm index =>
      have sameReg : state'.xmm index = state.xmm index :=
        same.regs (.xmm index)
      simp only [HoldsReg, sameReg]
  | eflags => exact Iff.rfl

end SameRegs

/-- What one store does. -/
theorem run_storeTo (state : State) (mem : Mem) (reg : Reg) :
    SameRegs state (state.run (reg.storeTo mem)) ∧
      HoldsReg (state.run (reg.storeTo mem)).memory (mem.address state) state
          reg ∧
        ∀ address,
          address < (mem.slot state reg).start ∨
              (mem.slot state reg).stop ≤ address →
            (state.run (reg.storeTo mem)).memory address =
              state.memory address := by
  cases reg with
  | gpr reg =>
      refine ⟨⟨fun other => ?_, rfl⟩, load_store _ _ _, fun address out => ?_⟩
      · cases other <;> rfl
      · exact store_of_outside _ _ out
  | xmm index =>
      refine ⟨⟨fun other => ?_, rfl⟩, load_store _ _ _, fun address out => ?_⟩
      · cases other <;> rfl
      · exact store_of_outside _ _ out
  | eflags =>
      exact ⟨⟨fun _ => rfl, rfl⟩, trivial, fun _ _ => rfl⟩

/-- Stores to ranges that are apart. -/
theorem run_stores
    (state : State)
    (mem : Reg → Mem)
    {regs : List Reg}
    (apart :
      ∀ reg ∈ regs, ∀ other ∈ regs, reg ≠ other →
        ((mem reg).slot state reg).Apart ((mem other).slot state other)) :
    let after := state.run (regs.flatMap fun reg => reg.storeTo (mem reg))
    SameRegs state after ∧
      (∀ reg ∈ regs,
        HoldsReg after.memory ((mem reg).address state) state reg) ∧
        ∀ address,
          (∀ reg ∈ regs,
            address < ((mem reg).slot state reg).start ∨
              ((mem reg).slot state reg).stop ≤ address) →
            after.memory address = state.memory address := by
  induction regs generalizing state with
  | nil =>
      refine ⟨⟨fun _ => rfl, rfl⟩, ?_, fun _ _ => rfl⟩
      intro reg member
      exact absurd member List.not_mem_nil
  | cons first rest inductionHypothesis =>
      obtain ⟨same, held, outside⟩ := run_storeTo state (mem first) first
      have slots (reg : Reg) :
          (mem reg).slot (state.run (first.storeTo (mem first))) reg =
            (mem reg).slot state reg := by
        unfold Mem.slot
        rw [same.address_eq]
      have restApart :
          ∀ reg ∈ rest, ∀ other ∈ rest, reg ≠ other →
            ((mem reg).slot (state.run (first.storeTo (mem first)))
                reg).Apart
              ((mem other).slot (state.run (first.storeTo (mem first)))
                other) := by
        intro reg inRest other otherInRest differ
        rw [slots, slots]
        exact apart reg (List.mem_cons_of_mem _ inRest) other
          (List.mem_cons_of_mem _ otherInRest) differ
      obtain ⟨restSame, restHeld, restOutside⟩ :=
        inductionHypothesis _ restApart
      simp only [slots] at restOutside
      rw [List.flatMap_cons]
      simp only [State.run_append]
      refine ⟨same.trans restSame, ?_, ?_⟩
      · intro reg member
        by_cases inRest : reg ∈ rest
        · have stored := restHeld reg inRest
          rw [same.address_eq, same.holdsReg_iff] at stored
          exact stored
        · obtain rfl : reg = first :=
            (List.mem_cons.mp member).resolve_right inRest
          refine held.congr fun address fromStart beforeStop => ?_
          refine restOutside address fun other otherInRest => ?_
          have differ : reg ≠ other := by
            intro isOther
            exact inRest (isOther ▸ otherInRest)
          have away :=
            apart reg List.mem_cons_self other
              (List.mem_cons_of_mem _ otherInRest) differ
          unfold Extent.Apart Extent.stop Mem.slot at *
          dsimp only at *
          omega
      · intro address out
        rw [restOutside address fun reg inRest =>
            out reg (List.mem_cons_of_mem _ inRest),
          outside address (out first List.mem_cons_self)]

/-- What one load does. -/
theorem run_loadFrom (state : State) (mem : Mem) (reg : Reg) :
    (∀ other, other ≠ reg →
        (state.run (reg.loadFrom mem)).reg other = state.reg other) ∧
      (state.run (reg.loadFrom mem)).gsBase = state.gsBase ∧
        (state.run (reg.loadFrom mem)).memory = state.memory ∧
          ∀ source : State, reg ≠ .eflags →
            HoldsReg state.memory (mem.address state) source reg →
              (state.run (reg.loadFrom mem)).reg reg = source.reg reg := by
  cases reg with
  | gpr reg =>
      refine ⟨fun other differ => ?_, rfl, rfl, fun source _ holds => ?_⟩
      · cases other with
        | gpr other =>
            exact update_of_ne (fun same => differ (congrArg _ same)) _ _
        | xmm index => rfl
        | eflags => rfl
      · exact (update_self _ _ _).trans holds
  | xmm index =>
      refine ⟨fun other differ => ?_, rfl, rfl, fun source _ holds => ?_⟩
      · cases other with
        | gpr other => rfl
        | xmm other =>
            exact update_of_ne (fun same => differ (congrArg _ same)) _ _
        | eflags => rfl
      · exact (update_self _ _ _).trans holds
  | eflags =>
      refine ⟨fun _ _ => rfl, rfl, rfl, fun source notFlags _ => ?_⟩
      exact absurd rfl notFlags

/-- Loads through one register, which may be loaded as well. -/
theorem run_loads
    (state source : State)
    {mem : Reg → Mem}
    {base : Gpr}
    (based : ∀ reg, ∃ gs disp, mem reg = .base gs base disp)
    (sameBase : source.gpr base = state.gpr base)
    {regs : List Reg}
    (held :
      ∀ reg ∈ regs,
        HoldsReg state.memory ((mem reg).address state) source reg) :
    let after := state.run (regs.flatMap fun reg => reg.loadFrom (mem reg))
    (∀ reg ∈ regs, reg ≠ .eflags → after.reg reg = source.reg reg) ∧
      (∀ reg, reg ∉ regs → after.reg reg = state.reg reg) ∧
        after.gsBase = state.gsBase ∧ after.memory = state.memory := by
  induction regs generalizing state with
  | nil =>
      refine ⟨?_, fun _ _ => rfl, rfl, rfl⟩
      intro reg member
      exact absurd member List.not_mem_nil
  | cons first rest inductionHypothesis =>
      obtain ⟨others, sameGs, sameMemory, loaded⟩ :=
        run_loadFrom state (mem first) first
      have firstLoaded (notFlags : first ≠ .eflags) :=
        loaded source notFlags (held first List.mem_cons_self)
      have baseKept :
          (state.run (first.loadFrom (mem first))).gpr base =
            state.gpr base := by
        by_cases isBase : first = .gpr base
        · subst isBase
          exact (firstLoaded Reg.noConfusion).trans sameBase
        · exact others (.gpr base) (Ne.symm isBase)
      have addresses (reg : Reg) :
          (mem reg).address (state.run (first.loadFrom (mem first))) =
            (mem reg).address state := by
        obtain ⟨gs, disp, isBased⟩ := based reg
        rw [isBased]
        simp only [Mem.address, sameGs, baseKept]
      have restHeld : ∀ reg ∈ rest,
          HoldsReg (state.run (first.loadFrom (mem first))).memory
            ((mem reg).address (state.run (first.loadFrom (mem first))))
            source reg := by
        intro reg inRest
        rw [sameMemory, addresses]
        exact held reg (List.mem_cons_of_mem _ inRest)
      obtain ⟨restLoaded, restOthers, restGs, restMemory⟩ :=
        inductionHypothesis _ (sameBase.trans baseKept.symm) restHeld
      rw [List.flatMap_cons]
      simp only [State.run_append]
      refine
        ⟨?_, ?_, restGs.trans sameGs, restMemory.trans sameMemory⟩
      · intro reg member notFlags
        by_cases inRest : reg ∈ rest
        · exact restLoaded reg inRest notFlags
        · obtain rfl : reg = first :=
            (List.mem_cons.mp member).resolve_right inRest
          exact (restOthers reg inRest).trans (firstLoaded notFlags)
      · intro reg notMember
        rw [List.mem_cons, not_or] at notMember
        exact (restOthers reg notMember.2).trans (others reg notMember.1)

/-- Code between two halves that save registers. -/
theorem Saves.around
    {pushes pops : List Instr} {saved : Reg → Prop} {room : Nat}
    (saves : Saves pushes pops saved room)
    {before : State} {middle : List Instr}
    (fits : room ≤ (before.gpr .rsp).toNat)
    (kept :
      FrameKept before (before.run pushes)
        ((before.run pushes).run middle)) :
    Restored saved before ((before.run pushes).run middle)
      (before.run (pushes ++ middle ++ pops)) := by
  rw [State.run_append, State.run_append]
  exact saves.restores before _ fits kept

end X86
