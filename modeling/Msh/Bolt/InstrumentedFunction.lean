import Msh.Bolt.InsertedCode
import Msh.Library.TransitionSystem

namespace Msh

open X86 ByteMemory YieldPoint TransitionSystem

/-!
# What the instrumented function computes

A run of the function with the yields is a run of the function as it was,
suspended at the marked instructions only, in which the other coroutines
change nothing but memory outside of its own stack.
-/

/-! A function that runs, before and after the instrumentation. -/

/-- What is left of the block, the state, and what was executed. -/
structure Executing (Code : Type) where
  place : List Code
  state : State
  executed : List SourceInst

/-- Control at the start of a block. -/
def StartsAt {Code : Type} (blocks : List (List Code)) (label : Nat)
    (state : State) (executing : Executing Code) : Prop :=
  executing = ⟨blocks.getD label [], state, []⟩

/-- Where control goes behind an instruction. -/
def nextPlace {Code : Type} (blocks : List (List Code))
    (target : Option Nat) (behind : List Code) : List Code :=
  match target with
  | some label => blocks.getD label []
  | none => behind

inductive RunAction where
  | execute
  | suspend

/--
The function as it was.  It may be suspended at a marked instruction, and the
others then change memory outside of the used part of its stack.
-/
inductive SourceStep (blocks : List (List SourceInst)) (stackTop : Nat) :
    Executing SourceInst → RunAction → Executing SourceInst → Prop where
  | execute {inst : SourceInst} {behind : List SourceInst} {state : State}
      {executed : List SourceInst} :
      SourceStep blocks stackTop
        ⟨inst :: behind, state, executed⟩ .execute
        ⟨nextPlace blocks (inst.target state) behind, inst.effect state,
          executed ++ [inst]⟩
  | suspend {inst : SourceInst} {behind : List SourceInst} {state : State}
      {executed : List SourceInst} {memory : Memory}
      (marked : inst.cm.yieldTarget = true)
      (ownStack :
        AgreeOn (state.gpr .rsp).toNat stackTop memory state.memory) :
      SourceStep blocks stackTop
        ⟨inst :: behind, state, executed⟩ .suspend
        ⟨inst :: behind, { state with memory := memory }, executed⟩

/--
The function that is written.  The inserted code is executed up to its jump,
the others run and come back, and it is executed to its end.
-/
inductive ItemStep (options : PassOptions) (im : InstMap)
    (blocks : List (List Item)) (stackTop : Nat) :
    Executing Item → RunAction → Executing Item → Prop where
  | execute {inst : SourceInst} {behind : List Item} {state : State}
      {executed : List SourceInst} :
      ItemStep options im blocks stackTop
        ⟨.original inst :: behind, state, executed⟩ .execute
        ⟨nextPlace blocks (inst.target state) behind, inst.effect state,
          executed ++ [inst]⟩
  | suspend {inst : SourceInst} {behind : List Item}
      {before later : State} {executed : List SourceInst}
      {inserted : Inserted} {pos : Nat}
      (isInserted : inst.inserted options im = some inserted)
      (hosted : inserted.point.Hosted pos stackTop before)
      (resumed : inserted.Resumed stackTop before later) :
      ItemStep options im blocks stackTop
        ⟨inserted.code.map .inserted ++ .original inst :: behind, before,
          executed⟩ .suspend
        ⟨.original inst :: behind, later.run inserted.point.pops, executed⟩

namespace SourceFunction

variable (fn : SourceFunction)

/-- The registers that are live at a place. -/
def liveAt : List SourceInst → Reg → Bool
  | [] => fn.liveOut
  | inst :: _ => inst.live

/--
Two states are the same for what is left of the function: the live registers
and bytes and the stack pointer are.  The bytes that are live at a place
depend on the stack pointer.
-/
structure Alike (liveBytes : List SourceInst → BitVec 64 → Nat → Prop)
    (place : List SourceInst) (source target : State) : Prop where
  sp : target.gpr .rsp = source.gpr .rsp
  regs :
    ∀ reg, fn.liveAt place reg = true → target.reg reg = source.reg reg
  bytes :
    ∀ address, liveBytes place (source.gpr .rsp) address →
      target.memory address = source.memory address

/-- The analysis: an instruction uses what is live before it, and what is live
behind it depends on nothing else. -/
def Analysed (liveBytes : List SourceInst → BitVec 64 → Nat → Prop) : Prop :=
  ∀ bb ∈ fn.blocks, ∀ inst behind, inst :: behind <:+ bb →
    ∀ source target, fn.Alike liveBytes (inst :: behind) source target →
      inst.target target = inst.target source ∧
        fn.Alike liveBytes
          (nextPlace fn.blocks (inst.target source) behind)
          (inst.effect source) (inst.effect target)

/-- The inserted code keeps the registers that are live where it is inserted. -/
def KeepsLive (options : PassOptions) : Prop :=
  ∀ inst ∈ fn.blocks.flatten, ∀ inserted,
    inst.inserted options fn.scanInst = some inserted →
      ∀ reg, inst.live reg = true → inst.cm.keeps reg

/-- The code of what is left of a block. -/
def itemsOf (options : PassOptions) (place : List SourceInst) : List Item :=
  place.flatMap (SourceInst.items options fn.scanInst)

/-- What is left of a block that is written, before or behind the inserted
code of its first instruction. -/
inductive Written (options : PassOptions) :
    List SourceInst → List Item → Prop where
  | fresh (place : List SourceInst) :
      Written options place (fn.itemsOf options place)
  | resumed (inst : SourceInst) (behind : List SourceInst) :
      Written options (inst :: behind)
        (.original inst :: fn.itemsOf options behind)

end SourceFunction

/-! The coroutine is suspended and comes back. -/

theorem CMInst.yieldTarget_of_modifyInst
    {inst : CMInst} {options : PassOptions} {instPoint : Option AliveRegs}
    {inserted : Inserted}
    (modified : inst.modifyInst options instPoint = some inserted) :
    inst.yieldTarget = true := by
  unfold modifyInst prefetchTarget yieldTarget at modified
  unfold yieldTarget
  cases marked : inst.insertPrefetchAndYield || inst.insertYield with
  | true => rfl
  | false =>
      obtain ⟨notPrefetch, notYield⟩ := Bool.or_eq_false_iff.mp marked
      rw [notPrefetch, notYield] at modified
      split at modified <;> cases modified

/-! The code at a place tells which instruction is next. -/

/-- The first original instruction behind inserted ones is the same one. -/
theorem inserted_append_inj
    {first second : List Instr}
    {inst other : SourceInst}
    {behind otherBehind : List Item}
    (same :
      first.map Item.inserted ++ .original inst :: behind =
        second.map Item.inserted ++ .original other :: otherBehind) :
    first = second ∧ inst = other ∧ behind = otherBehind := by
  induction first generalizing second with
  | nil =>
      cases second with
      | nil =>
          rw [List.map_nil, List.nil_append, List.nil_append] at same
          obtain ⟨sameItem, sameBehind⟩ := List.cons.inj same
          exact ⟨rfl, Item.original.inj sameItem, sameBehind⟩
      | cons instr rest =>
          cases (List.cons.inj same).1
  | cons instr rest inductionHypothesis =>
      cases second with
      | nil =>
          cases (List.cons.inj same).1
      | cons instr' rest' =>
          obtain ⟨sameItem, sameRest⟩ := List.cons.inj same
          obtain ⟨sameInstrs, sameInst, sameBehind⟩ :=
            inductionHypothesis sameRest
          rw [Item.inserted.inj sameItem, sameInstrs]
          exact ⟨rfl, sameInst, sameBehind⟩

/-- The items of an instruction: what is inserted, if anything, and itself. -/
theorem SourceInst.items_eq
    (options : PassOptions)
    (im : InstMap)
    (inst : SourceInst) :
    inst.items options im =
      (((inst.inserted options im).map Inserted.code).getD []).map
        Item.inserted ++ [.original inst] := by
  unfold items
  cases inst.inserted options im <;> rfl

namespace SourceFunction

variable {fn : SourceFunction} {options : PassOptions}

theorem itemsOf_cons (inst : SourceInst) (behind : List SourceInst) :
    fn.itemsOf options (inst :: behind) =
      (((inst.inserted options fn.scanInst).map Inserted.code).getD []).map
        Item.inserted ++ .original inst :: fn.itemsOf options behind := by
  rw [itemsOf, List.flatMap_cons, SourceInst.items_eq, List.append_assoc]
  rfl

/-- Inserted code and the instruction behind it are at a place of it. -/
theorem Written.at_
    {place : List SourceInst}
    {instrs : List Instr}
    {inst : SourceInst}
    {behind : List Item}
    {items : List Item}
    (written : fn.Written options place items)
    (isItems :
      items = instrs.map Item.inserted ++ .original inst :: behind) :
    ∃ sourceBehind,
      place = inst :: sourceBehind ∧
        behind = fn.itemsOf options sourceBehind := by
  cases written with
  | fresh =>
      cases place with
      | nil =>
          exact absurd isItems.symm (by simp [itemsOf])
      | cons first rest =>
          rw [itemsOf_cons] at isItems
          obtain ⟨_, sameInst, sameBehind⟩ := inserted_append_inj isItems
          exact ⟨rest, by rw [sameInst], sameBehind.symm⟩
  | resumed first rest =>
      have isHere :
          ([] : List Instr).map Item.inserted ++
              .original first :: fn.itemsOf options rest =
            instrs.map Item.inserted ++ .original inst :: behind :=
        isItems
      obtain ⟨_, sameInst, sameBehind⟩ := inserted_append_inj isHere
      exact ⟨rest, by rw [sameInst], sameBehind.symm⟩

/-- Control leaves both functions together. -/
theorem Written.isNil_iff
    {place : List SourceInst}
    {items : List Item}
    (written : fn.Written options place items) :
    items = [] ↔ place = [] := by
  cases written with
  | fresh =>
      cases place with
      | nil => simp [itemsOf]
      | cons inst behind => simp [itemsOf_cons]
  | resumed inst behind => simp

theorem getD_instrumented (label : Nat) :
    (fn.instrumented options).getD label [] =
      fn.itemsOf options (fn.blocks.getD label []) := by
  rw [instrumented, List.getD_eq_getElem?_getD, List.getElem?_map,
    List.getD_eq_getElem?_getD]
  cases fn.blocks[label]? <;> rfl

/-- Control goes to the code of the place that it goes to. -/
theorem nextPlace_instrumented
    (target : Option Nat)
    (behind : List SourceInst) :
    nextPlace (fn.instrumented options) target
        (fn.itemsOf options behind) =
      fn.itemsOf options (nextPlace fn.blocks target behind) := by
  cases target with
  | some label => exact getD_instrumented label
  | none => rfl

/-- A place of the function: what is left of one of its blocks. -/
def IsPlace (fn : SourceFunction) (place : List SourceInst) : Prop :=
  ∀ inst behind, place = inst :: behind →
    ∃ bb ∈ fn.blocks, inst :: behind <:+ bb

theorem isPlace_getD (label : Nat) :
    fn.IsPlace (fn.blocks.getD label []) := by
  intro inst behind isPlace
  rw [List.getD_eq_getElem?_getD] at isPlace
  cases isBlock : fn.blocks[label]? with
  | none =>
      rw [isBlock] at isPlace
      exact absurd isPlace.symm (List.cons_ne_nil _ _)
  | some bb =>
      rw [isBlock] at isPlace
      exact ⟨bb, List.mem_of_getElem? isBlock, isPlace ▸ List.suffix_rfl⟩

theorem IsPlace.next
    {inst : SourceInst}
    {behind : List SourceInst}
    (isPlace : fn.IsPlace (inst :: behind))
    (target : Option Nat) :
    fn.IsPlace (nextPlace fn.blocks target behind) := by
  cases target with
  | some label => exact isPlace_getD label
  | none =>
      intro next rest isNext
      obtain ⟨bb, isBlock, suffix⟩ := isPlace inst behind rfl
      refine ⟨bb, isBlock, ?_⟩
      rw [← isNext]
      exact (List.suffix_cons inst behind).trans suffix

/-- A run of the written function stands for a run of the function. -/
structure Stands (fn : SourceFunction) (options : PassOptions)
    (liveBytes : List SourceInst → BitVec 64 → Nat → Prop)
    (target : Executing Item) (source : Executing SourceInst) : Prop where
  isPlace : fn.IsPlace source.place
  executed : source.executed = target.executed
  written : fn.Written options source.place target.place
  alike : fn.Alike liveBytes source.place source.state target.state

namespace Stands

variable {liveBytes : List SourceInst → BitVec 64 → Nat → Prop}
variable {stackTop : Nat} {source : Executing SourceInst}

/-- An instruction does the same in both. -/
theorem execute
    (analysed : fn.Analysed liveBytes)
    {inst : SourceInst} {behind : List Item} {state : State}
    {executed : List SourceInst}
    (stands :
      fn.Stands options liveBytes ⟨.original inst :: behind, state, executed⟩
        source) :
    ∃ next,
      SourceStep fn.blocks stackTop source .execute next ∧
        fn.Stands options liveBytes
          ⟨nextPlace (fn.instrumented options) (inst.target state) behind,
            inst.effect state, executed ++ [inst]⟩
          next := by
  obtain ⟨place, sourceState, sourceExecuted⟩ := source
  obtain ⟨isPlace, sameExecuted, written, alike⟩ := stands
  have isItems :
      Item.original inst :: behind =
        ([] : List Instr).map Item.inserted ++ .original inst :: behind :=
    rfl
  obtain ⟨sourceBehind, rfl, rfl⟩ := written.at_ isItems
  obtain ⟨bb, isBlock, suffix⟩ := isPlace inst sourceBehind rfl
  obtain ⟨sameTarget, alikeNext⟩ :=
    analysed bb isBlock inst sourceBehind suffix _ _ alike
  refine ⟨_, .execute, isPlace.next _, ?_, ?_, alikeNext⟩
  · exact congrArg (· ++ [inst]) sameExecuted
  · rw [nextPlace_instrumented, sameTarget]
    exact .fresh _

/-- What the others do while the written function is suspended, they do while
the function is. -/
theorem suspend
    (keepsLive : fn.KeepsLive options)
    {inst : SourceInst} {behind : List Item} {before later : State}
    {executed : List SourceInst} {inserted : Inserted} {pos : Nat}
    (isInserted : inst.inserted options fn.scanInst = some inserted)
    (hosted : inserted.point.Hosted pos stackTop before)
    (resumed : inserted.Resumed stackTop before later)
    (stands :
      fn.Stands options liveBytes
        ⟨inserted.code.map Item.inserted ++ .original inst :: behind, before,
          executed⟩
        source) :
    ∃ next,
      SourceStep fn.blocks stackTop source .suspend next ∧
        fn.Stands options liveBytes
          ⟨.original inst :: behind, later.run inserted.point.pops, executed⟩
          next := by
  obtain ⟨place, sourceState, sourceExecuted⟩ := source
  obtain ⟨isPlace, sameExecuted, written, alike⟩ := stands
  obtain ⟨sourceBehind, rfl, rfl⟩ := written.at_ rfl
  obtain ⟨bb, isBlock, suffix⟩ := isPlace inst sourceBehind rfl
  have member : inst ∈ fn.blocks.flatten :=
    List.mem_flatten.mpr
      ⟨bb, isBlock, suffix.subset List.mem_cons_self⟩
  have kept := keepsLive inst member inserted isInserted
  rw [inserted_eq member] at isInserted
  have marked := CMInst.yieldTarget_of_modifyInst isInserted
  have back := Inserted.Resumed.back isInserted hosted resumed
  let final := later.run inserted.point.pops
  -- the stack keeps its own bytes, all others are what the others made them
  let memory : Memory := fun address =>
    if (sourceState.gpr .rsp).toNat ≤ address ∧ address < stackTop then
      sourceState.memory address
    else final.memory address
  have ownStack :
      AgreeOn (sourceState.gpr .rsp).toNat stackTop memory
        sourceState.memory := by
    intro address fromSp toTop
    exact if_pos ⟨fromSp, toTop⟩
  refine
    ⟨_, .suspend marked ownStack, isPlace, sameExecuted,
      .resumed inst sourceBehind, back.sp.trans alike.sp, ?_, ?_⟩
  · intro reg isLive
    have regBack := back.regs reg isLive (kept reg isLive)
    refine regBack.trans ((alike.regs reg isLive).trans ?_)
    cases reg <;> rfl
  · intro address isLive
    show final.memory address = memory address
    by_cases own :
        (sourceState.gpr .rsp).toNat ≤ address ∧ address < stackTop
    · have bytesBack := back.ownStack address (alike.sp ▸ own.1) own.2
      rw [ownStack address own.1 own.2]
      exact bytesBack.trans (alike.bytes address isLive)
    · exact (if_neg own).symm

end Stands

/--
The pass writes each instruction behind what `modifyInst` inserts for it and
its own live registers, and this behaves as the function: a run of it
executes what a run of the function executes, in which the others step in at
marked instructions only and leave the used part of its stack alone, and the
live registers and bytes are the same wherever it is.
-/
theorem instrumentInst_refines
    (fn : SourceFunction)
    (options : PassOptions)
    (stackTop : Nat)
    {liveBytes : List SourceInst → BitVec 64 → Nat → Prop}
    (analysed : fn.Analysed liveBytes)
    (keepsLive : fn.KeepsLive options) :
    fn.instrumentInst options = some (fn.instrumented options) ∧
      (∀ inst ∈ fn.blocks.flatten,
        inst.inserted options fn.scanInst =
          inst.cm.modifyInst options (inst.cm.annotateInst inst.live)) ∧
      ∀ label start target,
        Reachable (StartsAt (fn.instrumented options) label start)
            (ItemStep options fn.scanInst (fn.instrumented options) stackTop)
            target →
          ∃ source,
            Reachable (StartsAt fn.blocks label start)
                (SourceStep fn.blocks stackTop) source ∧
              source.executed = target.executed ∧
                fn.Written options source.place target.place ∧
                  fn.Alike liveBytes source.place source.state
                    target.state := by
  refine ⟨fn.instrumentInst_eq options, fun _ => inserted_eq, ?_⟩
  intro label start target reachable
  have starts : ∀ target : Executing Item,
      StartsAt (fn.instrumented options) label start target →
        ∃ source : Executing SourceInst,
          StartsAt fn.blocks label start source ∧
            fn.Stands options liveBytes target source := by
    intro target isStart
    subst isStart
    refine ⟨_, rfl, isPlace_getD label, rfl, ?_, rfl, ?_, ?_⟩
    · rw [getD_instrumented]
      exact .fresh _
    · intro reg _
      rfl
    · intro address _
      rfl
  have steps : ∀ before action after source,
      Reachable (StartsAt fn.blocks label start)
          (SourceStep fn.blocks stackTop) source →
        fn.Stands options liveBytes before source →
          ItemStep options fn.scanInst (fn.instrumented options) stackTop
              before action after →
            fn.Stands options liveBytes after source ∨
              ∃ sourceAction next,
                SourceStep fn.blocks stackTop source sourceAction next ∧
                  fn.Stands options liveBytes after next := by
    intro before action after source _ stands taken
    cases taken with
    | execute =>
        obtain ⟨next, sourceTaken, nextStands⟩ := stands.execute analysed
        exact .inr ⟨_, next, sourceTaken, nextStands⟩
    | suspend isInserted hosted resumed =>
        obtain ⟨next, sourceTaken, nextStands⟩ :=
          stands.suspend keepsLive isInserted hosted resumed
        exact .inr ⟨_, next, sourceTaken, nextStands⟩
  obtain ⟨source, sourceReachable, stands⟩ :=
    reachable.simulated starts steps
  exact
    ⟨source, sourceReachable, stands.executed, stands.written, stands.alike⟩

end SourceFunction

/-- A load that is marked for a yield, counting up its register. -/
def countingLoad : SourceInst where
  cm := markedLoad
  scanAddr := 64
  live reg := decide (reg = .gpr .rax)
  effect state := state.setGpr .rax (state.gpr .rax + 1)
  target _ := none

def loadFunction : SourceFunction where
  blocks := [[countingLoad]]
  liveOut reg := decide (reg = .gpr .rax)
  apart := by decide

/-- What is inserted before the load. -/
def insertedAtCountingLoad : Inserted where
  prefetch := []
  point :=
    { numbering := targetNumbering
      aliveRegs := .filterValidRegsInPnY countingLoad.live
      isCB := false
      crtPos := some 4096
      retFloat := true
      isNormalYield := false }

/-- The scavenger comes back, its registers changed. -/
def resumedAtCountingLoad : State where
  gpr reg :=
    if reg = .rsp then insertedAtCountingLoad.point.savedSp scavengerState
    else 0
  xmm _ := 0
  eflags := 0
  rip :=
    scavengerState.rip +
      BitVec.ofNat 64 (codeSize insertedAtCountingLoad.upToJump)
  gsBase := 65536
  memory := (scavengerState.run insertedAtCountingLoad.upToJump).memory

/-- No byte is live. -/
def noBytes (_ : List SourceInst) (_ : BitVec 64) (_ : Nat) : Prop := False

theorem loadFunction_analysed : loadFunction.Analysed noBytes := by
  intro bb isBlock inst behind suffix source target alike
  obtain rfl := List.mem_singleton.mp isBlock
  rcases List.suffix_cons_iff.mp suffix with isAll | inNil
  · obtain ⟨rfl, rfl⟩ := List.cons.inj isAll
    have sameRax : target.gpr .rax = source.gpr .rax :=
      alike.regs (.gpr .rax) rfl
    refine ⟨rfl, alike.sp, ?_, ?_⟩
    · intro reg isLive
      obtain rfl := of_decide_eq_true isLive
      exact congrArg (· + 1) sameRax
    · intro address isLive
      exact isLive.elim
  · exact absurd (List.suffix_nil.mp inNil) (List.cons_ne_nil _ _)

theorem loadFunction_keepsLive :
    loadFunction.KeepsLive scavengerOptions := by
  intro inst member inserted _ reg isLive
  obtain rfl := List.mem_singleton.mp member
  obtain rfl := of_decide_eq_true isLive
  exact trivial

/-- The load is executed, after the yield. -/
theorem loadFunction_executes :
    Reachable
      (StartsAt (loadFunction.instrumented scavengerOptions) 0
        scavengerState)
      (ItemStep scavengerOptions loadFunction.scanInst
        (loadFunction.instrumented scavengerOptions) 16384)
      ⟨[],
        countingLoad.effect
          (resumedAtCountingLoad.run insertedAtCountingLoad.point.pops),
        [countingLoad]⟩ := by
  have hosted :
      insertedAtCountingLoad.point.Hosted 1 16384 scavengerState := by
    have crtPos :
        insertedAtCountingLoad.point.readCrtPos scavengerState =
          some (20 * 1) := by
      decide
    refine ⟨?_, by decide, by decide, by decide, by decide, ?_⟩
    · rw [crtPos]
      exact .scavenger (by decide)
    · intro symbol isSymbol
      cases isSymbol
      decide
  have resumed :
      insertedAtCountingLoad.Resumed 16384 scavengerState
        resumedAtCountingLoad :=
    ⟨rfl, rfl, .refl _⟩
  have start :
      Reachable
        (StartsAt (loadFunction.instrumented scavengerOptions) 0
          scavengerState)
        (ItemStep scavengerOptions loadFunction.scanInst
          (loadFunction.instrumented scavengerOptions) 16384)
        ⟨insertedAtCountingLoad.code.map Item.inserted ++
            [.original countingLoad], scavengerState, []⟩ :=
    .start rfl
  exact
    (start.step (.suspend rfl hosted resumed)).step .execute

theorem instrumentInst_refines_load :
    ∃ source,
      Reachable (StartsAt loadFunction.blocks 0 scavengerState)
          (SourceStep loadFunction.blocks 16384) source ∧
        source.executed = [countingLoad] ∧
          (countingLoad.effect
              (resumedAtCountingLoad.run
                insertedAtCountingLoad.point.pops)).gpr .rax =
            source.state.gpr .rax := by
  obtain ⟨_, _, refines⟩ :=
    SourceFunction.instrumentInst_refines loadFunction scavengerOptions 16384
      loadFunction_analysed loadFunction_keepsLive
  obtain ⟨source, sourceReachable, sameExecuted, written, alike⟩ :=
    refines 0 scavengerState _ loadFunction_executes
  refine ⟨source, sourceReachable, sameExecuted, alike.regs (.gpr .rax) ?_⟩
  rw [written.isNil_iff.mp rfl]
  rfl

end Msh
