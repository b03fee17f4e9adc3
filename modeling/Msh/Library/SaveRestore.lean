import Mathlib.Algebra.Order.Group.Nat
import Msh.Library.X86

/-!
# Saving registers on the stack

Code that saves registers below the stack pointer comes in two halves.
Between them anything may change but the frame that the first half wrote;
the second half then brings the registers back.  Halves nest: what is saved
last is restored first.
-/

namespace X86

open ByteMemory Function

namespace State

@[simp] theorem gpr_setGpr_self
    (state : State) (reg : Gpr) (value : BitVec 64) :
    (state.setGpr reg value).gpr reg = value :=
  update_self _ _ _

theorem gpr_setGpr_of_ne
    (state : State) {reg other : Gpr} (differ : other ≠ reg)
    (value : BitVec 64) :
    (state.setGpr reg value).gpr other = state.gpr other :=
  update_of_ne differ _ _

@[simp] theorem run_nil (state : State) : state.run [] = state := rfl

@[simp] theorem run_cons (state : State) (instr : Instr)
    (rest : List Instr) :
    state.run (instr :: rest) = (state.exec instr).run rest := rfl

theorem run_append (state : State) (first second : List Instr) :
    state.run (first ++ second) = (state.run first).run second :=
  List.foldl_append

/-- No instruction changes the base of `gs`. -/
theorem exec_gsBase (state : State) (instr : Instr) :
    (state.exec instr).gsBase = state.gsBase := by
  cases instr <;> rfl

theorem run_gsBase (state : State) (instrs : List Instr) :
    (state.run instrs).gsBase = state.gsBase := by
  induction instrs generalizing state with
  | nil => rfl
  | cons instr rest inductionHypothesis =>
      rw [run_cons, inductionHypothesis, exec_gsBase]

/-- Code of which no instruction stores leaves the memory as it is. -/
theorem run_memory (state : State) {instrs : List Instr}
    (loads :
      ∀ instr ∈ instrs, ∀ state : State,
        (state.exec instr).memory = state.memory) :
    (state.run instrs).memory = state.memory := by
  induction instrs generalizing state with
  | nil => rfl
  | cons instr rest inductionHypothesis =>
      rw [run_cons, inductionHypothesis _ fun other member =>
        loads other (List.mem_cons_of_mem _ member)]
      exact loads instr List.mem_cons_self state

/-- An instruction that falls through goes on to the next one. -/
theorem exec_rip (state : State) {instr : Instr}
    (falls : instr.fallsThrough = true) :
    (state.exec instr).rip = state.rip + BitVec.ofNat 64 instr.size := by
  cases instr with
  | jmp64m mem =>
      cases falls
  | _ =>
      rfl

/-- Code without jumps ends after its last byte. -/
theorem run_rip (state : State) {instrs : List Instr}
    (falls : ∀ instr ∈ instrs, instr.fallsThrough = true) :
    (state.run instrs).rip =
      state.rip + BitVec.ofNat 64 (codeSize instrs) := by
  induction instrs generalizing state with
  | nil =>
      exact (BitVec.add_zero _).symm
  | cons instr rest inductionHypothesis =>
      have restFalls : ∀ other ∈ rest, other.fallsThrough = true :=
        fun other inRest => falls other (List.mem_cons_of_mem _ inRest)
      have size :
          codeSize (instr :: rest) = instr.size + codeSize rest := rfl
      rw [run_cons, inductionHypothesis _ restFalls,
        exec_rip state (falls instr List.mem_cons_self), size,
        BitVec.ofNat_add, BitVec.add_assoc]

end State

/-- The frame between two stack pointers is as the saving half left it. -/
structure FrameKept (before saved later : State) : Prop where
  sp : later.gpr .rsp = saved.gpr .rsp
  frame :
    AgreeOn (saved.gpr .rsp).toNat (before.gpr .rsp).toNat
      later.memory saved.memory

/-- The registers are back, and nothing else has changed. -/
structure Restored
    (saved : Reg → Prop) (before later final : State) : Prop where
  sp : final.gpr .rsp = before.gpr .rsp
  back : ∀ reg, saved reg → final.reg reg = before.reg reg
  others :
    ∀ reg, reg ≠ .gpr .rsp → reg ≠ .eflags → ¬ saved reg →
      final.reg reg = later.reg reg
  memory : final.memory = later.memory

/-- Two halves that save registers in a frame of some bytes. -/
structure Saves
    (pushes pops : List Instr) (saved : Reg → Prop) (room : Nat) :
    Prop where
  falls : ∀ instr ∈ pushes, instr.fallsThrough = true
  descends :
    ∀ state : State, room ≤ (state.gpr .rsp).toNat →
      ((state.run pushes).gpr .rsp).toNat = (state.gpr .rsp).toNat - room
  keepsRegs :
    ∀ (state : State) (reg : Reg), reg ≠ .gpr .rsp → reg ≠ .eflags →
      (state.run pushes).reg reg = state.reg reg
  keepsGs : ∀ state : State, (state.run pushes).gsBase = state.gsBase
  keepsMemory :
    ∀ (state : State), room ≤ (state.gpr .rsp).toNat →
      ∀ address,
        address + room < (state.gpr .rsp).toNat ∨
            (state.gpr .rsp).toNat ≤ address →
          (state.run pushes).memory address = state.memory address
  restores :
    ∀ before later : State, room ≤ (before.gpr .rsp).toNat →
      FrameKept before (before.run pushes) later →
        Restored saved before later (later.run pops)

namespace Saves

/-- Saving nothing. -/
theorem nil : Saves [] [] (fun _ => False) 0 where
  falls _ member := nomatch member
  descends _ _ := rfl
  keepsRegs _ _ _ _ := rfl
  keepsGs _ := rfl
  keepsMemory _ _ _ _ := rfl
  restores _ _ _ kept := ⟨kept.sp, fun _ saved => saved.elim,
    fun _ _ _ _ => rfl, rfl⟩

variable {pushes pops pushes' pops' : List Instr}
variable {saved saved' : Reg → Prop} {room room' : Nat}

/-- What is saved last is restored first. -/
theorem append
    (outer : Saves pushes pops saved room)
    (inner : Saves pushes' pops' saved' room')
    (notSp : ¬ saved' (.gpr .rsp)) (notFlags : ¬ saved' .eflags) :
    Saves (pushes ++ pushes') (pops' ++ pops)
      (fun reg => saved reg ∨ saved' reg) (room + room') where
  falls instr member := by
    rcases List.mem_append.mp member with inOuter | inInner
    · exact outer.falls instr inOuter
    · exact inner.falls instr inInner
  descends state fits := by
    have top := outer.descends state (by omega)
    rw [State.run_append, inner.descends _ (by omega)]
    omega
  keepsRegs state reg otherThanSp otherThanFlags := by
    rw [State.run_append,
      inner.keepsRegs _ reg otherThanSp otherThanFlags,
      outer.keepsRegs _ reg otherThanSp otherThanFlags]
  keepsGs state := by
    rw [State.run_append, inner.keepsGs, outer.keepsGs]
  keepsMemory state fits address outside := by
    have top := outer.descends state (by omega)
    rw [State.run_append, inner.keepsMemory _ (by omega) address (by omega),
      outer.keepsMemory _ (by omega) address (by omega)]
  restores before later fits kept := by
    have top := outer.descends before (by omega)
    have bottom := inner.descends (before.run pushes) (by omega)
    rw [State.run_append] at kept
    have innerKept :
        FrameKept (before.run pushes)
          ((before.run pushes).run pushes') later :=
      ⟨kept.sp, kept.frame.mono (Nat.le_refl _) (by omega)⟩
    have inside :=
      inner.restores (before.run pushes) later (by omega) innerKept
    have outerKept :
        FrameKept before (before.run pushes) (later.run pops') := by
      refine ⟨inside.sp, ?_⟩
      rw [inside.memory]
      intro address fromTop belowStart
      rw [kept.frame address (by omega) belowStart]
      exact inner.keepsMemory _ (by omega) address (.inr fromTop)
    have outside :=
      outer.restores before (later.run pops') (by omega) outerKept
    rw [State.run_append]
    refine ⟨outside.sp, ?_, ?_, outside.memory.trans inside.memory⟩
    · intro reg isSaved
      by_cases inOuter : saved reg
      · exact outside.back reg inOuter
      · have inInner := isSaved.resolve_left inOuter
        have otherThanSp : reg ≠ .gpr .rsp := fun isSp =>
          notSp (isSp ▸ inInner)
        have otherThanFlags : reg ≠ .eflags := fun isFlags =>
          notFlags (isFlags ▸ inInner)
        rw [outside.others reg otherThanSp otherThanFlags inOuter,
          inside.back reg inInner,
          outer.keepsRegs before reg otherThanSp otherThanFlags]
    · intro reg otherThanSp otherThanFlags notSaved
      rw [outside.others reg otherThanSp otherThanFlags
          fun inOuter => notSaved (.inl inOuter),
        inside.others reg otherThanSp otherThanFlags
          fun inInner => notSaved (.inr inInner)]

/-- The same registers under another description. -/
theorem congr (saves : Saves pushes pops saved room)
    (same : ∀ reg, saved' reg ↔ saved reg) :
    Saves pushes pops saved' room := by
  have equal : saved' = saved := funext fun reg => propext (same reg)
  rw [equal]
  exact saves

/-- Halves for single registers nest into halves for a list of them. -/
theorem list {Item : Type} {push pop : Item → List Instr}
    {holds : Item → Reg} {size : Item → Nat} {items : List Item}
    (each :
      ∀ item ∈ items,
        Saves (push item) (pop item) (fun reg => reg = holds item)
          (size item))
    (notSp : ∀ item ∈ items, holds item ≠ .gpr .rsp)
    (notFlags : ∀ item ∈ items, holds item ≠ .eflags) :
    Saves (items.flatMap push) (items.reverse.flatMap pop)
      (fun reg => ∃ item ∈ items, reg = holds item)
      (items.map size).sum := by
  induction items with
  | nil =>
      refine Saves.nil.congr fun reg => ⟨?_, False.elim⟩
      intro ⟨item, member, _⟩
      cases member
  | cons item rest inductionHypothesis =>
      have inner :=
        inductionHypothesis
          (fun other inRest => each other (List.mem_cons_of_mem _ inRest))
          (fun other inRest => notSp other (List.mem_cons_of_mem _ inRest))
          (fun other inRest =>
            notFlags other (List.mem_cons_of_mem _ inRest))
      have nested :=
        (each item List.mem_cons_self).append inner
          (fun ⟨other, inRest, isSp⟩ =>
            notSp other (List.mem_cons_of_mem _ inRest) isSp.symm)
          (fun ⟨other, inRest, isFlags⟩ =>
            notFlags other (List.mem_cons_of_mem _ inRest) isFlags.symm)
      have reversed :
          (item :: rest).reverse.flatMap pop =
            rest.reverse.flatMap pop ++ pop item := by
        simp [List.flatMap_append]
      rw [reversed]
      exact nested.congr fun reg => by simp

end Saves

/-- The stack pointer after making room. -/
theorem toNat_sub_room {pointer : BitVec 64} {room : Nat}
    (fits : room ≤ pointer.toNat) :
    (pointer - BitVec.ofNat 64 room).toNat = pointer.toNat - room := by
  have bound := pointer.isLt
  rw [BitVec.toNat_sub, BitVec.toNat_ofNat,
    Nat.mod_eq_of_lt (Nat.lt_of_le_of_lt fits bound)]
  omega

/-- A value is pushed in some bytes below the stack pointer. -/
structure Pushed (count : Nat) (value : BitVec (8 * count))
    (before after : State) : Prop where
  sp : after.gpr .rsp = before.gpr .rsp - BitVec.ofNat 64 count
  gpr : ∀ reg, reg ≠ .rsp → after.gpr reg = before.gpr reg
  xmm : after.xmm = before.xmm
  gsBase : after.gsBase = before.gsBase
  memory :
    after.memory = store count before.memory (after.gpr .rsp).toNat value

/-- A value is taken from the top of the stack. -/
structure Popped (count : Nat) (saved : Reg) (before after : State) :
    Prop where
  sp : after.gpr .rsp = before.gpr .rsp + BitVec.ofNat 64 count
  others :
    ∀ reg, reg ≠ .gpr .rsp → reg ≠ .eflags → reg ≠ saved →
      after.reg reg = before.reg reg
  memory : after.memory = before.memory

/-- Code that pushes the value of a register and code that pops it. -/
theorem saves_of_pushed
    {pushes pops : List Instr} {count : Nat} {saved : Reg}
    (value : State → BitVec (8 * count))
    (falls : ∀ instr ∈ pushes, instr.fallsThrough = true)
    (pushed :
      ∀ state : State, Pushed count (value state) state (state.run pushes))
    (popped : ∀ state : State, Popped count saved state (state.run pops))
    (back :
      ∀ before later : State,
        load count later.memory (later.gpr .rsp).toNat = value before →
          (later.run pops).reg saved = before.reg saved) :
    Saves pushes pops (fun reg => reg = saved) count where
  falls := falls
  descends state fits := by
    rw [(pushed state).sp]
    exact toNat_sub_room fits
  keepsRegs state reg otherThanSp otherThanFlags := by
    cases reg with
    | gpr reg =>
        apply (pushed state).gpr
        intro isSp
        exact otherThanSp (isSp ▸ rfl)
    | xmm index =>
        exact congrFun (pushed state).xmm index
    | eflags =>
        exact absurd rfl otherThanFlags
  keepsGs state := (pushed state).gsBase
  keepsMemory state fits address outside := by
    have top :
        ((state.run pushes).gpr .rsp).toNat =
          (state.gpr .rsp).toNat - count := by
      rw [(pushed state).sp]
      exact toNat_sub_room fits
    rw [(pushed state).memory]
    apply store_of_outside
    omega
  restores before later fits kept := by
    have top :
        ((before.run pushes).gpr .rsp).toNat =
          (before.gpr .rsp).toNat - count := by
      rw [(pushed before).sp]
      exact toNat_sub_room fits
    have onTop :
        load count later.memory (later.gpr .rsp).toNat = value before := by
      have sameLoad :
          load count later.memory ((before.run pushes).gpr .rsp).toNat =
            load count (before.run pushes).memory
              ((before.run pushes).gpr .rsp).toNat :=
        load_congr (kept.frame.mono (Nat.le_refl _) (by omega))
      rw [kept.sp, sameLoad, (pushed before).memory]
      exact load_store before.memory _ _
    refine ⟨?_, ?_, (popped later).others, (popped later).memory⟩
    · rw [(popped later).sp, kept.sp, (pushed before).sp,
        BitVec.sub_add_cancel]
    · intro reg isSaved
      subst isSaved
      exact back before later onTop

/-- Pushing and popping a general register saves it. -/
theorem saves_push64r {gpr : Gpr} (notSp : gpr ≠ .rsp) :
    Saves [.push64r gpr] [.pop64r gpr] (fun reg => reg = .gpr gpr) 8 := by
  apply saves_of_pushed fun state => state.gpr gpr
  · intro instr member
    rw [List.mem_singleton.mp member]
    rfl
  · intro state
    exact ⟨rfl, fun _ other => update_of_ne other _ _, rfl, rfl, rfl⟩
  · intro state
    refine ⟨?_, ?_, rfl⟩
    · exact (State.gpr_setGpr_of_ne _ notSp.symm _).trans
        (state.gpr_setGpr_self .rsp (state.gpr .rsp + 8))
    · intro reg otherThanSp _ notSaved
      cases reg with
      | gpr reg =>
          have differ : reg ≠ .rsp := fun isSp => otherThanSp (isSp ▸ rfl)
          have differ' : reg ≠ gpr := fun isGpr => notSaved (isGpr ▸ rfl)
          exact (State.gpr_setGpr_of_ne _ differ' _).trans
            (state.gpr_setGpr_of_ne differ _)
      | _ =>
          rfl
  · intro before later onTop
    exact (update_self _ _ _).trans onTop

/-- Pushing and popping the flags saves them. -/
theorem saves_pushf64 :
    Saves [.pushf64] [.popf64] (fun reg => reg = .eflags) 8 := by
  apply saves_of_pushed fun state => state.eflags
  · intro instr member
    rw [List.mem_singleton.mp member]
    rfl
  · intro state
    exact ⟨rfl, fun _ other => update_of_ne other _ _, rfl, rfl, rfl⟩
  · intro state
    refine ⟨state.gpr_setGpr_self .rsp (state.gpr .rsp + 8), ?_, rfl⟩
    intro reg otherThanSp otherThanFlags _
    cases reg with
    | gpr reg =>
        have differ : reg ≠ .rsp := fun isSp => otherThanSp (isSp ▸ rfl)
        exact update_of_ne differ _ _
    | xmm index =>
        rfl
    | eflags =>
        exact absurd rfl otherThanFlags
  · intro before later onTop
    exact onTop

/-- A vector register is saved in room made for it on the stack. -/
theorem saves_movupsmr (index : Fin 16) :
    Saves [.sub64ri8 .rsp 16, .movupsmr (.base false .rsp 0) index]
      [.movupsrm index (.base false .rsp 0), .add64ri8 .rsp 16]
      (fun reg => reg = .xmm index) 16 := by
  have atTop : ∀ state : State,
      Mem.address state (.base false .rsp 0) = (state.gpr .rsp).toNat := by
    intro state
    show (0#64 + state.gpr .rsp + 0#64).toNat = (state.gpr .rsp).toNat
    rw [BitVec.zero_add, BitVec.add_zero]
  apply saves_of_pushed fun state => state.xmm index
  · intro instr member
    rcases List.mem_cons.mp member with isSub | isStore
    · rw [isSub]
      rfl
    · rw [List.mem_singleton.mp isStore]
      rfl
  · intro state
    refine ⟨rfl, fun _ other => update_of_ne other _ _, rfl, rfl, ?_⟩
    exact congrArg (store 16 state.memory · (state.xmm index)) (atTop _)
  · intro state
    refine ⟨state.gpr_setGpr_self .rsp (state.gpr .rsp + 16), ?_, rfl⟩
    intro reg otherThanSp otherThanFlags notSaved
    cases reg with
    | gpr reg =>
        have differ : reg ≠ .rsp := fun isSp => otherThanSp (isSp ▸ rfl)
        exact update_of_ne differ _ _
    | xmm other =>
        have differ : other ≠ index := fun isIndex =>
          notSaved (isIndex ▸ rfl)
        exact update_of_ne differ _ _
    | eflags =>
        exact absurd rfl otherThanFlags
  · intro before later onTop
    refine (update_self _ _ _).trans (Eq.trans ?_ onTop)
    exact congrArg (load 16 later.memory) (atTop _)

end X86
