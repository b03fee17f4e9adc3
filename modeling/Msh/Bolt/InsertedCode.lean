import Msh.Bolt.DefaultInstrumenter
import Msh.Library.Dict

namespace Msh

open X86

/-!
# The code that is written

The scanner takes down the live registers of every marked instruction under
the address of its object, and the default instrumenter walks over each block
and inserts a prefetch and a yield before the instruction.  What is written
is the instructions as they were, each behind the code that saves its own
live registers.
-/

/--
An instruction of a function: what the pass sees of it, and what it does,
wherever it lies.  A call is one instruction.
-/
structure SourceInst where
  cm : CMInst
  /-- `(uint64_t) &Inst` while the function is scanned -/
  scanAddr : Nat
  /-- `getStateAt(Inst)` -/
  live : Reg → Bool
  effect : State → State
  /-- The block that control goes to, `none` for the next instruction. -/
  target : State → Option Nat

/-- A function, the objects of its instructions at different addresses. -/
structure SourceFunction where
  blocks : List (List SourceInst)
  /-- What is live where the function is left. -/
  liveOut : Reg → Bool
  apart : (blocks.flatten.map SourceInst.scanAddr).Nodup

/-- An instruction of the function that is written. -/
inductive Item where
  | inserted (instr : Instr)
  | original (inst : SourceInst)

/-- `InstMap`, of whose entries only the registers are read. -/
abbrev InstMap := Dict Nat AliveRegs

/-- `InitialScanner::annotateInst` with `IMHelper::addInstPoint` -/
def SourceInst.addInstPoint (im : InstMap) (inst : SourceInst) : InstMap :=
  match inst.cm.annotateInst inst.live with
  | some regsToSave => im.set inst.scanAddr regsToSave
  | none => im

/-- `PnYSubScanner::scanInst` -/
def SourceFunction.scanInst (fn : SourceFunction) : InstMap :=
  fn.blocks.foldl (fun im bb => bb.foldl SourceInst.addInstPoint im) .empty

/-- What is inserted before an instruction of the function. -/
def SourceInst.inserted (options : PassOptions) (im : InstMap)
    (inst : SourceInst) : Option Inserted :=
  inst.cm.modifyInst options (im.get? inst.scanAddr)

/-- `PnYSubInstrumenter::insertInstructions` -/
def insertInstructions : List Instr → List Item → Nat → List Item × Nat
  | [], bb, iter => (bb, iter)
  | newInst :: rest, bb, iter =>
      insertInstructions rest (bb.insertIdx iter (.inserted newInst))
        (iter + 1)

/-- `DefaultInstrumenter::modifyInst` at a place of a block -/
def modifyInstAt (options : PassOptions) (im : InstMap) (bb : List Item)
    (iter : Nat) : List Item × Nat :=
  match bb[iter]? with
  | some (.original inst) =>
      match inst.inserted options im with
      | some inserted => insertInstructions inserted.code bb iter
      | none => (bb, iter)
  | _ => (bb, iter)

/-- The loop over a block, `none` if it is not over by then. -/
def instrumentBlock (options : PassOptions) (im : InstMap) :
    Nat → List Item → Nat → Option (List Item)
  | 0, bb, iter => if iter = bb.length then some bb else none
  | fuel + 1, bb, iter =>
      if iter = bb.length then some bb
      else
        let modified := modifyInstAt options im bb iter
        instrumentBlock options im fuel modified.1 (modified.2 + 1)

/-- `PnYSubInstrumenter::instrumentInst` -/
def SourceFunction.instrumentInst (fn : SourceFunction)
    (options : PassOptions) : Option (List (List Item)) :=
  fn.blocks.mapM fun bb =>
    instrumentBlock options fn.scanInst bb.length (bb.map .original) 0

/-! The loop writes the inserted code before each instruction. -/

/-- An instruction behind the code that is inserted for it. -/
def SourceInst.items (options : PassOptions) (im : InstMap)
    (inst : SourceInst) : List Item :=
  match inst.inserted options im with
  | some inserted => inserted.code.map .inserted ++ [.original inst]
  | none => [.original inst]

theorem insertIdx_length_append
    (done rest : List Item)
    (item : Item) :
    (done ++ rest).insertIdx done.length item = done ++ item :: rest := by
  induction done with
  | nil => rfl
  | cons first done inductionHypothesis =>
      rw [List.cons_append, List.length_cons, List.insertIdx_succ_cons,
        inductionHypothesis, List.cons_append]

theorem insertInstructions_eq
    (instrs : List Instr)
    (done rest : List Item) :
    insertInstructions instrs (done ++ rest) done.length =
      (done ++ instrs.map Item.inserted ++ rest,
        (done ++ instrs.map Item.inserted).length) := by
  induction instrs generalizing done with
  | nil =>
      rw [insertInstructions, List.map_nil, List.append_nil]
  | cons newInst others inductionHypothesis =>
      have length :
          done.length + 1 = (done ++ [Item.inserted newInst]).length := by
        rw [List.length_append, List.length_singleton]
      rw [insertInstructions, insertIdx_length_append, List.append_cons,
        length, inductionHypothesis, List.map_cons, ← List.append_cons]

/-- One turn of the loop goes on behind the instruction. -/
theorem modifyInstAt_eq
    (options : PassOptions)
    (im : InstMap)
    (done : List Item)
    (inst : SourceInst)
    (rest : List Item) :
    ((modifyInstAt options im (done ++ .original inst :: rest)
        done.length).1 = (done ++ inst.items options im) ++ rest) ∧
      (modifyInstAt options im (done ++ .original inst :: rest)
        done.length).2 + 1 = (done ++ inst.items options im).length := by
  have atIter :
      (done ++ .original inst :: rest)[done.length]? =
        some (.original inst) := by
    rw [List.getElem?_append_right (Nat.le_refl _), Nat.sub_self,
      List.getElem?_cons_zero]
  simp only [modifyInstAt, atIter, SourceInst.items]
  cases inst.inserted options im with
  | none =>
      simp
  | some inserted =>
      simp only [insertInstructions_eq, List.append_assoc, List.length_append,
        List.length_singleton, List.singleton_append, Nat.add_assoc, and_self]

theorem instrumentBlock_eq
    (options : PassOptions)
    (im : InstMap)
    (bb : List SourceInst)
    (done : List Item) :
    instrumentBlock options im bb.length
        (done ++ bb.map .original) done.length =
      some (done ++ bb.flatMap (SourceInst.items options im)) := by
  induction bb generalizing done with
  | nil =>
      rw [List.length_nil, List.map_nil, List.append_nil, instrumentBlock,
        if_pos rfl, List.flatMap_nil, List.append_nil]
  | cons inst rest inductionHypothesis =>
      obtain ⟨items, place⟩ :=
        modifyInstAt_eq options im done inst (rest.map .original)
      have notOver :
          done.length ≠
            (done ++ Item.original inst :: rest.map .original).length := by
        rw [List.length_append, List.length_cons]
        omega
      rw [List.map_cons, List.length_cons, instrumentBlock, if_neg notOver]
      dsimp only
      rw [items, place, inductionHypothesis, List.flatMap_cons,
        List.append_assoc]

/-- The blocks that are written. -/
def SourceFunction.instrumented (fn : SourceFunction)
    (options : PassOptions) : List (List Item) :=
  fn.blocks.map fun bb =>
    bb.flatMap (SourceInst.items options fn.scanInst)

theorem SourceFunction.instrumentInst_eq
    (fn : SourceFunction)
    (options : PassOptions) :
    fn.instrumentInst options = some (fn.instrumented options) := by
  have block (bb : List SourceInst) :=
    instrumentBlock_eq options fn.scanInst bb []
  simp only [List.nil_append, List.length_nil] at block
  simp only [instrumentInst, instrumented, block]
  induction fn.blocks with
  | nil => rfl
  | cons bb rest inductionHypothesis =>
      rw [List.mapM_cons, inductionHypothesis]
      rfl

/-! What is inserted before an instruction saves its own live registers. -/

theorem get?_addInstPoints_of_not_mem
    {insts : List SourceInst}
    {scanAddr : Nat}
    (notScanned : scanAddr ∉ insts.map SourceInst.scanAddr)
    (im : InstMap) :
    (insts.foldl SourceInst.addInstPoint im).get? scanAddr =
      im.get? scanAddr := by
  induction insts generalizing im with
  | nil => rfl
  | cons inst rest inductionHypothesis =>
      rw [List.map_cons, List.mem_cons, not_or] at notScanned
      rw [List.foldl_cons, inductionHypothesis notScanned.2]
      unfold SourceInst.addInstPoint
      split
      · rw [Dict.get?_set, if_neg notScanned.1]
      · rfl

theorem get?_addInstPoints
    {insts : List SourceInst}
    (apart : (insts.map SourceInst.scanAddr).Nodup)
    {inst : SourceInst}
    (member : inst ∈ insts)
    {im : InstMap}
    (notYet : im.get? inst.scanAddr = none) :
    (insts.foldl SourceInst.addInstPoint im).get? inst.scanAddr =
      inst.cm.annotateInst inst.live := by
  induction insts generalizing im with
  | nil => exact absurd member List.not_mem_nil
  | cons first rest inductionHypothesis =>
      obtain ⟨notInRest, restApart⟩ := List.nodup_cons.mp apart
      rw [List.foldl_cons]
      rcases List.mem_cons.mp member with isFirst | inRest
      · subst first
        rw [get?_addInstPoints_of_not_mem notInRest]
        unfold SourceInst.addInstPoint
        split
        · next regsToSave annotated =>
            rw [Dict.get?_set, if_pos rfl, annotated]
        · next notAnnotated =>
            rw [notYet, notAnnotated]
      · refine inductionHypothesis restApart inRest ?_
        have differs : inst.scanAddr ≠ first.scanAddr := by
          intro same
          exact notInRest (same ▸ List.mem_map_of_mem inRest)
        unfold SourceInst.addInstPoint
        split
        · rw [Dict.get?_set, if_neg differs, notYet]
        · exact notYet

namespace SourceFunction

variable {fn : SourceFunction} {options : PassOptions}

theorem inserted_eq
    {inst : SourceInst}
    (member : inst ∈ fn.blocks.flatten) :
    inst.inserted options fn.scanInst =
      inst.cm.modifyInst options (inst.cm.annotateInst inst.live) := by
  rw [SourceInst.inserted, scanInst, ← List.foldl_flatten,
    get?_addInstPoints fn.apart member (Dict.get?_empty _)]

end SourceFunction

end Msh
