import Mathlib.Algebra.GroupWithZero.Nat
import Mathlib.Data.List.Induction
import Msh.Library.StackSearch

/-!
# Where the next context is prefetched

`PrefetchCrtCtxScanner` goes back from a yield over predecessors, until it has
come to a block with a mark, to a call, or over more than ten instructions.
It keeps no record of the blocks it has been to: the search ends because
blocks are not empty.  The size of the first block on the way is never counted,
and the instruction behind a call need not be in the block.
-/

namespace Msh.PrefetchCrtCtxScanner

open StackSearch

/-- What the scanner reads of an instruction -/
structure MCInst where
  isCall : Bool
  insertPrefetchContext : Bool
  insertPrefetchAndYield : Bool
  insertYield : Bool
  deriving DecidableEq, Repr

/-- The instruction has one of the annotations. -/
def MCInst.isMarked (inst : MCInst) : Bool :=
  inst.insertPrefetchContext || inst.insertPrefetchAndYield || inst.insertYield

/-- A function and the instruction in it that `annotateInst` is called for;
instructions are known by their positions in their blocks. -/
structure YieldPoint (Block : Type) where
  instructions : Block → List MCInst
  predecessors : Block → List Block
  nonempty : ∀ block, instructions block ≠ []
  block : Block
  position : Nat
  isYield : ∃ inst, (instructions block)[position]? = some inst ∧
    (inst.insertPrefetchAndYield || inst.insertYield) = true

/-- `FirstElement`, and where `InsertPrefetchContext` has been added -/
structure Annotations (Block : Type) where
  firstElement : Bool
  added : List (Block × Nat)
  deriving DecidableEq

namespace YieldPoint

variable {Block : Type} [DecidableEq Block] (point : YieldPoint Block)

/-- `Threshold` -/
def threshold : Nat := 10

/-- `BB->size()` -/
def size (block : Block) : Nat := (point.instructions block).length

/-- `hasCall`: the position of the last call in a block -/
def hasCall (block : Block) : Option Nat :=
  (point.instructions block).zipIdx.foldl
    (fun found inst => if inst.1.isCall then some inst.2 else found) none

/-- `hasAnnotation` for some instruction of the block -/
def isAnnotated (annotations : Annotations Block) (block : Block) : Bool :=
  (point.instructions block).any MCInst.isMarked ||
    annotations.added.any fun spot => spot.1 = block

/-- `addAnnotation` at a position, which must be one of an instruction -/
def annotate (annotations : Annotations Block) (block : Block)
    (position : Nat) : Option (Annotations Block) :=
  if position < point.size block then
    some { annotations with added := annotations.added ++ [(block, position)] }
  else none

/-- What the loop of `annotateInst` does with the top of the stack, a block and
the number of instructions up to it -/
def visit (top : Block × Nat) (annotations : Annotations Block) :
    Option (List (Block × Nat) × Annotations Block) :=
  if top.1 = point.block ∧ annotations.firstElement = false then
    some ([], annotations)
  else
    let annotations := { annotations with firstElement := false }
    if point.isAnnotated annotations top.1 then some ([], annotations)
    else
      match point.hasCall top.1 with
      | some call =>
          (point.annotate annotations top.1 (call + 1)).map ([], ·)
      | none =>
          if threshold < top.2 then
            (point.annotate annotations top.1 0).map ([], ·)
          else
            some
              (((point.predecessors top.1).map fun pred =>
                (pred, top.2 + point.size pred)).reverse, annotations)

/-- The stack before the loop: the last predecessor is on top. -/
def initialStack : List (Block × Nat) :=
  ((point.predecessors point.block).map fun pred =>
    (pred, point.position)).reverse

/-- Some rounds of the loop of `annotateInst` -/
def annotateInst (count : Nat) :
    Option (List (Block × Nat) × Annotations Block) :=
  run point.visit count point.initialStack ⟨true, []⟩

/-! ## What the annotations are for -/

/-- A block had a mark before. -/
def WasMarked (block : Block) : Prop :=
  (point.instructions block).any MCInst.isMarked = true

/-- A block contains a call. -/
def ContainsCall (block : Block) : Prop :=
  ∃ inst ∈ point.instructions block, inst.isCall = true

/-- A walk back over predecessors from the yield's block, which is left out -/
structure Walk (walk : List Block) : Prop where
  starts : ∃ first ∈ walk.head?, first ∈ point.predecessors point.block
  edges : walk.IsChain fun block pred => pred ∈ point.predecessors block

/-- The instructions on a walk up to the yield -/
def accumulated (walk : List Block) : Nat :=
  point.position + (walk.map point.size).sum

/-- Annotations are on instructions of blocks without a mark, and all
approaches are covered. -/
structure Covers (annotations : Annotations Block) : Prop where
  existing : ∀ spot ∈ annotations.added, spot.2 < point.size spot.1
  unmarked : ∀ spot ∈ annotations.added, ¬ point.WasMarked spot.1
  once : (annotations.added.map Prod.fst).Nodup
  approaches : ∀ walk, point.Walk walk →
    (threshold < point.accumulated walk ∨
      ∃ block ∈ walk, point.ContainsCall block) →
    ∃ block ∈ walk, point.isAnnotated annotations block = true

/-- The loop ends, with annotations that are where they should be. -/
def Prefetches : Prop :=
  ∃ count annotations, point.annotateInst count = some ([], annotations) ∧
    point.Covers annotations

/-- The search comes to a block without a mark, with a number of instructions
as it counts them. -/
def ComesTo (block : Block) (counted : Nat) : Prop :=
  ∃ count stack annotations,
    point.annotateInst count = some ((block, counted) :: stack, annotations) ∧
      point.isAnnotated annotations block = false

/-- The instructions on a walk as the search counts them -/
def countedOn (walk : List Block) : Nat :=
  point.position + (walk.tail.map point.size).sum

/-- The two slips of the search do no harm: it comes to no end of a block
behind a call, and where the first block of a walk should have been counted, it
comes to one of the blocks with more instructions on another way. -/
structure SlipsHarmless : Prop where
  callInside : ∀ block counted, point.ComesTo block counted →
    ∀ inst ∈ (point.instructions block).getLast?, inst.isCall = false
  otherWay : ∀ walk, point.Walk walk →
    (∀ block ∈ walk, ¬ point.WasMarked block ∧ ¬ point.ContainsCall block) →
    point.countedOn walk ≤ threshold → threshold < point.accumulated walk →
    ∃ block ∈ walk, ∃ counted, threshold < counted ∧
      point.ComesTo block counted

/-- The search may come to a block over blocks without a mark and a call: with
a number of instructions as it counts them, and with their true number -/
inductive Approach : Block → Nat → Nat → Prop
  | first {pred : Block} :
      pred ∈ point.predecessors point.block →
      Approach pred point.position (point.position + point.size pred)
  | further {block pred : Block} {counted true : Nat} :
      Approach block counted true → ¬ point.WasMarked block →
      ¬ point.ContainsCall block → counted ≤ threshold →
      pred ∈ point.predecessors block →
      Approach pred (counted + point.size pred) (true + point.size pred)

/-- No block without a mark that the search may come to ends in a call, nor is
one passed only because the first block has not been counted. -/
def Regular : Prop :=
  ∀ block counted true, point.Approach block counted true →
    ¬ point.WasMarked block →
      (∀ inst ∈ (point.instructions block).getLast?, inst.isCall = false) ∧
        (¬ point.ContainsCall block → counted ≤ threshold → true ≤ threshold)

/-! ## What a visit does -/

variable {point} {annotations annotations' : Annotations Block}

/-- What the search for the last call finds -/
theorem lastCall_cases (insts : List MCInst) :
    (insts.zipIdx.foldl
          (fun found inst => if inst.1.isCall then some inst.2 else found)
          none = none ∧
        ∀ inst ∈ insts, inst.isCall = false) ∨
      ∃ call inst,
        insts.zipIdx.foldl
            (fun found inst => if inst.1.isCall then some inst.2 else found)
            none = some call ∧
          insts[call]? = some inst ∧ inst.isCall = true := by
  induction insts using List.reverseRecOn with
  | nil => exact Or.inl ⟨rfl, nofun⟩
  | append_singleton insts inst inductionHypothesis =>
      rw [List.zipIdx_append, List.foldl_append]
      simp only [List.zipIdx_singleton, Nat.zero_add, List.foldl_cons,
        List.foldl_nil]
      cases isCall : inst.isCall with
      | true =>
          exact Or.inr ⟨insts.length, inst, rfl, by simp, isCall⟩
      | false =>
          rcases inductionHypothesis with
            ⟨isNone, noCall⟩ | ⟨call, found, isSome, isAt, isFound⟩
          · refine Or.inl ⟨isNone, fun other isOther => ?_⟩
            rcases List.mem_append.mp isOther with isOld | isLast
            · exact noCall other isOld
            · rw [List.mem_singleton.mp isLast]
              exact isCall
          · refine Or.inr ⟨call, found, isSome, ?_, isFound⟩
            rw [List.getElem?_append_left
              (List.getElem?_eq_some_iff.mp isAt).1]
            exact isAt

omit [DecidableEq Block] in
theorem hasCall_eq_none_iff {block : Block} :
    point.hasCall block = none ↔ ¬ point.ContainsCall block := by
  rcases lastCall_cases (point.instructions block) with
    ⟨isNone, noCall⟩ | ⟨call, inst, isSome, isAt, isCall⟩
  · refine iff_of_true isNone ?_
    rintro ⟨inst, isInst, isCall⟩
    rw [noCall inst isInst] at isCall
    cases isCall
  · refine iff_of_false (fun isNone => ?_)
      (not_not.mpr ⟨inst, List.mem_of_getElem? isAt, isCall⟩)
    rw [hasCall, isSome] at isNone
    cases isNone

omit [DecidableEq Block] in
/-- Behind the last call of a block that does not end in a call there is an
instruction. -/
theorem hasCall_lt {block : Block} {call : Nat}
    (noLast : ∀ inst ∈ (point.instructions block).getLast?,
      inst.isCall = false)
    (isFound : point.hasCall block = some call) :
    call + 1 < point.size block := by
  rcases lastCall_cases (point.instructions block) with
    ⟨isNone, _⟩ | ⟨other, inst, isSome, isAt, isCall⟩
  · rw [hasCall, isNone] at isFound
    cases isFound
  · rw [hasCall, isSome] at isFound
    cases isFound
    have isLess := (List.getElem?_eq_some_iff.mp isAt).1
    by_contra isLast
    have isEnd : call = (point.instructions block).length - 1 := by
      rw [size] at isLast
      omega
    have isInst : inst ∈ (point.instructions block).getLast? := by
      rw [List.getLast?_eq_getElem?, ← isEnd]
      exact isAt
    rw [noLast inst isInst] at isCall
    cases isCall

omit [DecidableEq Block] in
/-- A call that is last is the one that is found. -/
theorem hasCall_of_getLast? {block : Block} {inst : MCInst}
    (isLast : inst ∈ (point.instructions block).getLast?)
    (isCall : inst.isCall = true) :
    ∃ call, point.hasCall block = some call ∧ call + 1 = point.size block := by
  obtain ⟨before, isBlock⟩ := List.getLast?_eq_some_iff.mp isLast
  refine ⟨before.length, ?_, ?_⟩
  · rw [hasCall, isBlock, List.zipIdx_append, List.foldl_append]
    simp [isCall]
  · rw [size, isBlock, List.length_append, List.length_singleton]

theorem isAnnotated_iff {block : Block} :
    point.isAnnotated annotations block = true ↔
      point.WasMarked block ∨ block ∈ annotations.added.map Prod.fst := by
  have isAdded : (annotations.added.any fun spot => spot.1 = block) = true ↔
      block ∈ annotations.added.map Prod.fst := by
    simp only [List.any_eq_true, decide_eq_true_eq, List.mem_map]
  rw [isAnnotated, Bool.or_eq_true, isAdded, WasMarked]

/-- A visit to a block with a mark does nothing; one to a block without a mark
adds an annotation or puts the predecessors on the stack. -/
inductive Visited (point : YieldPoint Block) (top : Block × Nat)
    (annotations : Annotations Block) :
    List (Block × Nat) → Annotations Block → Prop
  | marked {annotations' : Annotations Block} :
      point.isAnnotated annotations top.1 = true →
      annotations'.added = annotations.added →
      Visited point top annotations [] annotations'
  | annotated {annotations' : Annotations Block} {position : Nat} :
      point.isAnnotated annotations top.1 = false →
      point.ContainsCall top.1 ∨ threshold < top.2 →
      position < point.size top.1 →
      annotations'.added = annotations.added ++ [(top.1, position)] →
      Visited point top annotations [] annotations'
  | passed {annotations' : Annotations Block} :
      point.isAnnotated annotations top.1 = false →
      ¬ point.ContainsCall top.1 → top.2 ≤ threshold →
      annotations'.added = annotations.added →
      Visited point top annotations
        (((point.predecessors top.1).map fun pred =>
          (pred, top.2 + point.size pred)).reverse) annotations'

omit [DecidableEq Block] in
theorem wasMarked_block : point.WasMarked point.block := by
  obtain ⟨inst, isAt, isYield⟩ := point.isYield
  refine List.any_eq_true.mpr ⟨inst, List.mem_of_getElem? isAt, ?_⟩
  rw [MCInst.isMarked, Bool.or_assoc, isYield, Bool.or_true]

theorem visited_of_visit {top : Block × Nat} {pushed : List (Block × Nat)}
    (isVisit : point.visit top annotations = some (pushed, annotations')) :
    Visited point top annotations pushed annotations' := by
  rw [visit] at isVisit
  by_cases isBlock : top.1 = point.block ∧ annotations.firstElement = false
  · rw [if_pos isBlock] at isVisit
    cases isVisit
    refine .marked (isAnnotated_iff.mpr (Or.inl ?_)) rfl
    rw [isBlock.1]
    exact wasMarked_block
  · rw [if_neg isBlock] at isVisit
    dsimp only at isVisit
    rw [show point.isAnnotated ⟨false, annotations.added⟩ top.1 =
      point.isAnnotated annotations top.1 from rfl] at isVisit
    cases isMarked : point.isAnnotated annotations top.1 with
    | true =>
        rw [if_pos isMarked] at isVisit
        cases isVisit
        exact .marked isMarked rfl
    | false =>
        rw [isMarked, if_neg Bool.false_ne_true] at isVisit
        cases isCall : point.hasCall top.1 with
        | some call =>
            rw [isCall] at isVisit
            dsimp only [annotate] at isVisit
            split at isVisit
            · next isInside =>
                cases isVisit
                refine .annotated isMarked (Or.inl ?_) isInside rfl
                by_contra noCall
                rw [hasCall_eq_none_iff.mpr noCall] at isCall
                cases isCall
            · cases isVisit
        | none =>
            rw [isCall] at isVisit
            dsimp only [annotate] at isVisit
            split at isVisit
            · next isMany =>
                split at isVisit
                · next isInside =>
                    cases isVisit
                    exact .annotated isMarked (Or.inr isMany) isInside rfl
                · cases isVisit
            · next isFew =>
                cases isVisit
                exact .passed isMarked (hasCall_eq_none_iff.mp isCall)
                  (Nat.le_of_not_lt isFew) rfl

/-! ## The search ends -/

omit [DecidableEq Block] in
theorem size_pos (point : YieldPoint Block) (block : Block) :
    0 < point.size block :=
  List.length_pos_iff.mpr (point.nonempty block)

/-- The search ends, or fails, whatever the function looks like. -/
theorem exists_annotateInst (point : YieldPoint Block) :
    ∃ count, point.annotateInst count = none ∨
      ∃ annotations, point.annotateInst count = some ([], annotations) := by
  refine exists_run_nil (fun top => threshold + 1 - top.2) ?_ _ _
  intro top annotations pushed annotations' isVisit other isPushed
  cases visited_of_visit isVisit with
  | marked => cases isPushed
  | annotated => cases isPushed
  | passed _ _ isFew _ =>
      obtain ⟨pred, _, rfl⟩ := List.mem_map.mp (List.mem_reverse.mp isPushed)
      have isPos := point.size_pos pred
      dsimp only
      omega

/-! ## What the search preserves -/

/-- The entry of a block's predecessor -/
def NextEntry (point : YieldPoint Block) (top other : Block × Nat) : Prop :=
  other.1 ∈ point.predecessors top.1 ∧ other.2 = top.2 + point.size other.1

/-- An entry that is followed -/
def Followed (point : YieldPoint Block) (top : Block × Nat) : Prop :=
  ¬ point.ContainsCall top.1 ∧ top.2 ≤ threshold

/-- An entry's block has a mark. -/
def Marked (point : YieldPoint Block) (annotations : Annotations Block)
    (top : Block × Nat) : Prop :=
  point.isAnnotated annotations top.1 = true

/-- What holds before and after each visit -/
structure Sound (point : YieldPoint Block) (stack : List (Block × Nat))
    (annotations : Annotations Block) : Prop where
  approach : ∀ top ∈ stack, ∃ true, point.Approach top.1 top.2 true
  existing : ∀ spot ∈ annotations.added, spot.2 < point.size spot.1
  unmarked : ∀ spot ∈ annotations.added, ¬ point.WasMarked spot.1
  once : (annotations.added.map Prod.fst).Nodup
  reached : ∃ count, point.annotateInst count = some (stack, annotations)
  origin : ∀ spot ∈ annotations.added, point.ContainsCall spot.1 ∨
    ∃ counted, threshold < counted ∧ point.ComesTo spot.1 counted
  settled : ∀ top walk, top ∈ point.initialStack →
    (top :: walk).IsChain point.NextEntry →
      Settled point.Marked point.Followed stack annotations top walk

theorem sound_init : point.Sound point.initialStack ⟨true, []⟩ := by
  refine ⟨?_, nofun, nofun, List.nodup_nil, ⟨0, rfl⟩, nofun,
    fun _ _ isTop _ => .waits isTop⟩
  intro top isTop
  obtain ⟨pred, isPred, rfl⟩ := List.mem_map.mp (List.mem_reverse.mp isTop)
  exact ⟨_, .first isPred⟩

theorem not_wasMarked {block : Block}
    (notMarked : point.isAnnotated annotations block = false) :
    ¬ point.WasMarked block ∧ block ∉ annotations.added.map Prod.fst := by
  rw [← not_or, ← isAnnotated_iff, notMarked]
  exact Bool.false_ne_true

/-- Blocks keep their marks, and the visited one is marked or followed. -/
theorem Visited.settles {top : Block × Nat} {pushed : List (Block × Nat)}
    (visited : Visited point top annotations pushed annotations') :
    (∀ other, point.Marked annotations other →
        point.Marked annotations' other) ∧
      (point.Marked annotations' top ∨
        point.Followed top ∧
          ∀ other, point.NextEntry top other → other ∈ pushed) := by
  simp only [Marked, isAnnotated_iff]
  cases visited with
  | marked isMarked sameAdded =>
      rw [sameAdded]
      exact ⟨fun _ isMarked => isMarked, Or.inl (isAnnotated_iff.mp isMarked)⟩
  | annotated _ _ _ nowAdded =>
      rw [nowAdded, List.map_append]
      refine ⟨fun _ isMarked => ?_,
        Or.inl (Or.inr (List.mem_append_right _ (List.mem_singleton_self _)))⟩
      exact isMarked.imp_right (List.mem_append_left _)
  | passed _ noCall isFew sameAdded =>
      rw [sameAdded]
      refine ⟨fun _ isMarked => isMarked, Or.inr ⟨⟨noCall, isFew⟩, ?_⟩⟩
      rintro other ⟨isPred, isCounted⟩
      refine List.mem_reverse.mpr (List.mem_map.mpr ⟨other.1, isPred, ?_⟩)
      rw [← isCounted]

theorem Sound.visit {top : Block × Nat} {stack pushed : List (Block × Nat)}
    (sound : point.Sound (top :: stack) annotations)
    (isVisit : point.visit top annotations = some (pushed, annotations')) :
    point.Sound (pushed ++ stack) annotations' := by
  have visited := visited_of_visit isVisit
  obtain ⟨stays, settles⟩ := visited.settles
  have settled := fun start walk isStart isWalk =>
    (sound.settled start walk isStart isWalk).after_visit stays settles isWalk
  have ofStack := fun other isOther =>
    sound.approach other (List.mem_cons_of_mem top isOther)
  obtain ⟨count, isRun⟩ := sound.reached
  have reached : ∃ count, point.annotateInst count =
      some (pushed ++ stack, annotations') :=
    ⟨count + 1, run_succ_of_visit isRun isVisit⟩
  cases visited with
  | marked _ sameAdded =>
      refine ⟨ofStack, ?_, ?_, ?_, reached, ?_, settled⟩
      · rw [sameAdded]
        exact sound.existing
      · rw [sameAdded]
        exact sound.unmarked
      · rw [sameAdded]
        exact sound.once
      · rw [sameAdded]
        exact sound.origin
  | annotated notMarked isReason isInside nowAdded =>
      obtain ⟨wasUnmarked, notAdded⟩ := not_wasMarked notMarked
      refine ⟨ofStack, ?_, ?_, ?_, reached, ?_, settled⟩
      · rw [nowAdded, List.forall_mem_append]
        exact ⟨sound.existing, by simpa using isInside⟩
      · rw [nowAdded, List.forall_mem_append]
        exact ⟨sound.unmarked, by simpa using wasUnmarked⟩
      · rw [nowAdded, List.map_append, List.nodup_append]
        refine ⟨sound.once, by simp, ?_⟩
        rintro block isOld _ isNew rfl
        rw [List.map_singleton, List.mem_singleton] at isNew
        rw [isNew] at isOld
        exact notAdded isOld
      · rw [nowAdded, List.forall_mem_append, List.forall_mem_singleton]
        exact ⟨sound.origin, isReason.imp_right fun isMany =>
          ⟨top.2, isMany, count, stack, annotations, isRun, notMarked⟩⟩
  | passed notMarked noCall isFew sameAdded =>
      refine ⟨?_, ?_, ?_, ?_, reached, ?_, settled⟩
      · intro other isOther
        rcases List.mem_append.mp isOther with isPushed | isOld
        · obtain ⟨pred, isPred, rfl⟩ :=
            List.mem_map.mp (List.mem_reverse.mp isPushed)
          obtain ⟨true, approach⟩ := sound.approach top List.mem_cons_self
          exact ⟨_, approach.further (not_wasMarked notMarked).1 noCall isFew
            isPred⟩
        · exact ofStack other isOld
      · rw [sameAdded]
        exact sound.existing
      · rw [sameAdded]
        exact sound.unmarked
      · rw [sameAdded]
        exact sound.once
      · rw [sameAdded]
        exact sound.origin

/-- A visit fails at a block without a mark that ends in a call. -/
theorem visit_eq_none {top : Block × Nat} {inst : MCInst}
    (notMarked : point.isAnnotated annotations top.1 = false)
    (isLast : inst ∈ (point.instructions top.1).getLast?)
    (isCall : inst.isCall = true) : point.visit top annotations = none := by
  have notBlock : ¬ (top.1 = point.block ∧
      annotations.firstElement = false) := by
    rintro ⟨isBlock, -⟩
    refine (not_wasMarked notMarked).1 ?_
    rw [isBlock]
    exact wasMarked_block
  obtain ⟨call, isFound, isEnd⟩ := hasCall_of_getLast? isLast isCall
  rw [visit, if_neg notBlock]
  dsimp only
  rw [show point.isAnnotated ⟨false, annotations.added⟩ top.1 =
    point.isAnnotated annotations top.1 from rfl, notMarked,
    if_neg Bool.false_ne_true, isFound]
  dsimp only [annotate]
  rw [if_neg (by omega)]
  rfl

/-- Where a block does not end in a call, no annotation is behind its end. -/
theorem visit_ne_none {top : Block × Nat}
    (callInside : point.isAnnotated annotations top.1 = false →
      ∀ inst ∈ (point.instructions top.1).getLast?, inst.isCall = false) :
    point.visit top annotations ≠ none := by
  rw [YieldPoint.visit]
  split
  · exact Option.some_ne_none _
  · dsimp only
    rw [show point.isAnnotated ⟨false, annotations.added⟩ top.1 =
      point.isAnnotated annotations top.1 from rfl]
    cases isMarked : point.isAnnotated annotations top.1 with
    | true => exact Option.some_ne_none _
    | false =>
        rw [if_neg Bool.false_ne_true]
        cases isCall : point.hasCall top.1 with
        | some call =>
            dsimp only [annotate]
            rw [if_pos (hasCall_lt (callInside isMarked) isCall)]
            exact Option.some_ne_none _
        | none =>
            dsimp only [annotate]
            rw [if_pos (point.size_pos top.1)]
            split <;> exact Option.some_ne_none _

/-! ## Approaches are covered -/

/-- The entries of the blocks of a walk behind an entry -/
def entriesFrom (point : YieldPoint Block) (counted : Nat) :
    List Block → List (Block × Nat)
  | [] => []
  | block :: rest =>
      (block, counted + point.size block) ::
        entriesFrom point (counted + point.size block) rest

omit [DecidableEq Block] in
theorem map_entriesFrom (counted : Nat) (walk : List Block) :
    (point.entriesFrom counted walk).map Prod.fst = walk := by
  induction walk generalizing counted with
  | nil => rfl
  | cons block rest inductionHypothesis =>
      rw [entriesFrom, List.map_cons, inductionHypothesis]

omit [DecidableEq Block] in
theorem isChain_entriesFrom {block : Block} {counted : Nat}
    {walk : List Block}
    (isWalk : (block :: walk).IsChain fun block pred =>
      pred ∈ point.predecessors block) :
    ((block, counted) :: point.entriesFrom counted walk).IsChain
      point.NextEntry := by
  induction walk generalizing block counted with
  | nil => exact .singleton _
  | cons pred rest inductionHypothesis =>
      obtain ⟨isPred, isRest⟩ := List.isChain_cons_cons.mp isWalk
      exact List.isChain_cons_cons.mpr
        ⟨⟨isPred, rfl⟩, inductionHypothesis isRest⟩

omit [DecidableEq Block] in
/-- The last of the entries counts the whole walk. -/
theorem counted_le {block : Block} {counted : Nat} {walk : List Block}
    (followed : ∀ top ∈ (block, counted) :: point.entriesFrom counted walk,
      point.Followed top) :
    counted + (walk.map point.size).sum ≤ threshold := by
  induction walk generalizing block counted with
  | nil => exact (followed _ List.mem_cons_self).2
  | cons pred rest inductionHypothesis =>
      have isShort := inductionHypothesis (List.forall_mem_cons.mp followed).2
      rw [List.map_cons, List.sum_cons]
      omega

/-- A block that the search comes to with many instructions gets a mark. -/
theorem ComesTo.isAnnotated {block : Block} {counted count : Nat}
    (comes : point.ComesTo block counted) (isMany : threshold < counted)
    (isEnd : point.annotateInst count = some ([], annotations)) :
    point.isAnnotated annotations block = true := by
  obtain ⟨before, stack, earlier, isRun, notMarked⟩ := comes
  obtain ⟨more, rfl⟩ :=
    Nat.exists_eq_add_of_lt (lt_of_run_cons isRun isEnd)
  unfold annotateInst at isRun isEnd
  rw [Nat.add_assoc, run_add, isRun, Option.bind_some, run] at isEnd
  cases isVisit : point.visit (block, counted) earlier with
  | none =>
      rw [isVisit] at isEnd
      cases isEnd
  | some visited =>
      obtain ⟨pushed, later⟩ := visited
      rw [isVisit] at isEnd
      have isMarked : point.isAnnotated later block = true := by
        cases visited_of_visit isVisit with
        | marked isMarked =>
            rw [notMarked] at isMarked
            cases isMarked
        | annotated _ _ _ nowAdded =>
            refine isAnnotated_iff.mpr (Or.inr ?_)
            rw [nowAdded]
            simp
        | passed _ _ isFew => exact absurd isMany (Nat.not_lt_of_le isFew)
      exact @run_inv _ _ _ (fun _ state => point.isAnnotated state block = true)
        (fun _ _ _ _ _ isMarked isVisit =>
          (visited_of_visit isVisit).settles.1 (block, counted) isMarked)
        _ _ _ _ _ isMarked isEnd

/-- In the end all approaches are covered. -/
theorem Sound.covers (harmless : point.SlipsHarmless)
    (sound : point.Sound [] annotations) : point.Covers annotations := by
  refine ⟨sound.existing, sound.unmarked, sound.once, ?_⟩
  rintro walk ⟨⟨first, isFirst, isPred⟩, edges⟩ isLong
  obtain ⟨rest, rfl⟩ := List.head?_eq_some_iff.mp isFirst
  obtain ⟨count, isEnd⟩ := sound.reached
  have isTop : (first, point.position) ∈ point.initialStack :=
    List.mem_reverse.mpr (List.mem_map.mpr ⟨first, isPred, rfl⟩)
  have isBlocks : ((first, point.position) ::
      point.entriesFrom point.position rest).map Prod.fst = first :: rest := by
    rw [List.map_cons, map_entriesFrom]
  rcases (sound.settled _ (point.entriesFrom point.position rest) isTop
      (isChain_entriesFrom edges)).end_of_nil with
    ⟨top, isEntry, isMarked⟩ | followed
  · refine ⟨top.1, ?_, isMarked⟩
    have isBlock := List.mem_map_of_mem (f := Prod.fst) isEntry
    rwa [isBlocks] at isBlock
  · by_contra noMark
    have noCall : ∀ block ∈ first :: rest, ¬ point.ContainsCall block := by
      intro block isBlock
      rw [← isBlocks] at isBlock
      obtain ⟨top, isEntry, rfl⟩ := List.mem_map.mp isBlock
      exact (followed top isEntry).1
    have unmarked : ∀ block ∈ first :: rest, ¬ point.WasMarked block :=
      fun block isBlock wasMarked =>
        noMark ⟨block, isBlock, isAnnotated_iff.mpr (Or.inl wasMarked)⟩
    have isMore : threshold < point.accumulated (first :: rest) :=
      isLong.resolve_right fun ⟨block, isBlock, hasCall⟩ =>
        noCall block isBlock hasCall
    obtain ⟨block, isBlock, counted, isMany, comes⟩ :=
      harmless.otherWay (first :: rest) ⟨⟨first, isFirst, isPred⟩, edges⟩
        (fun block isBlock => ⟨unmarked block isBlock, noCall block isBlock⟩)
        (counted_le followed) isMore
    exact noMark ⟨block, isBlock, comes.isAnnotated isMany isEnd⟩

/-- Where the slips do no harm, the search ends with what it is for. -/
theorem SlipsHarmless.prefetches (harmless : point.SlipsHarmless) :
    point.Prefetches := by
  have neverFails (count : Nat) : point.annotateInst count ≠ none := by
    refine run_ne_none
      (fun _ _ _ _ _ sound isVisit => Sound.visit sound isVisit) ?_ sound_init
    intro top stack annotations sound
    obtain ⟨count, isRun⟩ := sound.reached
    exact visit_ne_none fun notMarked =>
      harmless.callInside top.1 top.2
        ⟨count, stack, annotations, isRun, notMarked⟩
  obtain ⟨count, fails | ⟨annotations, isEnd⟩⟩ := exists_annotateInst point
  · exact absurd fails (neverFails count)
  · have sound : point.Sound [] annotations :=
      run_inv (fun _ _ _ _ _ sound isVisit => Sound.visit sound isVisit)
        sound_init isEnd
    exact ⟨count, annotations, isEnd, sound.covers harmless⟩

omit [DecidableEq Block] in
/-- In a regular function a walk that is counted as short is short. -/
theorem Approach.accumulated_le (regular : point.Regular) {block : Block}
    {counted true : Nat} {walk : List Block}
    (approach : point.Approach block counted true)
    (isWalk : (block :: walk).IsChain fun block pred =>
      pred ∈ point.predecessors block)
    (ofWalk : ∀ other ∈ block :: walk,
      ¬ point.WasMarked other ∧ ¬ point.ContainsCall other)
    (isFew : counted + (walk.map point.size).sum ≤ threshold) :
    true + (walk.map point.size).sum ≤ threshold := by
  obtain ⟨notMarked, noCall⟩ := ofWalk block List.mem_cons_self
  induction walk generalizing block counted true with
  | nil => exact (regular block counted true approach notMarked).2 noCall isFew
  | cons pred rest inductionHypothesis =>
      obtain ⟨isPred, isRest⟩ := List.isChain_cons_cons.mp isWalk
      rw [List.map_cons, List.sum_cons, ← Nat.add_assoc] at isFew ⊢
      have further := approach.further notMarked noCall (by omega) isPred
      have ofRest := (List.forall_mem_cons.mp ofWalk).2
      exact inductionHypothesis further isRest ofRest isFew
        (ofRest pred List.mem_cons_self).1 (ofRest pred List.mem_cons_self).2

/-- In a regular function the search does not come to the slips. -/
theorem Regular.slipsHarmless (regular : point.Regular) :
    point.SlipsHarmless := by
  constructor
  · rintro block counted ⟨count, stack, annotations, isRun, notMarked⟩
    have sound : point.Sound ((block, counted) :: stack) annotations :=
      run_inv (fun _ _ _ _ _ sound isVisit => Sound.visit sound isVisit)
        sound_init isRun
    obtain ⟨true, approach⟩ := sound.approach _ List.mem_cons_self
    exact (regular block counted true approach (not_wasMarked notMarked).1).1
  · rintro walk ⟨⟨first, isFirst, isPred⟩, edges⟩ ofWalk isFew isMore
    obtain ⟨rest, rfl⟩ := List.head?_eq_some_iff.mp isFirst
    have isShort :=
      (Approach.first isPred).accumulated_le regular edges ofWalk isFew
    rw [accumulated, List.map_cons, List.sum_cons, ← Nat.add_assoc] at isMore
    omega

/-- An instruction without a mark -/
def plainInst : MCInst := ⟨false, false, false, false⟩

def callInst : MCInst := ⟨true, false, false, false⟩

/-- A yield at the start of a block with one predecessor -/
def twoBlocks (before : List MCInst) (nonempty : before ≠ []) :
    YieldPoint (Fin 2) where
  instructions block :=
    if block = 0 then [⟨false, false, true, false⟩] else before
  predecessors block := if block = 0 then [1] else []
  nonempty block := by split <;> simp [nonempty]
  block := 0
  position := 0
  isYield := ⟨_, rfl, rfl⟩

/-- The predecessor is the only block that the search may come to. -/
theorem twoBlocks_approach {before : List MCInst} {nonempty : before ≠ []}
    {block : Fin 2} {counted true : Nat}
    (approach : (twoBlocks before nonempty).Approach block counted true) :
    block = 1 := by
  induction approach with
  | first isPred => exact List.mem_singleton.mp isPred
  | further _ _ _ _ isPred isFirst =>
      subst isFirst
      cases isPred

/-- The predecessor ends in a call. -/
def callAtEnd : YieldPoint (Fin 2) :=
  twoBlocks [plainInst, callInst] (by decide)

/-- The predecessor has eleven instructions. -/
def longFirst : YieldPoint (Fin 2) :=
  twoBlocks (List.replicate 11 plainInst) (by decide)

end YieldPoint

end Msh.PrefetchCrtCtxScanner
