import Mathlib.Data.List.Dedup
import Msh.Library.Buckets

/-!
# Analysing loops from the inside out

`loopAnalysis` finds the loops of a function through its blocks, puts them into
a vector by their depth and analyses them from the deepest to the outermost.
The vector has ten entries before the depths are known.
-/

namespace Msh.BoundYieldDistanceScanner

open Buckets

/-- The loops of a function, nested in each other -/
structure LoopForest (BinaryBasicBlock Loop : Type) where
  blocks : List BinaryBasicBlock
  /-- The innermost loop around a block -/
  getLoopFor : BinaryBasicBlock → Option Loop
  loops : List Loop
  /-- `getParentLoop`, from the inside to the outside -/
  parents : Loop → List Loop
  header : Loop → BinaryBasicBlock
  loops_nodup : loops.Nodup
  loopFor_mem : ∀ block ∈ blocks, ∀ loop, getLoopFor block = some loop →
    loop ∈ loops
  header_mem : ∀ loop ∈ loops, header loop ∈ blocks
  /-- No loop in a loop has its header: they would be the same loop. -/
  loopFor_header : ∀ loop ∈ loops, getLoopFor (header loop) = some loop

/-- `LoopsByDepth`, `max_depth` and `Visited` -/
structure FoundLoops (Loop : Type) where
  loopsByDepth : List (List Loop)
  maxDepth : Nat
  visited : List Loop

namespace LoopForest

variable {BinaryBasicBlock Loop : Type} [DecidableEq Loop]
  (forest : LoopForest BinaryBasicBlock Loop)

/-- `getLoopDepth` of the loop -/
def depth (loop : Loop) : Nat :=
  (forest.parents loop).length + 1

/-- One block; there is no result where `LoopsByDepth` is indexed outside its
size. -/
def findLoop (found : FoundLoops Loop) (block : BinaryBasicBlock) :
    Option (FoundLoops Loop) :=
  match forest.getLoopFor block with
  | none => some found
  | some loop =>
      if loop ∈ found.visited then some found
      else if forest.depth loop < found.loopsByDepth.length then
        some {
          loopsByDepth :=
            found.loopsByDepth.modify (forest.depth loop) (· ++ [loop])
          maxDepth := max found.maxDepth (forest.depth loop)
          visited := found.visited ++ [loop] }
      else none

/-- `std::vector::resize` -/
def resize (size : Nat) (buckets : List (List Loop)) : List (List Loop) :=
  buckets.take size ++ List.replicate (size - buckets.length) []

/-- `loopAnalysis`: the loops in the order of the calls of
`performLoopAnalysis` -/
def loopAnalysis : Option (List Loop) :=
  (forest.blocks.foldlM forest.findLoop
    ⟨List.replicate 10 [], 0, []⟩).map fun found =>
      (resize (found.maxDepth + 1) found.loopsByDepth).reverse.flatten

/-- Each loop is analysed once, and after all deeper ones. -/
structure InnerFirst (calls : List Loop) : Prop where
  once : calls.Perm forest.loops
  inner : calls.Pairwise fun first second =>
    forest.depth second ≤ forest.depth first

variable {forest} {found found' : FoundLoops Loop}
  {seen blocks : List BinaryBasicBlock} {block : BinaryBasicBlock} {loop : Loop}

/-- The loops of the blocks that have been seen -/
structure Finds (forest : LoopForest BinaryBasicBlock Loop)
    (seen : List BinaryBasicBlock) (found : FoundLoops Loop) : Prop where
  visited_nodup : found.visited.Nodup
  mem_visited : ∀ loop, loop ∈ found.visited ↔
    ∃ block ∈ seen, forest.getLoopFor block = some loop
  buckets : found.loopsByDepth = byKey forest.depth found.visited 10
  depth_le : ∀ loop ∈ found.visited, forest.depth loop ≤ found.maxDepth
  maxDepth_lt : found.maxDepth < 10

omit [DecidableEq Loop] in
theorem finds_nil : Finds forest [] ⟨List.replicate 10 [], 0, []⟩ := by
  refine ⟨List.nodup_nil, ?_, rfl, nofun, Nat.zero_lt_succ _⟩
  intro loop
  simp

/-- One more block -/
theorem Finds.findLoop (finds : Finds forest seen found)
    (isFound : forest.findLoop found block = some found') :
    Finds forest (seen ++ [block]) found' := by
  rw [LoopForest.findLoop] at isFound
  cases isLoop : forest.getLoopFor block with
  | none =>
      rw [isLoop] at isFound
      cases isFound
      refine { finds with mem_visited := fun loop => ?_ }
      rw [finds.mem_visited]
      simp [isLoop, or_and_right, exists_or]
  | some loop =>
      rw [isLoop] at isFound
      dsimp only at isFound
      have mem_seen (other : Loop) :
          (∃ first ∈ seen ++ [block], forest.getLoopFor first = some other) ↔
            other ∈ found.visited ∨ loop = other := by
        rw [finds.mem_visited]
        simp [isLoop, or_and_right, exists_or]
      by_cases isVisited : loop ∈ found.visited
      · rw [if_pos isVisited] at isFound
        cases isFound
        refine { finds with mem_visited := fun other => ?_ }
        rw [mem_seen]
        constructor
        · exact Or.inl
        · rintro (wasVisited | rfl)
          · exact wasVisited
          · exact isVisited
      · rw [if_neg isVisited, finds.buckets, length_byKey] at isFound
        split at isFound
        · next isDepth =>
            cases isFound
            constructor
            case visited_nodup =>
              refine List.nodup_append.mpr
                ⟨finds.visited_nodup, List.nodup_singleton _, ?_⟩
              rintro first isFirst second isSecond rfl
              rw [List.mem_singleton.mp isSecond] at isFirst
              exact isVisited isFirst
            case mem_visited =>
              intro other
              rw [mem_seen, List.mem_append, List.mem_singleton,
                eq_comm (a := other)]
            case buckets => exact (byKey_concat loop).symm
            case depth_le =>
              intro other isOther
              rcases List.mem_append.mp isOther with wasVisited | isNew
              · exact (finds.depth_le other wasVisited).trans (le_max_left _ _)
              · rw [List.mem_singleton.mp isNew]
                exact le_max_right _ _
            case maxDepth_lt => exact max_lt finds.maxDepth_lt isDepth
        · cases isFound

/-- All blocks -/
theorem Finds.findLoops (finds : Finds forest seen found)
    (isFound : blocks.foldlM forest.findLoop found = some found') :
    Finds forest (seen ++ blocks) found' := by
  induction blocks generalizing seen found with
  | nil =>
      cases isFound
      rwa [List.append_nil]
  | cons block blocks inductionHypothesis =>
      rw [List.foldlM_cons] at isFound
      obtain ⟨found₁, isFirst, isRest⟩ := Option.bind_eq_some_iff.mp isFound
      have finds' := inductionHypothesis (finds.findLoop isFirst) isRest
      rwa [List.append_assoc] at finds'

/-- With shallow loops only the vector is long enough. -/
theorem exists_findLoops
    (shallow : ∀ loop ∈ forest.loops, forest.depth loop < 10)
    (areBlocks : ∀ block ∈ blocks, block ∈ forest.blocks)
    (isLong : found.loopsByDepth.length = 10) :
    ∃ found', blocks.foldlM forest.findLoop found = some found' := by
  induction blocks generalizing found with
  | nil => exact ⟨found, rfl⟩
  | cons block blocks inductionHypothesis =>
      rw [List.forall_mem_cons] at areBlocks
      obtain ⟨found₁, isFirst, stillLong⟩ : ∃ found₁,
          forest.findLoop found block = some found₁ ∧
            found₁.loopsByDepth.length = 10 := by
        rw [LoopForest.findLoop]
        cases isLoop : forest.getLoopFor block with
        | none => exact ⟨found, rfl, isLong⟩
        | some loop =>
            dsimp only
            split
            · exact ⟨found, rfl, isLong⟩
            · have isShallow := shallow loop
                (forest.loopFor_mem block areBlocks.1 loop isLoop)
              rw [isLong, if_pos isShallow]
              refine ⟨_, rfl, ?_⟩
              dsimp only
              rw [List.length_modify, isLong]
      obtain ⟨found', isRest⟩ := inductionHypothesis areBlocks.2 stillLong
      exact ⟨found', by rw [List.foldlM_cons, isFirst]; exact isRest⟩

omit [DecidableEq Loop] in
/-- After the last block all loops have been found. -/
theorem Finds.mem_loops (finds : Finds forest forest.blocks found) :
    loop ∈ found.visited ↔ loop ∈ forest.loops := by
  rw [finds.mem_visited]
  constructor
  · rintro ⟨block, isBlock, isLoop⟩
    exact forest.loopFor_mem block isBlock loop isLoop
  · intro isLoop
    exact ⟨forest.header loop, forest.header_mem loop isLoop,
      forest.loopFor_header loop isLoop⟩

omit [DecidableEq Loop] in
/-- The vector is cut behind the deepest loop. -/
theorem Finds.resize_eq (finds : Finds forest seen found) :
    resize (found.maxDepth + 1) found.loopsByDepth =
      byKey forest.depth found.visited (found.maxDepth + 1) := by
  have isFewer : found.maxDepth + 1 ≤ 10 := finds.maxDepth_lt
  rw [resize, finds.buckets, length_byKey, take_byKey isFewer,
    Nat.sub_eq_zero_of_le isFewer, List.replicate_zero, List.append_nil]

/-- The loops are analysed as they should be if none is deeper than nine; else
the vector is indexed outside its size. -/
theorem loopAnalysis_innerFirst_iff :
    (∃ calls, forest.loopAnalysis = some calls ∧ forest.InnerFirst calls) ↔
      ∀ loop ∈ forest.loops, forest.depth loop < 10 := by
  constructor
  · rintro ⟨calls, isAnalysis, _⟩ loop isLoop
    obtain ⟨found, isFound, _⟩ := Option.map_eq_some_iff.mp isAnalysis
    have finds := finds_nil.findLoops isFound
    have isVisited := finds.mem_loops.mpr isLoop
    exact (finds.depth_le loop isVisited).trans_lt finds.maxDepth_lt
  · intro shallow
    have isLong : (⟨List.replicate 10 [], 0, []⟩ :
        FoundLoops Loop).loopsByDepth.length = 10 :=
      List.length_replicate
    obtain ⟨found, isFound⟩ :=
      exists_findLoops shallow (fun _ isBlock => isBlock) isLong
    have finds := finds_nil.findLoops isFound
    rw [List.nil_append] at finds
    refine ⟨_, by rw [loopAnalysis, isFound, Option.map_some], ?_, ?_⟩
    · rw [finds.resize_eq]
      have areIn : ∀ loop ∈ found.visited,
          forest.depth loop < found.maxDepth + 1 := fun loop isVisited =>
        Nat.lt_succ_of_le (finds.depth_le loop isVisited)
      refine (List.reverse_perm _).flatten.trans
        ((flatten_perm areIn).trans ?_)
      exact (List.perm_ext_iff_of_nodup finds.visited_nodup
        forest.loops_nodup).mpr fun loop => finds.mem_loops
    · rw [finds.resize_eq]
      exact reverse_flatten_pairwise

/-- Ten loops, each in the one before -/
def tenDeep : LoopForest (Fin 10) (Fin 10) where
  blocks := List.finRange 10
  getLoopFor := some
  loops := List.finRange 10
  parents loop := ((List.finRange 10).filter (· < loop)).reverse
  header := id
  loops_nodup := List.nodup_finRange 10
  loopFor_mem _ _ loop _ := List.mem_finRange loop
  header_mem loop _ := List.mem_finRange loop
  loopFor_header _ _ := rfl

/-- The tenth loop is looked for behind the end of the vector. -/
theorem tenDeep_not_innerFirst :
    ¬∀ forest : LoopForest (Fin 10) (Fin 10),
      ∃ calls, forest.loopAnalysis = some calls ∧ forest.InnerFirst calls := by
  intro all
  obtain ⟨calls, isAnalysis, _⟩ := all tenDeep
  have isNone : tenDeep.loopAnalysis = none := by decide +kernel
  rw [isNone] at isAnalysis
  cases isAnalysis

end LoopForest

end Msh.BoundYieldDistanceScanner
