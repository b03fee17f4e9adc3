import Msh.Library.Dict
import Msh.Library.PathSearch

/-!
# The paths through a loop

`findAllPathes` looks for the paths from a loop's header to its latches on
which there is no yield yet.  It carries whole paths on its stack, but marks
the blocks that it has been to: where branches rejoin, only one of the paths
is continued.
-/

namespace Msh.BoundYieldDistanceScanner

open PathSearch

/-- What `findAllPathes` reads of a function and of a loop in it -/
structure BinaryLoop (BinaryBasicBlock Loop : Type) where
  successors : BinaryBasicBlock → List BinaryBasicBlock
  /-- The innermost loop around a block -/
  getLoopFor : BinaryBasicBlock → Option Loop
  loop : Loop
  header : BinaryBasicBlock
  blocks : List BinaryBasicBlock
  header_mem : header ∈ blocks
  /-- There are no loops inside. -/
  innermost : ∀ block, block ∈ blocks ↔ getLoopFor block = some loop
  yieldCntMap : BinaryBasicBlock → Option Int

namespace BinaryLoop

variable {BinaryBasicBlock Loop : Type} [DecidableEq BinaryBasicBlock]
  [DecidableEq Loop] (loop : BinaryLoop BinaryBasicBlock Loop)

/-- `isLoopLatch` -/
def isLoopLatch (block : BinaryBasicBlock) : Bool :=
  loop.blocks.contains block && (loop.successors block).contains loop.header

/-- The successors by which `findAllPathes` continues a path -/
def pathSuccessors (block : BinaryBasicBlock) : List BinaryBasicBlock :=
  (loop.successors block).filter fun succ =>
    (loop.getLoopFor succ).isSome && loop.getLoopFor succ = some loop.loop &&
      (loop.yieldCntMap succ).isNone

/-- The search of `findAllPathes` -/
def search : Graph BinaryBasicBlock where
  start := loop.header
  next := loop.pathSuccessors
  stops := loop.isLoopLatch
  nodes := loop.blocks
  start_mem := loop.header_mem
  next_mem block other isNext := by
    obtain ⟨-, isInside⟩ := List.mem_filter.mp isNext
    simp only [Bool.and_eq_true, decide_eq_true_eq] at isInside
    exact (loop.innermost other).mpr isInside.1.2

/-- The blocks of a path from its first one on -/
def forward (path : Path BinaryBasicBlock) : List BinaryBasicBlock :=
  path.2.reverse ++ [path.1]

/-- `findAllPathes` -/
def findAllPathes : List (List BinaryBasicBlock) :=
  loop.search.paths.map forward

/-- `LatchToPaths`, by the `Path.back()` of each path -/
def latchToPaths :
    Dict (Option BinaryBasicBlock) (List (List BinaryBasicBlock)) :=
  loop.findAllPathes.foldl
    (fun paths path =>
      paths.set path.getLast? ((paths.get? path.getLast?).getD [] ++ [path]))
    .empty

/-! ## Ways through the loop -/

/-- From the header along the edges of the loop, without a yield on the way
and without a latch before the last block -/
structure Way (path : List BinaryBasicBlock) : Prop where
  starts : path.head? = some loop.header
  edges : path.IsChain fun block succ => succ ∈ loop.successors block
  inside :
    ∀ block ∈ path.tail,
      block ∈ loop.blocks ∧ loop.yieldCntMap block = none
  first : ∀ block ∈ path.dropLast, loop.isLoopLatch block = false

/-- A way that ends at a latch -/
structure LatchWay (path : List BinaryBasicBlock) : Prop
    extends loop.Way path where
  ends :
    ∃ latch, path.getLast? = some latch ∧ loop.isLoopLatch latch = true

/-- All edges inside the loop but those to the header go one way. -/
def Acyclic : Prop :=
  ∃ rank : BinaryBasicBlock → Nat,
    ∀ block ∈ loop.blocks, ∀ succ ∈ loop.successors block,
      succ ∈ loop.blocks → succ ≠ loop.header → rank block < rank succ

/-- The search ends, all ways to latches are found, each once, and they are
kept for the latches that they lead to. -/
structure FindsAll : Prop where
  ends : (loop.search.run loop.search.steps loop.search.init).stack = []
  nodup : loop.findAllPathes.Nodup
  found : ∀ path, path ∈ loop.findAllPathes ↔ loop.LatchWay path
  kept :
    ∀ latch path,
      path ∈ (loop.latchToPaths.get? (some latch)).getD [] ↔
        loop.LatchWay path ∧ path.getLast? = some latch

/-- A latch can be reached from a block without a yield on the way. -/
def LeadsToLatch (block : BinaryBasicBlock) : Prop :=
  ∃ path : List BinaryBasicBlock,
    (block :: path).IsChain (fun block succ => succ ∈ loop.successors block) ∧
      (∀ other ∈ path,
        other ∈ loop.blocks ∧ loop.yieldCntMap other = none) ∧
      ∃ latch ∈ path, loop.isLoopLatch latch = true

/--
No two ways rejoin at a block from which a latch can still be reached, nor
has a block a latch as its successor twice.
-/
structure NeverRejoins : Prop where
  same :
    ∀ block first second,
      loop.isLoopLatch block = false → loop.LeadsToLatch block →
        loop.Way (first ++ [block]) → loop.Way (second ++ [block]) →
          first = second
  once :
    ∀ block before latch,
      loop.isLoopLatch block = false → loop.Way (before ++ [block]) →
        loop.isLoopLatch latch = true → loop.yieldCntMap latch = none →
          (loop.successors block).count latch ≤ 1

variable {loop}

omit [DecidableEq BinaryBasicBlock] in
@[simp] theorem mem_pathSuccessors {block other : BinaryBasicBlock} :
    other ∈ loop.pathSuccessors block ↔
      other ∈ loop.successors block ∧ other ∈ loop.blocks ∧
        loop.yieldCntMap other = none := by
  simp only [pathSuccessors, List.mem_filter, Bool.and_eq_true,
    decide_eq_true_eq, loop.innermost, Option.isNone_iff_eq_none]
  constructor
  · rintro ⟨isSucc, ⟨-, isInside⟩, noYield⟩
    exact ⟨isSucc, isInside, noYield⟩
  · rintro ⟨isSucc, isInside, noYield⟩
    exact ⟨isSucc, ⟨by rw [isInside]; rfl, isInside⟩, noYield⟩

theorem count_pathSuccessors {block other : BinaryBasicBlock}
    (isNext : other ∈ loop.pathSuccessors block) :
    (loop.pathSuccessors block).count other =
      (loop.successors block).count other := by
  rw [pathSuccessors]
  refine List.count_filter ?_
  exact (List.mem_filter.mp isNext).2

omit [DecidableEq Loop] in
theorem way_singleton {block : BinaryBasicBlock} :
    loop.Way [block] ↔ block = loop.header := by
  constructor
  · intro way
    exact Option.some_inj.mp way.starts
  · rintro rfl
    exact {
      starts := rfl
      edges := List.isChain_singleton _
      inside := fun _ member => by cases member
      first := fun _ member => by cases member
    }

/-- A way continues from a block that is not a latch. -/
theorem way_concat {path : List BinaryBasicBlock}
    {before block : BinaryBasicBlock} :
    loop.Way (path ++ [before] ++ [block]) ↔
      loop.Way (path ++ [before]) ∧ loop.isLoopLatch before = false ∧
        block ∈ loop.pathSuccessors before := by
  have nonempty : path ++ [before] ≠ [] := by simp
  have starts :
      (path ++ [before] ++ [block]).head? = (path ++ [before]).head? :=
    List.head?_append_of_ne_nil _ nonempty
  have tail :
      (path ++ [before] ++ [block]).tail =
        (path ++ [before]).tail ++ [block] :=
    List.tail_append_of_ne_nil nonempty
  rw [mem_pathSuccessors]
  constructor
  · intro way
    have inside := way.inside
    have first := way.first
    rw [tail] at inside
    rw [List.dropLast_concat] at first
    obtain ⟨edges, -, isSucc⟩ := List.isChain_append.mp way.edges
    refine ⟨⟨starts ▸ way.starts, edges, fun other member =>
      inside other (List.mem_append_left _ member), ?_⟩,
      first before (by simp), isSucc before (by simp) block (by simp),
      inside block (by simp)⟩
    rw [List.dropLast_concat]
    exact fun other member => first other (List.mem_append_left _ member)
  · rintro ⟨way, notLatch, isSucc, isInside⟩
    have first := way.first
    rw [List.dropLast_concat] at first
    refine ⟨starts.trans way.starts, ?_, ?_, ?_⟩
    · refine List.isChain_append.mpr
        ⟨way.edges, List.isChain_singleton _, fun other isLast next isNext => ?_⟩
      rw [List.getLast?_concat, Option.mem_some] at isLast
      rw [List.head?_cons, Option.mem_some] at isNext
      rw [← isLast, ← isNext]
      exact isSucc
    · rw [tail]
      intro other member
      rcases List.mem_append.mp member with isEarlier | isLast
      · exact way.inside other isEarlier
      · rw [List.mem_singleton.mp isLast]
        exact isInside
    · rw [List.dropLast_concat]
      intro other member
      rcases List.mem_append.mp member with isEarlier | isLast
      · exact first other isEarlier
      · rw [List.mem_singleton.mp isLast]
        exact notLatch

/-- The open paths of the search are the ways from the header. -/
theorem open_iff_way {block : BinaryBasicBlock}
    {earlier : List BinaryBasicBlock} :
    loop.search.Open block earlier ↔
      loop.Way (earlier.reverse ++ [block]) := by
  induction earlier generalizing block with
  | nil =>
      rw [List.reverse_nil, List.nil_append, way_singleton]
      constructor
      · intro isOpen
        cases isOpen
        rfl
      · rintro rfl
        exact .start
  | cons before earlier inductionHypothesis =>
      rw [List.reverse_cons, way_concat, ← inductionHypothesis]
      constructor
      · intro isOpen
        cases isOpen with
        | step beforeOpen goesOn isNext =>
            exact ⟨beforeOpen, goesOn, isNext⟩
      · rintro ⟨beforeOpen, notLatch, isNext⟩
        exact beforeOpen.step notLatch isNext

theorem leads_iff {block : BinaryBasicBlock}
    (notLatch : loop.isLoopLatch block = false) :
    loop.search.Leads block ↔ loop.LeadsToLatch block := by
  constructor
  · intro leads
    induction leads with
    | stop isLatch =>
        rw [show loop.isLoopLatch _ = true from isLatch] at notLatch
        cases notLatch
    | @step block other _ isNext leads inductionHypothesis =>
        obtain ⟨isSucc, otherInside⟩ := mem_pathSuccessors.mp isNext
        cases isLatch : loop.isLoopLatch other with
        | true =>
            refine ⟨[other], List.isChain_pair.mpr isSucc, ?_, other,
              List.mem_singleton_self _, isLatch⟩
            intro next member
            rw [List.mem_singleton.mp member]
            exact otherInside
        | false =>
            obtain ⟨path, edges, inside, latch, member, latchIsLatch⟩ :=
              inductionHypothesis isLatch
            refine ⟨other :: path, List.isChain_cons_cons.mpr ⟨isSucc, edges⟩,
              ?_, latch, List.mem_cons_of_mem _ member, latchIsLatch⟩
            intro next nextMember
            rcases List.mem_cons.mp nextMember with rfl | inPath
            · exact otherInside
            · exact inside next inPath
  · rintro ⟨path, edges, inside, latch, member, isLatch⟩
    induction path generalizing block with
    | nil => cases member
    | cons other path inductionHypothesis =>
        obtain ⟨isSucc, laterEdges⟩ := List.isChain_cons_cons.mp edges
        have isNext : other ∈ loop.pathSuccessors block :=
          mem_pathSuccessors.mpr
            ⟨isSucc, inside other List.mem_cons_self⟩
        refine .step notLatch isNext ?_
        cases otherLatch : loop.isLoopLatch other with
        | true => exact .stop otherLatch
        | false =>
            refine inductionHypothesis otherLatch laterEdges
              (fun next inPath => inside next (List.mem_cons_of_mem _ inPath))
              ((List.mem_cons.mp member).resolve_left ?_)
            rintro rfl
            rw [otherLatch] at isLatch
            cases isLatch

/-- That no ways rejoin is what a search with visited nodes needs. -/
theorem onlyWays_iff :
    loop.search.OnlyWays ↔ loop.NeverRejoins := by
  constructor
  · intro onlyWays
    constructor
    · intro block first second notLatch leads way way'
      have same := onlyWays.same block first.reverse second.reverse notLatch
        ((leads_iff notLatch).mpr leads)
        (open_iff_way.mpr (by rwa [List.reverse_reverse]))
        (open_iff_way.mpr (by rwa [List.reverse_reverse]))
      exact List.reverse_injective same
    · intro block before latch notLatch way isLatch noYield
      by_cases isSucc : latch ∈ loop.successors block
      · have isInside : latch ∈ loop.blocks := by
          rw [isLoopLatch, Bool.and_eq_true, List.contains_iff_mem] at isLatch
          exact isLatch.1
        have isNext : latch ∈ loop.pathSuccessors block :=
          mem_pathSuccessors.mpr ⟨isSucc, isInside, noYield⟩
        have once := onlyWays.once block before.reverse latch notLatch
          (open_iff_way.mpr (by rwa [List.reverse_reverse])) isLatch isNext
        rw [← count_pathSuccessors isNext]
        exact once.le
      · rw [List.count_eq_zero_of_not_mem isSucc]
        exact Nat.zero_le 1
  · intro neverRejoins
    constructor
    · intro block earlier earlier' notLatch leads isOpen isOpen'
      have same := neverRejoins.same block earlier.reverse earlier'.reverse
        notLatch ((leads_iff notLatch).mp leads) (open_iff_way.mp isOpen)
        (open_iff_way.mp isOpen')
      exact List.reverse_injective same
    · intro block earlier latch notLatch isOpen isLatch isNext
      have noYield := (mem_pathSuccessors.mp isNext).2.2
      have atMost := neverRejoins.once block earlier.reverse latch notLatch
        (open_iff_way.mp isOpen) isLatch noYield
      have atLeast := List.count_pos_iff.mpr isNext
      rw [← count_pathSuccessors isNext] at atMost
      exact Nat.le_antisymm atMost atLeast

/-- A path in `LatchToPaths` is one of those found for the latch. -/
theorem mem_latchToPaths {latch : BinaryBasicBlock}
    {path : List BinaryBasicBlock} :
    path ∈ (loop.latchToPaths.get? (some latch)).getD [] ↔
      path ∈ loop.findAllPathes ∧ path.getLast? = some latch := by
  rw [latchToPaths, Dict.get?_foldl_append, Dict.get?_empty,
    Option.getD_none, List.nil_append, List.mem_filter, decide_eq_true_eq]

omit [DecidableEq BinaryBasicBlock] in
theorem forward_injective :
    Function.Injective (@forward BinaryBasicBlock) := by
  rintro ⟨block, earlier⟩ ⟨block', earlier'⟩ same
  obtain ⟨sameEarlier, sameBlock⟩ := List.append_inj' same rfl
  exact Prod.ext (List.singleton_inj.mp sameBlock)
    (List.reverse_injective sameEarlier)

theorem latchWay_forward {path : Path BinaryBasicBlock} :
    loop.LatchWay (forward path) ↔
      loop.search.Open path.1 path.2 ∧ loop.search.stops path.1 = true := by
  rw [open_iff_way]
  constructor
  · rintro ⟨way, latch, isLast, isLatch⟩
    rw [forward, List.getLast?_concat, Option.some_inj] at isLast
    rw [← isLast] at isLatch
    exact ⟨way, isLatch⟩
  · rintro ⟨way, isLatch⟩
    exact ⟨way, path.1, by rw [forward, List.getLast?_concat], isLatch⟩

/-- The paths found are all the ways, as far as those of the search are. -/
theorem mem_findAllPathes_iff :
    (∀ path, path ∈ loop.findAllPathes ↔ loop.LatchWay path) ↔
      ∀ path, path ∈ loop.search.paths ↔
        loop.search.Open path.1 path.2 ∧
          loop.search.stops path.1 = true := by
  constructor
  · intro found path
    rw [← latchWay_forward, ← found, findAllPathes,
      List.mem_map_of_injective forward_injective]
  · intro found path
    cases isPath : path.reverse with
    | nil =>
        rw [List.reverse_eq_nil_iff.mp isPath, findAllPathes, List.mem_map]
        constructor
        · rintro ⟨other, -, isNil⟩
          simp [forward] at isNil
        · rintro ⟨way, -⟩
          cases way.starts
    | cons block earlier =>
        have isForward : path = forward (block, earlier) := by
          rw [← List.reverse_reverse path, isPath, List.reverse_cons, forward]
        rw [isForward, latchWay_forward, ← found, findAllPathes,
          List.mem_map_of_injective forward_injective]

/-- `findAllPathes` finds all ways exactly if no two of them rejoin. -/
theorem findsAll_iff_neverRejoins
    (loop : BinaryLoop BinaryBasicBlock Loop) :
    loop.FindsAll ↔ loop.NeverRejoins := by
  rw [← onlyWays_iff, ← Graph.paths_complete_iff, ← mem_findAllPathes_iff]
  constructor
  · intro findsAll
    exact ⟨List.Nodup.of_map _ findsAll.nodup, findsAll.found⟩
  · rintro ⟨distinct, found⟩
    refine ⟨Graph.stack_run_init, distinct.map forward_injective, found,
      fun latch path => ?_⟩
    rw [mem_latchToPaths, found]

/--
A diamond: a header with two successors, which rejoin before the latch.  There
is an exit behind the latch.
-/
def diamond : BinaryLoop (Fin 6) Unit where
  successors
    | 0 => [1, 2]
    | 1 => [3]
    | 2 => [3]
    | 3 => [4]
    | 4 => [0, 5]
    | 5 => []
  getLoopFor block := if block = 5 then none else some ()
  loop := ()
  header := 0
  blocks := [0, 1, 2, 3, 4]
  header_mem := by decide
  innermost := by decide
  yieldCntMap _ := none

/-- The second way through the diamond is not found. -/
theorem diamond_not_findsAll :
    diamond.Acyclic ∧ diamond.findAllPathes = [[0, 2, 3, 4]] ∧
      diamond.LatchWay [0, 1, 3, 4] ∧ ¬diamond.FindsAll := by
  have found : diamond.findAllPathes = [[0, 2, 3, 4]] := by decide +kernel
  have way : diamond.LatchWay [0, 1, 3, 4] :=
    { starts := rfl
      edges := by decide
      inside := by decide
      first := by decide
      ends := ⟨4, rfl, by decide⟩ }
  refine ⟨⟨Fin.val, by decide⟩, found, way, fun findsAll => ?_⟩
  have isFound := (findsAll.found [0, 1, 3, 4]).mpr way
  rw [found] at isFound
  cases List.mem_singleton.mp isFound

end BinaryLoop

end Msh.BoundYieldDistanceScanner
