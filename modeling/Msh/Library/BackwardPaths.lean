import Mathlib.Algebra.BigOperators.Ring.List
import Mathlib.Algebra.GroupWithZero.Nat
import Mathlib.Data.List.Count

/-!
# Paths back to a start

In a region without cycles the predecessors of every node but the start are in
the region.  A path is read from its last node back to the start.  When the weights
of the predecessors of each node sum to one, so do the products of the weights
along all paths of a node.
-/

/-- A region without cycles that is entered at its start -/
structure BackwardPaths (Node : Type) where
  start : Node
  inside : Node → Prop
  predecessors : Node → List Node
  rank : Node → Nat
  predecessors_inside : ∀ node, inside node → node ≠ start →
    ∀ previous ∈ predecessors node, inside previous
  rank_lt : ∀ node, inside node → node ≠ start →
    ∀ previous ∈ predecessors node, rank previous < rank node

namespace BackwardPaths

variable {Node : Type} [DecidableEq Node] (region : BackwardPaths Node)

/-- The paths of up to some length from a node back to the start, one for each
choice of edges -/
def pathsTo : Nat → Node → List (List Node)
  | 0, _ => []
  | fuel + 1, node =>
      if node = region.start then [[node]]
      else (region.predecessors node).flatMap fun previous =>
        (pathsTo fuel previous).map (node :: ·)

/-- A path goes from predecessor to predecessor, to the start. -/
structure IsPath (path : List Node) : Prop where
  ends : path.getLast? = some region.start
  edges : path.IsChain fun node previous =>
    node ≠ region.start ∧ previous ∈ region.predecessors node

instance (path : List Node) : Decidable (region.IsPath path) :=
  decidable_of_iff
    (path.getLast? = some region.start ∧
      path.IsChain fun node previous =>
        node ≠ region.start ∧ previous ∈ region.predecessors node)
    ⟨fun both => ⟨both.1, both.2⟩, fun isPath => ⟨isPath.1, isPath.2⟩⟩

/-- The number of choices of edges along a path -/
def choices : List Node → Nat
  | [] => 1
  | [_] => 1
  | node :: previous :: earlier =>
      (region.predecessors node).count previous * choices (previous :: earlier)

/-- The product of the weights along a path -/
def weightAlong {Weight : Type} [Semiring Weight]
    (weight : Node → Node → Weight) : List Node → Weight
  | [] => 1
  | [_] => 1
  | node :: previous :: earlier =>
      weight node previous * weightAlong weight (previous :: earlier)

variable {region}

theorem pathsTo_start {fuel : Nat} :
    region.pathsTo (fuel + 1) region.start = [[region.start]] :=
  if_pos rfl

theorem pathsTo_of_ne {fuel : Nat} {node : Node} (notStart : node ≠ region.start) :
    region.pathsTo (fuel + 1) node =
      (region.predecessors node).flatMap fun previous =>
        (region.pathsTo fuel previous).map (node :: ·) :=
  if_neg notStart

/-- A path of a node begins at the node. -/
theorem head_of_mem {fuel : Nat} {node : Node} {path : List Node}
    (isPath : path ∈ region.pathsTo fuel node) :
    ∃ earlier, path = node :: earlier := by
  cases fuel with
  | zero => cases isPath
  | succ fuel =>
      by_cases isStart : node = region.start
      · subst isStart
        rw [pathsTo_start, List.mem_singleton] at isPath
        exact ⟨[], isPath⟩
      · rw [pathsTo_of_ne isStart, List.mem_flatMap] at isPath
        obtain ⟨previous, _, isRest⟩ := isPath
        obtain ⟨earlier, _, rfl⟩ := List.mem_map.mp isRest
        exact ⟨earlier, rfl⟩

omit [DecidableEq Node] in
theorem isPath_start {earlier : List Node} :
    region.IsPath (region.start :: earlier) ↔ earlier = [] := by
  constructor
  · intro isPath
    cases earlier with
    | nil => rfl
    | cons previous earlier =>
        exact absurd rfl (List.isChain_cons_cons.mp isPath.edges).1.1
  · rintro rfl
    exact ⟨rfl, .singleton _⟩

omit [DecidableEq Node] in
theorem isPath_cons {node previous : Node} {earlier : List Node} :
    region.IsPath (node :: previous :: earlier) ↔
      (node ≠ region.start ∧ previous ∈ region.predecessors node) ∧
        region.IsPath (previous :: earlier) := by
  constructor
  · intro isPath
    obtain ⟨isEdge, edges⟩ := List.isChain_cons_cons.mp isPath.edges
    have ends := isPath.ends
    rw [List.getLast?_cons_cons] at ends
    exact ⟨isEdge, ends, edges⟩
  · rintro ⟨isEdge, isPath⟩
    refine ⟨?_, List.isChain_cons_cons.mpr ⟨isEdge, isPath.edges⟩⟩
    rw [List.getLast?_cons_cons]
    exact isPath.ends

theorem sum_ite_eq (nodes : List Node) (node : Node) (amount : Nat) :
    (nodes.map fun other => if node = other then amount else 0).sum =
      nodes.count node * amount := by
  induction nodes with
  | nil => simp
  | cons other nodes inductionHypothesis =>
      rw [List.map_cons, List.sum_cons, inductionHypothesis]
      by_cases isHere : node = other
      · rw [if_pos isHere, isHere, List.count_cons_self, Nat.succ_mul,
          Nat.add_comm]
      · rw [if_neg isHere, List.count_cons_of_ne (Ne.symm isHere),
          Nat.zero_add]

/-- Where a path is when a node is put in front of all paths of some lists -/
theorem count_flatMap_cons (nodes : List Node) (paths : Node → List (List Node))
    (node first : Node) (earlier : List Node) :
    (nodes.flatMap fun previous => (paths previous).map (node :: ·)).count
        (first :: earlier) =
      if first = node then
        (nodes.map fun previous => (paths previous).count earlier).sum
      else 0 := by
  split
  · next isFirst =>
      subst isFirst
      rw [List.count_flatMap, Function.comp_def]
      refine congrArg List.sum (List.map_congr_left fun previous _ => ?_)
      exact List.count_map_of_injective _ _ List.cons_injective _
  · next notFirst =>
      refine List.count_eq_zero.mpr fun isMem => notFirst ?_
      obtain ⟨previous, _, isPath⟩ := List.mem_flatMap.mp isMem
      obtain ⟨_, _, isCons⟩ := List.mem_map.mp isPath
      exact (List.cons.inj isCons).1.symm

/-- The paths that go on from a node, when each predecessor has its own -/
theorem sum_count_predecessors {node : Node} (notStart : node ≠ region.start)
    {paths : Node → List (List Node)}
    (isCount : ∀ previous ∈ region.predecessors node, ∀ path,
      (paths previous).count path =
        if path.head? = some previous ∧ region.IsPath path then
          region.choices path
        else 0)
    (earlier : List Node) :
    ((region.predecessors node).map fun previous =>
        (paths previous).count earlier).sum =
      if region.IsPath (node :: earlier) then region.choices (node :: earlier)
      else 0 := by
  rw [List.map_congr_left fun previous isPrevious =>
    isCount previous isPrevious earlier]
  cases earlier with
  | nil =>
      rw [if_neg]
      · simp
      · exact fun isPath => notStart (Option.some.inj isPath.ends)
  | cons previous earlier =>
      simp only [List.head?_cons, Option.some.injEq, isPath_cons]
      by_cases isRest : region.IsPath (previous :: earlier)
      · simp only [isRest, and_true, sum_ite_eq]
        by_cases isPrevious : previous ∈ region.predecessors node
        · rw [if_pos ⟨notStart, isPrevious⟩]
          rfl
        · rw [if_neg (fun both => isPrevious both.2),
            List.count_eq_zero.mpr isPrevious, Nat.zero_mul]
      · simp [isRest]

/-- The list has each path of the node once for each choice of edges. -/
theorem count_pathsTo {fuel : Nat} {node : Node} (isInside : region.inside node)
    (isShort : region.rank node < fuel) (path : List Node) :
    (region.pathsTo fuel node).count path =
      if path.head? = some node ∧ region.IsPath path then region.choices path
      else 0 := by
  induction fuel generalizing node path with
  | zero => omega
  | succ fuel inductionHypothesis =>
      by_cases isStart : node = region.start
      · subst isStart
        rw [pathsTo_start]
        by_cases isOnly : path = [region.start]
        · subst isOnly
          rw [List.count_singleton_self,
            if_pos ⟨rfl, isPath_start.mpr rfl⟩]
          rfl
        · rw [List.count_eq_zero.mpr (by simpa using isOnly), if_neg]
          rintro ⟨isHead, isPath⟩
          obtain ⟨earlier, rfl⟩ := List.head?_eq_some_iff.mp isHead
          exact isOnly (by rw [isPath_start.mp isPath])
      · rw [pathsTo_of_ne isStart]
        cases path with
        | nil =>
            rw [if_neg nofun]
            refine List.count_eq_zero.mpr fun isMem => ?_
            obtain ⟨previous, _, isPath⟩ := List.mem_flatMap.mp isMem
            obtain ⟨_, _, isCons⟩ := List.mem_map.mp isPath
            cases isCons
        | cons first earlier =>
            rw [count_flatMap_cons, sum_count_predecessors isStart]
            · by_cases isFirst : first = node
              · subst isFirst
                simp only [if_true, List.head?_cons, true_and]
              · rw [if_neg isFirst, if_neg]
                exact fun both => isFirst (Option.some.inj both.1)
            · intro previous isPrevious path
              have isLess :=
                region.rank_lt node isInside isStart previous isPrevious
              exact inductionHypothesis
                (region.predecessors_inside node isInside isStart previous
                  isPrevious) (by omega) path

section Weights

variable {Weight : Type} [Semiring Weight] {weight : Node → Node → Weight}

/-- The weights of all paths of a node sum to one. -/
theorem sum_weightAlong
    (sumsToOne : ∀ node, region.inside node → node ≠ region.start →
      ((region.predecessors node).map (weight node)).sum = 1)
    {fuel : Nat} {node : Node} (isInside : region.inside node)
    (isShort : region.rank node < fuel) :
    ((region.pathsTo fuel node).map (weightAlong weight)).sum = 1 := by
  induction fuel generalizing node with
  | zero => omega
  | succ fuel inductionHypothesis =>
      by_cases isStart : node = region.start
      · subst isStart
        rw [pathsTo_start, List.map_singleton, List.sum_singleton]
        rfl
      · rw [pathsTo_of_ne isStart, List.flatMap_def, List.map_flatten,
          List.sum_flatten, List.map_map, List.map_map,
          ← sumsToOne node isInside isStart]
        refine congrArg List.sum (List.map_congr_left ?_)
        intro previous isPrevious
        have isLess := region.rank_lt node isInside isStart previous isPrevious
        have isOne := inductionHypothesis
          (region.predecessors_inside node isInside isStart previous isPrevious)
          (by omega)
        have isProduct :
            ∀ path ∈ region.pathsTo fuel previous,
              weightAlong weight (node :: path) =
                weight node previous * weightAlong weight path := by
          intro path isPath
          obtain ⟨earlier, rfl⟩ := head_of_mem isPath
          rfl
        simp only [Function.comp_apply, List.map_map]
        rw [Function.comp_def, List.map_congr_left isProduct,
          List.sum_map_mul_left, isOne, mul_one]

end Weights

end BackwardPaths
