import Mathlib.Data.List.Count
import Mathlib.Data.List.Nodup
import Mathlib.Algebra.Order.BigOperators.Group.List
import Mathlib.Algebra.Order.Ring.Nat

/-!
# Searching for paths with a stack

A search keeps whole paths on a stack.  A path that has come to a stop is
found; any other one is continued to the next nodes of its last node, but only
if no path to this node has been continued before.  So the search finds, of
the paths to a stop, those whose beginnings were the first ones to be
continued from their nodes.
-/

namespace PathSearch

variable {Node : Type}

/-- A graph with a start and with nodes at which paths stop. -/
structure Graph (Node : Type) where
  start : Node
  next : Node → List Node
  stops : Node → Bool
  /-- Nodes enough for all paths -/
  nodes : List Node
  start_mem : start ∈ nodes
  next_mem : ∀ node, ∀ other ∈ next node, other ∈ nodes

/-- A path: its last node, and the ones before, the nearest one first. -/
abbrev Path (Node : Type) := Node × List Node

/-- The state of a search, with the top of the stack first. -/
structure Search (Node : Type) where
  stack : List (Path Node)
  visited : List Node
  found : List (Path Node)

namespace Graph

variable (graph : Graph Node)

/-- A path is open if it has not come to a stop before its last node. -/
inductive Open : Node → List Node → Prop where
  | start : Open graph.start []
  | step {node other : Node} {earlier : List Node}
      (isOpen : Open node earlier) (goesOn : graph.stops node = false)
      (isNext : other ∈ graph.next node) : Open other (node :: earlier)

/-- A stop can be reached from a node. -/
inductive Leads : Node → Prop where
  | stop {node : Node} (stops : graph.stops node = true) : Leads node
  | step {node other : Node} (goesOn : graph.stops node = false)
      (isNext : other ∈ graph.next node) (leads : Leads other) : Leads node

/-- The paths that continue a path, the one to the last next node first. -/
def continued (path : Path Node) : List (Path Node) :=
  (graph.next path.1).reverse.map fun other => (other, path.1 :: path.2)

/-- Before the first step -/
def init : Search Node := ⟨[(graph.start, [])], [], []⟩

variable [DecidableEq Node]

/-- Take a path from the stack. -/
def step (search : Search Node) : Search Node :=
  match search.stack with
  | [] => search
  | path :: rest =>
      if graph.stops path.1 then
        ⟨rest, search.visited, search.found ++ [path]⟩
      else if path.1 ∈ search.visited then
        ⟨rest, search.visited, search.found⟩
      else
        ⟨graph.continued path ++ rest, path.1 :: search.visited,
          search.found⟩

/-- Take some paths from the stack. -/
def run : Nat → Search Node → Search Node
  | 0, search => search
  | count + 1, search => run count (graph.step search)

/-- The paths that can still be put on the stack. -/
def room (visited : List Node) : Nat :=
  ((graph.nodes.filter (· ∉ visited)).map fun node =>
    (graph.next node).length).sum

/-- As many steps as paths can be put on the stack -/
def steps : Nat :=
  1 + graph.room []

/-- The paths that a search finds -/
def paths : List (Path Node) :=
  (graph.run graph.steps graph.init).found

/-! ## The search ends -/

/-- All paths on the stack end at nodes of the graph. -/
def Inside (search : Search Node) : Prop :=
  ∀ path ∈ search.stack, path.1 ∈ graph.nodes

variable {graph}

/-- Once a node has been visited, its next nodes do not count any more. -/
theorem room_cons {visited : List Node} {node : Node}
    (member : node ∈ graph.nodes) (fresh : node ∉ visited) :
    graph.room (node :: visited) + (graph.next node).length ≤
      graph.room visited := by
  have fewer (nodes : List Node) :
      ((nodes.filter (· ∉ node :: visited)).map fun other =>
          (graph.next other).length).sum ≤
        ((nodes.filter (· ∉ visited)).map fun other =>
          (graph.next other).length).sum := by
    refine ((List.monotone_filter_right nodes fun other notIn => ?_).map
      fun other => (graph.next other).length).sum_le_sum fun _ _ =>
        Nat.zero_le _
    rw [decide_eq_true_eq] at notIn ⊢
    exact fun isVisited => notIn (List.mem_cons_of_mem _ isVisited)
  have without (nodes : List Node) (member : node ∈ nodes) :
      ((nodes.filter (· ∉ node :: visited)).map fun other =>
          (graph.next other).length).sum + (graph.next node).length ≤
        ((nodes.filter (· ∉ visited)).map fun other =>
          (graph.next other).length).sum := by
    induction nodes with
    | nil => cases member
    | cons head rest inductionHypothesis =>
        by_cases isNode : head = node
        · subst isNode
          have ofRest := fewer rest
          rw [List.filter_cons_of_neg (by simp),
            List.filter_cons_of_pos (by simpa using fresh), List.map_cons,
            List.sum_cons]
          omega
        · have ofRest := inductionHypothesis
            ((List.mem_cons.mp member).resolve_left (Ne.symm isNode))
          by_cases isVisited : head ∈ visited
          · rw [List.filter_cons_of_neg (by simp [isVisited]),
              List.filter_cons_of_neg (by simpa using isVisited)]
            exact ofRest
          · rw [List.filter_cons_of_pos (by simp [isNode, isVisited]),
              List.filter_cons_of_pos (by simpa using isVisited),
              List.map_cons, List.sum_cons, List.map_cons, List.sum_cons]
            omega
  exact without graph.nodes member

theorem step_inside {search : Search Node} (inside : graph.Inside search) :
    graph.Inside (graph.step search) := by
  unfold step
  cases isStack : search.stack with
  | nil => exact inside
  | cons path rest =>
      rw [Inside, isStack] at inside
      have restInside : ∀ other ∈ rest, other.1 ∈ graph.nodes :=
        fun other member => inside other (List.mem_cons_of_mem _ member)
      dsimp only
      split
      · exact restInside
      · split
        · exact restInside
        · intro other member
          rcases List.mem_append.mp member with isNew | inRest
          · obtain ⟨node, isNext, rfl⟩ := List.mem_map.mp isNew
            exact graph.next_mem path.1 node (List.mem_reverse.mp isNext)
          · exact restInside other inRest

theorem run_of_nil {search : Search Node} (isEmpty : search.stack = [])
    (count : Nat) : graph.run count search = search := by
  induction count with
  | zero => rfl
  | succ count inductionHypothesis =>
      have same : graph.step search = search := by
        simp only [step, isEmpty]
      rw [run, same, inductionHypothesis]

/-- Each step uses up room, or a path on the stack. -/
theorem step_room {search : Search Node} {path : Path Node}
    {rest : List (Path Node)} (inside : graph.Inside search)
    (isStack : search.stack = path :: rest) :
    (graph.step search).stack.length +
        graph.room (graph.step search).visited + 1 ≤
      search.stack.length + graph.room search.visited := by
  have length : search.stack.length = rest.length + 1 := by
    rw [isStack, List.length_cons]
  have member : path.1 ∈ graph.nodes :=
    inside path (by rw [isStack]; exact List.mem_cons_self)
  simp only [step, isStack]
  split
  · simp only [List.length_cons]
    omega
  · split
    · simp only [List.length_cons]
      omega
    · next fresh =>
        have used := graph.room_cons member fresh
        simp only [List.length_append, continued, List.length_map,
          List.length_reverse, List.length_cons]
        omega

/-- With enough steps, a search comes to an end. -/
theorem stack_run {search : Search Node} {count : Nat}
    (inside : graph.Inside search)
    (enough : search.stack.length + graph.room search.visited ≤ count) :
    (graph.run count search).stack = [] := by
  induction count generalizing search with
  | zero =>
      have isEmpty : search.stack.length = 0 := by omega
      exact List.length_eq_zero_iff.mp isEmpty
  | succ count inductionHypothesis =>
      cases isStack : search.stack with
      | nil => rw [run_of_nil isStack, isStack]
      | cons path rest =>
          have used := step_room inside isStack
          exact inductionHypothesis (step_inside inside) (by omega)

theorem stack_run_init : (graph.run graph.steps graph.init).stack = [] := by
  apply stack_run
  · intro path member
    rw [List.mem_singleton.mp member]
    exact graph.start_mem
  · exact Nat.le_refl _

/-! ## What is found -/

/--
What a search has done: each path that it has continued, one for each visited
node, is open, and the paths to stops have been put on the stack as often as
the nodes before them have their last nodes as next ones.
-/
structure Explored (graph : Graph Node) (expanded : List (Path Node))
    (search : Search Node) : Prop where
  visited : search.visited = expanded.map Prod.fst
  distinct : (expanded.map Prod.fst).Nodup
  expandedOpen :
    ∀ path ∈ expanded,
      graph.Open path.1 path.2 ∧ graph.stops path.1 = false
  stackOpen : ∀ path ∈ search.stack, graph.Open path.1 path.2
  earlier :
    ∀ node other earlier,
      (other, node :: earlier) ∈ expanded ++ search.stack →
        (node, earlier) ∈ expanded
  started :
    graph.stops graph.start = false →
      (graph.start, []) ∈ search.stack ∨ graph.start ∈ search.visited
  pending :
    ∀ path ∈ expanded, ∀ other ∈ graph.next path.1,
      graph.stops other = false →
        (other, path.1 :: path.2) ∈ search.stack ∨
          other ∈ search.visited
  countStart :
    graph.stops graph.start = true →
      (search.found ++ search.stack).count (graph.start, []) = 1
  count :
    ∀ node other earlier, graph.stops other = true →
      (search.found ++ search.stack).count (other, node :: earlier) =
        if (node, earlier) ∈ expanded then (graph.next node).count other
        else 0
  foundStops : ∀ path ∈ search.found, graph.stops path.1 = true
  foundStart :
    ∀ node, (node, []) ∈ search.found ++ search.stack → node = graph.start

theorem explored_init : Explored graph [] graph.init where
  visited := rfl
  distinct := List.nodup_nil
  expandedOpen _ member := by cases member
  stackOpen path member := by
    rw [List.mem_singleton.mp member]
    exact .start
  earlier node other earlier member := by
    cases List.mem_singleton.mp member
  started _ := .inl (List.mem_singleton_self _)
  pending _ member := by cases member
  countStart _ := by simp [init]
  count node other earlier _ := by simp [init]
  foundStops _ member := by cases member
  foundStart node member := by
    cases List.mem_singleton.mp member
    rfl

/-- A path that has been taken away is none of the others. -/
theorem count_pop {path other : Path Node} {found rest : List (Path Node)}
    (isOther : path ≠ other) :
    (found ++ path :: rest).count other = (found ++ rest).count other := by
  rw [List.count_append, List.count_append, List.count_cons_of_ne isOther]

namespace Explored

variable {expanded : List (Path Node)} {search : Search Node}
  {path : Path Node} {rest : List (Path Node)}

/-- A path to a stop is found. -/
theorem step_stop (explored : Explored graph expanded search)
    (isStack : search.stack = path :: rest)
    (stops : graph.stops path.1 = true) :
    Explored graph expanded ⟨rest, search.visited, search.found ++ [path]⟩ := by
  have fromRest (other : Path Node) (goesOn : graph.stops other.1 = false)
      (member : other ∈ search.stack) : other ∈ rest := by
    rw [isStack] at member
    refine (List.mem_cons.mp member).resolve_left fun same => ?_
    rw [same, stops] at goesOn
    cases goesOn
  have onStack (other : Path Node) (member : other ∈ rest) :
      other ∈ search.stack := by
    rw [isStack]
    exact List.mem_cons_of_mem _ member
  have same :
      (search.found ++ [path]) ++ rest = search.found ++ search.stack := by
    rw [isStack, List.append_assoc, List.singleton_append]
  exact {
    visited := explored.visited
    distinct := explored.distinct
    expandedOpen := explored.expandedOpen
    stackOpen := fun other member =>
      explored.stackOpen other (onStack other member)
    earlier := by
      intro node other earlier member
      refine explored.earlier node other earlier ?_
      rcases List.mem_append.mp member with isExpanded | inRest
      · exact List.mem_append_left _ isExpanded
      · exact List.mem_append_right _ (onStack _ inRest)
    started := fun goesOn =>
      (explored.started goesOn).imp_left (fromRest _ goesOn)
    pending := fun before member other isNext goesOn =>
      (explored.pending before member other isNext goesOn).imp_left
        (fromRest _ goesOn)
    countStart := by
      rw [same]
      exact explored.countStart
    count := by
      rw [same]
      exact explored.count
    foundStops := by
      intro other member
      rcases List.mem_append.mp member with isFound | isPath
      · exact explored.foundStops other isFound
      · rw [List.mem_singleton.mp isPath]
        exact stops
    foundStart := by
      rw [same]
      exact explored.foundStart
  }

/-- A path to a visited node is dropped. -/
theorem step_visited (explored : Explored graph expanded search)
    (isStack : search.stack = path :: rest)
    (goesOn : graph.stops path.1 = false)
    (isVisited : path.1 ∈ search.visited) :
    Explored graph expanded ⟨rest, search.visited, search.found⟩ := by
  have onStack (other : Path Node) (member : other ∈ rest) :
      other ∈ search.stack := by
    rw [isStack]
    exact List.mem_cons_of_mem _ member
  have fromStack {other : Path Node} :
      other ∈ search.stack ∨ other.1 ∈ search.visited →
        other ∈ rest ∨ other.1 ∈ search.visited := by
    rintro (member | otherVisited)
    · rw [isStack] at member
      rcases List.mem_cons.mp member with rfl | inRest
      · exact .inr isVisited
      · exact .inl inRest
    · exact .inr otherVisited
  have sameCount (other : Path Node) (stops : graph.stops other.1 = true) :
      (search.found ++ rest).count other =
        (search.found ++ search.stack).count other := by
    rw [isStack]
    refine (count_pop ?_).symm
    rintro rfl
    rw [stops] at goesOn
    cases goesOn
  exact {
    visited := explored.visited
    distinct := explored.distinct
    expandedOpen := explored.expandedOpen
    stackOpen := fun other member =>
      explored.stackOpen other (onStack other member)
    earlier := by
      intro node other earlier member
      refine explored.earlier node other earlier ?_
      rcases List.mem_append.mp member with isExpanded | inRest
      · exact List.mem_append_left _ isExpanded
      · exact List.mem_append_right _ (onStack _ inRest)
    started := fun startGoesOn => fromStack (explored.started startGoesOn)
    pending := fun before member other isNext otherGoesOn =>
      fromStack (explored.pending before member other isNext otherGoesOn)
    countStart := by
      intro stops
      rw [sameCount _ stops]
      exact explored.countStart stops
    count := by
      intro node other earlier stops
      rw [sameCount _ stops]
      exact explored.count node other earlier stops
    foundStops := explored.foundStops
    foundStart := by
      intro node member
      refine explored.foundStart node ?_
      rcases List.mem_append.mp member with isFound | inRest
      · exact List.mem_append_left _ isFound
      · exact List.mem_append_right _ (onStack _ inRest)
  }

/-- A path that is continued puts each of its next nodes on the stack. -/
theorem count_continued (node other : Node) (earlier : List Node) :
    (graph.continued path).count (other, node :: earlier) =
      if (node, earlier) = path then (graph.next node).count other else 0 := by
  split
  · next isPath =>
      subst isPath
      have injective :
          Function.Injective fun other : Node => (other, node :: earlier) :=
        fun _ _ same => congrArg Prod.fst same
      rw [continued, List.count_map_of_injective _ _ injective,
        List.count_reverse]
  · next isOther =>
      apply List.count_eq_zero_of_not_mem
      intro member
      obtain ⟨next, -, same⟩ := List.mem_map.mp member
      injection same with _ sameEarlier
      injection sameEarlier with sameNode sameRest
      exact isOther (by rw [← sameNode, ← sameRest])

/-- A path to a fresh node is continued. -/
theorem step_fresh (explored : Explored graph expanded search)
    (isStack : search.stack = path :: rest)
    (goesOn : graph.stops path.1 = false)
    (fresh : path.1 ∉ search.visited) :
    Explored graph (path :: expanded)
      ⟨graph.continued path ++ rest, path.1 :: search.visited,
        search.found⟩ := by
  have onStack (other : Path Node) (member : other ∈ rest) :
      other ∈ search.stack := by
    rw [isStack]
    exact List.mem_cons_of_mem _ member
  have pathOpen : graph.Open path.1 path.2 :=
    explored.stackOpen path (by rw [isStack]; exact List.mem_cons_self)
  have notExpanded : path ∉ expanded := by
    intro isExpanded
    rw [explored.visited] at fresh
    exact fresh (List.mem_map_of_mem isExpanded)
  have fromStack {other : Path Node} :
      other ∈ search.stack ∨ other.1 ∈ search.visited →
        other ∈ graph.continued path ++ rest ∨
          other.1 ∈ path.1 :: search.visited := by
    rintro (member | otherVisited)
    · rw [isStack] at member
      rcases List.mem_cons.mp member with rfl | inRest
      · exact .inr List.mem_cons_self
      · exact .inl (List.mem_append_right _ inRest)
    · exact .inr (List.mem_cons_of_mem _ otherVisited)
  have notPath (other : Path Node) (stops : graph.stops other.1 = true) :
      path ≠ other := by
    rintro rfl
    rw [stops] at goesOn
    cases goesOn
  have countRest (other : Path Node) (stops : graph.stops other.1 = true) :
      (search.found ++ (graph.continued path ++ rest)).count other =
        (graph.continued path).count other +
          (search.found ++ search.stack).count other := by
    rw [isStack, count_pop (notPath other stops), List.count_append,
      List.count_append, List.count_append]
    omega
  exact {
    visited := by rw [explored.visited, List.map_cons]
    distinct := by
      rw [List.map_cons, List.nodup_cons, ← explored.visited]
      exact ⟨fresh, explored.visited ▸ explored.distinct⟩
    expandedOpen := by
      intro other member
      rcases List.mem_cons.mp member with rfl | isExpanded
      · exact ⟨pathOpen, goesOn⟩
      · exact explored.expandedOpen other isExpanded
    stackOpen := by
      intro other member
      rcases List.mem_append.mp member with isNew | inRest
      · obtain ⟨node, isNext, rfl⟩ := List.mem_map.mp isNew
        exact .step pathOpen goesOn (List.mem_reverse.mp isNext)
      · exact explored.stackOpen other (onStack other inRest)
    earlier := by
      intro node other earlier member
      have before (earlierMember :
          (other, node :: earlier) ∈ expanded ++ search.stack) :
          (node, earlier) ∈ path :: expanded :=
        List.mem_cons_of_mem _
          (explored.earlier node other earlier earlierMember)
      rcases List.mem_append.mp member with isExpanded | onNewStack
      · rcases List.mem_cons.mp isExpanded with isPath | isExpanded
        · exact before (List.mem_append_right _
            (by rw [isStack, isPath]; exact List.mem_cons_self))
        · exact before (List.mem_append_left _ isExpanded)
      · rcases List.mem_append.mp onNewStack with isNew | inRest
        · obtain ⟨next, -, same⟩ := List.mem_map.mp isNew
          injection same with _ sameEarlier
          injection sameEarlier with sameNode sameRest
          rw [← sameNode, ← sameRest]
          exact List.mem_cons_self
        · exact before (List.mem_append_right _ (onStack _ inRest))
    started := fun startGoesOn => fromStack (explored.started startGoesOn)
    pending := by
      intro before member other isNext otherGoesOn
      rcases List.mem_cons.mp member with rfl | isExpanded
      · refine .inl (List.mem_append_left _ ?_)
        exact List.mem_map_of_mem (List.mem_reverse.mpr isNext)
      · exact fromStack
          (explored.pending before isExpanded other isNext otherGoesOn)
    countStart := by
      intro stops
      have noneNew : (graph.continued path).count (graph.start, []) = 0 := by
        apply List.count_eq_zero_of_not_mem
        intro member
        obtain ⟨next, -, same⟩ := List.mem_map.mp member
        cases same
      rw [countRest _ stops, noneNew, explored.countStart stops]
    count := by
      intro node other earlier stops
      rw [countRest _ stops, explored.count node other earlier stops,
        count_continued]
      by_cases isPath : (node, earlier) = path
      · rw [if_pos isPath, if_neg (isPath ▸ notExpanded),
          if_pos (isPath ▸ List.mem_cons_self), Nat.add_zero]
      · rw [if_neg isPath, Nat.zero_add]
        simp only [List.mem_cons, isPath, false_or]
    foundStops := explored.foundStops
    foundStart := by
      intro node member
      refine explored.foundStart node ?_
      rcases List.mem_append.mp member with isFound | onNewStack
      · exact List.mem_append_left _ isFound
      · rcases List.mem_append.mp onNewStack with isNew | inRest
        · obtain ⟨next, -, same⟩ := List.mem_map.mp isNew
          cases same
        · exact List.mem_append_right _ (onStack _ inRest)
  }

theorem step (explored : Explored graph expanded search) :
    ∃ expanded', Explored graph expanded' (graph.step search) := by
  unfold Graph.step
  cases isStack : search.stack with
  | nil => exact ⟨expanded, explored⟩
  | cons path rest =>
      dsimp only
      split
      · next stops => exact ⟨expanded, explored.step_stop isStack stops⟩
      · next notStop =>
          have goesOn := Bool.eq_false_iff.mpr notStop
          split
          · next isVisited =>
              exact ⟨expanded,
                explored.step_visited isStack goesOn isVisited⟩
          · next fresh =>
              exact ⟨path :: expanded,
                explored.step_fresh isStack goesOn fresh⟩

theorem run (explored : Explored graph expanded search) (count : Nat) :
    ∃ expanded', Explored graph expanded' (graph.run count search) := by
  induction count generalizing expanded search with
  | zero => exact ⟨expanded, explored⟩
  | succ count inductionHypothesis =>
      obtain ⟨expanded', explored'⟩ := explored.step
      exact inductionHypothesis explored'

/-! ## A search at its end -/

section AtEnd

variable (explored : Explored graph expanded search)
  (isEmpty : search.stack = [])

include explored isEmpty

theorem count_found (node other : Node) (earlier : List Node)
    (stops : graph.stops other = true) :
    search.found.count (other, node :: earlier) =
      if (node, earlier) ∈ expanded then (graph.next node).count other
      else 0 := by
  have counted := explored.count node other earlier stops
  rwa [isEmpty, List.append_nil] at counted

/-- A path that is found continues an expanded one. -/
theorem of_found {node other : Node} {earlier : List Node}
    (isFound : (other, node :: earlier) ∈ search.found) :
    (node, earlier) ∈ expanded ∧ other ∈ graph.next node := by
  have positive := List.count_pos_iff.mpr isFound
  rw [explored.count_found isEmpty node other earlier
    (explored.foundStops _ isFound)] at positive
  split at positive
  · next isExpanded =>
      exact ⟨isExpanded, List.count_pos_iff.mp positive⟩
  · exact absurd positive (Nat.lt_irrefl 0)

/-- Each node to which an open path leads has been visited. -/
theorem visited_of_open {node : Node} {earlier : List Node}
    (isOpen : graph.Open node earlier)
    (goesOn : graph.stops node = false) :
    ∃ earlier', (node, earlier') ∈ expanded := by
  have visited : node ∈ search.visited := by
    induction isOpen with
    | start =>
        refine (explored.started goesOn).resolve_left fun onStack => ?_
        rw [isEmpty] at onStack
        cases onStack
    | @step before other earlier _ beforeGoesOn isNext inductionHypothesis =>
        have beforeVisited := inductionHypothesis beforeGoesOn
        rw [explored.visited] at beforeVisited
        obtain ⟨path, isExpanded, rfl⟩ := List.mem_map.mp beforeVisited
        refine (explored.pending path isExpanded other isNext
          goesOn).resolve_left fun onStack => ?_
        rw [isEmpty] at onStack
        cases onStack
  rw [explored.visited] at visited
  obtain ⟨path, isExpanded, rfl⟩ := List.mem_map.mp visited
  exact ⟨path.2, isExpanded⟩

/-- If all paths to stops are found, then all their beginnings have been
continued. -/
theorem expanded_of_complete
    (complete :
      ∀ path, graph.Open path.1 path.2 → graph.stops path.1 = true →
        path ∈ search.found)
    {node : Node} {earlier : List Node} (leads : graph.Leads node)
    (isOpen : graph.Open node earlier)
    (goesOn : graph.stops node = false) : (node, earlier) ∈ expanded := by
  induction leads generalizing earlier with
  | stop stops =>
      rw [stops] at goesOn
      cases goesOn
  | @step node other _ isNext _ inductionHypothesis =>
      have nextOpen := isOpen.step goesOn isNext
      cases otherStops : graph.stops other with
      | true =>
          exact (explored.of_found isEmpty
            (complete (other, node :: earlier) nextOpen otherStops)).1
      | false =>
          exact explored.earlier node other earlier
            (List.mem_append_left _ (inductionHypothesis nextOpen otherStops))

end AtEnd

end Explored

/-! ## When all paths are found -/

variable (graph) in
/--
There is only one way to each node from which a stop can be reached, up to
the stop itself, where ways come together again.
-/
structure OnlyWays : Prop where
  same :
    ∀ node earlier earlier', graph.stops node = false →
      graph.Leads node → graph.Open node earlier →
        graph.Open node earlier' → earlier = earlier'
  once :
    ∀ node earlier other, graph.stops node = false →
      graph.Open node earlier → graph.stops other = true →
        other ∈ graph.next node → (graph.next node).count other = 1

/-- The search finds the paths to stops, each once, exactly if there are not
two ways to one node on them. -/
theorem paths_complete_iff :
    (graph.paths.Nodup ∧
        ∀ path, path ∈ graph.paths ↔
          graph.Open path.1 path.2 ∧ graph.stops path.1 = true) ↔
      graph.OnlyWays := by
  obtain ⟨expanded, explored⟩ :=
    (@explored_init _ graph _).run graph.steps
  have isEmpty := @stack_run_init _ graph _
  constructor
  · rintro ⟨distinct, found⟩
    have complete (path : Path Node) (isOpen : graph.Open path.1 path.2)
        (stops : graph.stops path.1 = true) :
        path ∈ (graph.run graph.steps graph.init).found :=
      (found path).mpr ⟨isOpen, stops⟩
    constructor
    · intro node earlier earlier' goesOn leads isOpen isOpen'
      have isExpanded :=
        explored.expanded_of_complete isEmpty complete leads isOpen goesOn
      have isExpanded' :=
        explored.expanded_of_complete isEmpty complete leads isOpen' goesOn
      have same := List.inj_on_of_nodup_map explored.distinct isExpanded
        isExpanded' rfl
      exact congrArg Prod.snd same
    · intro node earlier other goesOn isOpen stops isNext
      have isExpanded := explored.expanded_of_complete isEmpty complete
        (.step goesOn isNext (.stop stops)) isOpen goesOn
      have counted := explored.count_found isEmpty node other earlier stops
      rw [if_pos isExpanded] at counted
      rw [← counted]
      exact List.count_eq_one_of_mem distinct
        (complete (other, node :: earlier) (isOpen.step goesOn isNext) stops)
  · intro onlyWays
    have countStart (stops : graph.stops graph.start = true) :
        graph.paths.count (graph.start, []) = 1 := by
      have counted := explored.countStart stops
      rwa [isEmpty, List.append_nil] at counted
    have isOpen (path : Path Node) (isFound : path ∈ graph.paths) :
        graph.Open path.1 path.2 := by
      obtain ⟨node, earlier⟩ := path
      cases earlier with
      | nil =>
          rw [explored.foundStart node (List.mem_append_left _ isFound)]
          exact .start
      | cons before earlier =>
          obtain ⟨isExpanded, isNext⟩ := explored.of_found isEmpty isFound
          obtain ⟨beforeOpen, goesOn⟩ := explored.expandedOpen _ isExpanded
          exact beforeOpen.step goesOn isNext
    constructor
    · rw [List.nodup_iff_count_le_one]
      rintro ⟨node, earlier⟩
      by_cases isFound : (node, earlier) ∈ graph.paths
      · have stops : graph.stops node = true := explored.foundStops _ isFound
        cases earlier with
        | nil =>
            have isStart :=
              explored.foundStart node (List.mem_append_left _ isFound)
            subst isStart
            exact (countStart stops).le
        | cons before earlier =>
            obtain ⟨isExpanded, isNext⟩ := explored.of_found isEmpty isFound
            obtain ⟨beforeOpen, goesOn⟩ := explored.expandedOpen _ isExpanded
            have counted :=
              explored.count_found isEmpty before node earlier stops
            rw [if_pos isExpanded, onlyWays.once before earlier node goesOn
              beforeOpen stops isNext] at counted
            exact counted.le
      · rw [List.count_eq_zero_of_not_mem isFound]
        exact Nat.zero_le 1
    · rintro ⟨node, earlier⟩
      constructor
      · intro isFound
        exact ⟨isOpen _ isFound, explored.foundStops _ isFound⟩
      · rintro ⟨pathOpen, stops⟩
        cases pathOpen with
        | start =>
            apply List.count_pos_iff.mp
            rw [countStart stops]
            exact Nat.one_pos
        | @step before _ earlier beforeOpen goesOn isNext =>
            obtain ⟨earlier', isExpanded⟩ :=
              explored.visited_of_open isEmpty beforeOpen goesOn
            have same := onlyWays.same before earlier earlier' goesOn
              (.step goesOn isNext (.stop stops)) beforeOpen
              (explored.expandedOpen _ isExpanded).1
            subst same
            have counted :=
              explored.count_found isEmpty before node earlier stops
            rw [if_pos isExpanded] at counted
            apply List.count_pos_iff.mp
            rw [paths, counted]
            exact List.count_pos_iff.mpr isNext

end Graph

end PathSearch
