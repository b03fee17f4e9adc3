import Mathlib.Data.List.Count
import Mathlib.Data.List.Nodup
import Mathlib.Data.List.Range
import Mathlib.Data.Nat.ModEq

/-!
# Walks around a ring

A ring names the nodes of a set in turn, each of them once before the first
one comes again.  A walk that goes from each node to the next one is back at
its start after one round and not before, and visits every node once in any
round, wherever the round starts.
-/

/-- The nodes in turn: a sequence that repeats after all of them. -/
structure CyclicWalk (Node : Type) (length : Nat) where
  node : Nat → Node
  period : ∀ index, node (index + length) = node index
  injective :
    ∀ first < length, ∀ second < length, node first = node second →
      first = second
  surjective : ∀ each, ∃ index < length, node index = each

namespace CyclicWalk

variable {Node : Type} {length : Nat} (walk : CyclicWalk Node length)

theorem node_add_mul (index rounds : Nat) :
    walk.node (index + length * rounds) = walk.node index := by
  induction rounds with
  | zero => rfl
  | succ rounds inductionHypothesis =>
      rw [Nat.mul_succ, ← Nat.add_assoc, walk.period, inductionHypothesis]

/-- The place of a node depends on the remainder only. -/
theorem node_mod (index : Nat) :
    walk.node (index % length) = walk.node index := by
  have split := walk.node_add_mul (index % length) (index / length)
  rw [Nat.mod_add_div] at split
  exact split.symm

/-- The walk is at one node at two times exactly when whole rounds lie in
between. -/
theorem node_eq_iff (positive : 0 < length) (first second : Nat) :
    walk.node first = walk.node second ↔
      first % length = second % length := by
  constructor
  · intro same
    rw [← walk.node_mod first, ← walk.node_mod second] at same
    exact
      walk.injective _ (Nat.mod_lt _ positive) _ (Nat.mod_lt _ positive) same
  · intro same
    rw [← walk.node_mod first, ← walk.node_mod second, same]

/-- The nodes that are visited in some number of steps -/
def visits (start steps : Nat) : List Node :=
  (List.range steps).map fun step => walk.node (start + step)

theorem visits_succ (start steps : Nat) :
    walk.visits start (steps + 1) =
      walk.node start :: walk.visits (start + 1) steps := by
  rw [visits, List.range_succ_eq_map, List.map_cons, List.map_map]
  refine congrArg (walk.node start :: ·) (List.map_congr_left fun step _ => ?_)
  simp only [Function.comp_apply, Nat.succ_eq_add_one]
  rw [Nat.add_right_comm, Nat.add_assoc]

/-- A part of the visits is what is visited meanwhile. -/
theorem take_drop_visits {start steps skipped taken : Nat}
    (inside : skipped + taken ≤ steps) :
    ((walk.visits start steps).drop skipped).take taken =
      walk.visits (start + skipped) taken := by
  refine List.ext_getElem ?_ ?_
  · simp only [visits, List.length_take, List.length_drop, List.length_map,
      List.length_range]
    omega
  · intro index first second
    simp only [visits, List.getElem_take, List.getElem_drop,
      List.getElem_map, List.getElem_range, Nat.add_assoc]

variable [DecidableEq Node]

/-- One round visits every node once. -/
theorem count_visits_round (start : Nat) (each : Node) :
    (walk.visits start length).count each = 1 := by
  obtain ⟨index, isIndex, rfl⟩ := walk.surjective each
  have positive : 0 < length := Nat.lt_of_le_of_lt (Nat.zero_le _) isIndex
  have nodup : (walk.visits start length).Nodup := by
    refine List.Nodup.map_on ?_ List.nodup_range
    intro first isFirst second isSecond same
    rw [List.mem_range] at isFirst isSecond
    rw [walk.node_eq_iff positive] at same
    have apart := Nat.ModEq.add_left_cancel' start same
    rw [Nat.ModEq, Nat.mod_eq_of_lt isFirst, Nat.mod_eq_of_lt isSecond]
      at apart
    exact apart
  have visited : walk.node index ∈ walk.visits start length := by
    refine List.mem_map.mpr
      ⟨(index + (length - start % length)) % length,
        List.mem_range.mpr (Nat.mod_lt _ positive), ?_⟩
    rw [walk.node_eq_iff positive]
    have small := Nat.mod_lt start positive
    have whole : start + (index + (length - start % length)) =
        index + length * (start / length + 1) := by
      have split := Nat.mod_add_div start length
      rw [Nat.mul_succ]
      omega
    rw [Nat.add_mod_mod, whole, Nat.add_mul_mod_self_left]
  exact List.count_eq_one_of_mem nodup visited

/-- Some rounds visit every node that many times. -/
theorem count_visits_rounds (start rounds : Nat) (each : Node) :
    (walk.visits start (length * rounds)).count each = rounds := by
  induction rounds generalizing start with
  | zero => rfl
  | succ rounds inductionHypothesis =>
      have split : walk.visits start (length * (rounds + 1)) =
          walk.visits start length ++
            walk.visits (start + length) (length * rounds) := by
        rw [Nat.mul_succ, Nat.add_comm, visits, List.range_add,
          List.map_append, List.map_map, visits, visits]
        refine congrArg _ (List.map_congr_left fun step _ => ?_)
        simp only [Function.comp_apply, Nat.add_assoc]
      rw [split, List.count_append, walk.count_visits_round,
        inductionHypothesis, Nat.add_comm]

end CyclicWalk
