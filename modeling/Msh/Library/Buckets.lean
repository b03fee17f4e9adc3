import Mathlib.Data.List.Perm.Basic
import Mathlib.Data.List.Range

/-!
# Sorting into buckets

The items of a list are put into buckets by a number each of them has.  The
buckets, one behind the other, have every item once, and in the order of their
numbers.
-/

namespace Buckets

variable {Item : Type} (key : Item → Nat)

/-- The bucket of each number below a bound -/
def byKey (items : List Item) (bound : Nat) : List (List Item) :=
  (List.range bound).map fun number =>
    items.filter fun item => key item = number

variable {key} {items : List Item} {bound : Nat}

@[simp] theorem length_byKey : (byKey key items bound).length = bound := by
  rw [byKey, List.length_map, List.length_range]

theorem getElem?_byKey {number : Nat} (isBucket : number < bound) :
    (byKey key items bound)[number]? =
      some (items.filter fun item => key item = number) := by
  rw [byKey, List.getElem?_map, List.getElem?_range isBucket, Option.map_some]

theorem take_byKey {fewer : Nat} (isFewer : fewer ≤ bound) :
    (byKey key items bound).take fewer = byKey key items fewer := by
  rw [byKey, byKey, ← List.map_take, List.take_range, Nat.min_eq_left isFewer]

/-- One more item goes to the end of its bucket. -/
theorem byKey_concat (item : Item) :
    byKey key (items ++ [item]) bound =
      (byKey key items bound).modify (key item) (· ++ [item]) := by
  refine List.ext_getElem? fun number => ?_
  rw [List.getElem?_modify]
  by_cases isIn : number < bound
  · rw [getElem?_byKey isIn, getElem?_byKey isIn, List.filter_append]
    by_cases isKey : key item = number
    · simp [isKey]
    · simp [isKey]
  · have outside (items : List Item) :
        (byKey key items bound)[number]? = none := by
      rw [List.getElem?_eq_none_iff, length_byKey]
      omega
    rw [outside, outside]
    rfl

/-- Every item is in one bucket. -/
theorem flatten_perm [DecidableEq Item]
    (areIn : ∀ item ∈ items, key item < bound) :
    (byKey key items bound).flatten.Perm items := by
  rw [List.perm_iff_count]
  intro item
  have below (bound : Nat) : (byKey key items bound).flatten.count item =
      if key item < bound then items.count item else 0 := by
    induction bound with
    | zero => rfl
    | succ bound inductionHypothesis =>
        rw [byKey, List.range_succ, List.map_append, List.flatten_append,
          List.count_append, ← byKey, inductionHypothesis, List.map_singleton,
          List.flatten_singleton]
        by_cases isLast : key item = bound
        · rw [List.count_filter (by simpa using isLast), isLast,
            if_neg (lt_irrefl _), if_pos (Nat.lt_succ_self _), Nat.zero_add]
        · have notIn : item ∉ items.filter fun item => key item = bound := by
            simp [isLast]
          rw [List.count_eq_zero.mpr notIn, Nat.add_zero]
          by_cases isBelow : key item < bound
          · rw [if_pos isBelow, if_pos (Nat.lt_succ_of_lt isBelow)]
          · rw [if_neg isBelow, if_neg (by omega)]
  rw [below]
  by_cases isItem : item ∈ items
  · rw [if_pos (areIn item isItem)]
  · rw [List.count_eq_zero.mpr isItem, ite_self]

/-- From the last bucket to the first, the numbers fall. -/
theorem reverse_flatten_pairwise :
    (byKey key items bound).reverse.flatten.Pairwise fun first second =>
      key second ≤ key first := by
  rw [List.pairwise_flatten]
  constructor
  · intro bucket isBucket
    rw [List.mem_reverse, byKey, List.mem_map] at isBucket
    obtain ⟨number, _, rfl⟩ := isBucket
    refine List.pairwise_of_forall_mem_list
      fun first isFirst second isSecond => ?_
    have ofFirst := of_decide_eq_true (List.mem_filter.mp isFirst).2
    have ofSecond := of_decide_eq_true (List.mem_filter.mp isSecond).2
    rw [ofFirst, ofSecond]
  · rw [List.pairwise_reverse, byKey, List.pairwise_map]
    refine List.pairwise_lt_range.imp fun {lower upper} isLess => ?_
    intro first isFirst second isSecond
    have ofFirst := of_decide_eq_true (List.mem_filter.mp isFirst).2
    have ofSecond := of_decide_eq_true (List.mem_filter.mp isSecond).2
    omega

end Buckets
