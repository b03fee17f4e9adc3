import Mathlib.Data.List.Basic
import Mathlib.Data.List.Nodup

/-!
# Bounded linear searches

The result of the two loops

```text
for (i = lo; i < lo + count; i++)      if (p(i)) { ...; break; }
for (i = lo + count - 1; i >= lo; i--) if (p(i)) { ...; break; }
```

as an option that is empty when the loop runs to its end, and how the indices
that satisfy the predicate change when one is set or cleared.
-/

namespace BoundedSearch

/-- The first index of `lo, …, lo + count - 1` that satisfies `p`. -/
def findUp (lo count : Nat) (p : Nat → Bool) : Option Nat :=
  (List.range' lo count).find? p

/-- The last index of `lo, …, lo + count - 1` that satisfies `p`. -/
def findDown (lo count : Nat) (p : Nat → Bool) : Option Nat :=
  (List.range' lo count).reverse.find? p

variable {lo count found : Nat} {p : Nat → Bool}

/-- A successful upward search returns the least index satisfying `p`. -/
theorem findUp_eq_some_iff :
    findUp lo count p = some found ↔
      p found = true ∧ lo ≤ found ∧ found < lo + count ∧
        ∀ earlier, lo ≤ earlier → earlier < found →
          p earlier = false := by
  unfold findUp
  induction count generalizing lo with
  | zero =>
      simp only [List.range'_zero, List.find?_nil, reduceCtorEq,
        Nat.add_zero, false_iff, not_and]
      omega
  | succ count inductionHypothesis =>
      rw [List.range'_succ, List.find?_cons]
      cases atLo : p lo with
      | true =>
          simp only [Option.some.injEq]
          constructor
          · rintro rfl
            exact ⟨atLo, by omega, by omega, by omega⟩
          · rintro ⟨_, atLeast, _, least⟩
            by_contra different
            have := least lo (by omega) (by omega)
            simp [atLo] at this
      | false =>
          simp only [inductionHypothesis]
          constructor
          · rintro ⟨holds, atLeast, below, least⟩
            refine ⟨holds, by omega, by omega, ?_⟩
            intro earlier lower upper
            by_cases isLo : earlier = lo
            · rw [isLo, atLo]
            · exact least earlier (by omega) upper
          · rintro ⟨holds, atLeast, below, least⟩
            have different : found ≠ lo := by
              rintro rfl
              simp [atLo] at holds
            exact ⟨holds, by omega, by omega,
              fun earlier lower upper =>
                least earlier (by omega) upper⟩

/-- An upward search fails exactly when no index satisfies `p`. -/
theorem findUp_eq_none_iff :
    findUp lo count p = none ↔
      ∀ index, lo ≤ index → index < lo + count → p index = false := by
  simp only [findUp, List.find?_eq_none, List.mem_range'_1,
    Bool.not_eq_true, and_imp]

/-- A successful downward search returns the greatest index satisfying `p`. -/
theorem findDown_eq_some_iff :
    findDown lo count p = some found ↔
      p found = true ∧ lo ≤ found ∧ found < lo + count ∧
        ∀ later, found < later → later < lo + count →
          p later = false := by
  unfold findDown
  induction count with
  | zero =>
      simp only [List.range'_zero, List.reverse_nil, List.find?_nil,
        reduceCtorEq, Nat.add_zero, false_iff, not_and]
      omega
  | succ count inductionHypothesis =>
      rw [List.range'_concat, List.reverse_append]
      simp only [List.reverse_cons, List.reverse_nil, List.nil_append,
        List.singleton_append, Nat.one_mul, List.find?_cons]
      cases atLast : p (lo + count) with
      | true =>
          simp only [Option.some.injEq]
          constructor
          · rintro rfl
            exact ⟨atLast, by omega, by omega, by omega⟩
          · rintro ⟨_, _, below, greatest⟩
            by_contra different
            have := greatest (lo + count) (by omega) (by omega)
            simp [atLast] at this
      | false =>
          simp only [inductionHypothesis]
          constructor
          · rintro ⟨holds, atLeast, below, greatest⟩
            refine ⟨holds, by omega, by omega, ?_⟩
            intro later lower upper
            by_cases isLast : later = lo + count
            · rw [isLast, atLast]
            · exact greatest later lower (by omega)
          · rintro ⟨holds, atLeast, below, greatest⟩
            have different : found ≠ lo + count := by
              rintro rfl
              simp [atLast] at holds
            exact ⟨holds, by omega, by omega,
              fun later lower upper =>
                greatest later lower (by omega)⟩

/-- A downward search fails exactly when no index satisfies `p`. -/
theorem findDown_eq_none_iff :
    findDown lo count p = none ↔
      ∀ index, lo ≤ index → index < lo + count → p index = false := by
  simp only [findDown, List.find?_eq_none, List.mem_reverse,
    List.mem_range'_1, Bool.not_eq_true, and_imp]

/-- The indices of `lo, …, lo + count - 1` that satisfy `p`. -/
def hits (lo count : Nat) (p : Nat → Bool) : List Nat :=
  (List.range' lo count).filter p

variable {index : Nat} {q : Nat → Bool}

theorem mem_hits :
    index ∈ hits lo count p ↔
      (lo ≤ index ∧ index < lo + count) ∧ p index = true := by
  rw [hits, List.mem_filter, List.mem_range'_1]

theorem hits_nodup : (hits lo count p).Nodup :=
  List.Nodup.filter _ List.nodup_range'

/-- The downward search finds the last of them. -/
theorem findDown_eq_getLast? :
    findDown lo count p = (hits lo count p).getLast? :=
  List.getLast?_filter.symm

/-- Nothing is left to find if all indices satisfy the predicate. -/
theorem findUp_not_eq_none_iff :
    (findUp lo count fun index => !p index) = none ↔
      (hits lo count p).length = count := by
  have all : (hits lo count p).length = count ↔
      ∀ index ∈ List.range' lo count, p index = true := by
    rw [hits, ← List.countP_eq_length_filter, ← List.countP_eq_length,
      List.length_range']
  rw [findUp_eq_none_iff, all]
  simp only [Bool.not_eq_false', List.mem_range'_1, and_imp]

/-- Without one index, the others satisfy the predicate as before. -/
theorem hits_clear
    (cleared : ∀ index, q index = (p index && decide (index ≠ found))) :
    hits lo count q = (hits lo count p).filter fun index => index ≠ found := by
  rw [hits, hits, List.filter_filter]
  refine List.filter_congr fun index _ => ?_
  rw [cleared, Bool.and_comm]

/-- Without the last index, the list is shorter by its last item. -/
theorem hits_clear_last
    (isLast : findDown lo count p = some found)
    (cleared : ∀ index, q index = (p index && decide (index ≠ found))) :
    hits lo count q = (hits lo count p).dropLast := by
  rw [findDown_eq_getLast?] at isLast
  obtain ⟨front, isFront⟩ := List.getLast?_eq_some_iff.mp isLast
  have nodup := @hits_nodup lo count p
  rw [hits_clear cleared, isFront, List.dropLast_concat, List.filter_append]
  rw [isFront] at nodup
  have notInFront : found ∉ front := fun member =>
    List.disjoint_of_nodup_append nodup member (List.mem_singleton_self _)
  have kept : (front.filter fun index => index ≠ found) = front := by
    refine List.filter_eq_self.mpr fun index member => ?_
    rw [decide_eq_true_eq]
    rintro rfl
    exact notInFront member
  rw [kept]
  simp

/-- With one index more, the list is longer by one. -/
theorem length_hits_set
    (inRange : lo ≤ found ∧ found < lo + count)
    (unset : p found = false)
    (isSet : ∀ index, q index = (p index || decide (index = found))) :
    (hits lo count q).length = (hits lo count p).length + 1 := by
  have notYet : found ∉ hits lo count p := by
    rw [mem_hits, unset]
    exact fun member => Bool.false_ne_true member.2
  have perm : (hits lo count q).Perm (found :: hits lo count p) := by
    rw [List.perm_ext_iff_of_nodup hits_nodup
      (List.nodup_cons.mpr ⟨notYet, hits_nodup⟩)]
    intro index
    rw [List.mem_cons, mem_hits, mem_hits, isSet, Bool.or_eq_true,
      decide_eq_true_eq]
    constructor
    · rintro ⟨within, holds | rfl⟩
      · exact .inr ⟨within, holds⟩
      · exact .inl rfl
    · rintro (rfl | ⟨within, holds⟩)
      · exact ⟨inRange, .inr rfl⟩
      · exact ⟨within, .inl holds⟩
  rw [perm.length_eq, List.length_cons]

end BoundedSearch
