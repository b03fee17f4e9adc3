import Mathlib.Algebra.BigOperators.Group.Finset.Piecewise
import Mathlib.Algebra.BigOperators.Group.List.Lemmas

/-!
# Strided slices

Every `step`-th element of a list from one position on.  The slices from the
positions below `step` have each element of the list once between them, so
that what they add up to is what the list adds up to.
-/

variable {Item : Type}

/-- `items[start::step]` -/
def stridedSlice (items : List Item) (start step : Nat) : List Item :=
  (items.zipIdx.filter fun entry =>
    start ≤ entry.2 ∧ (entry.2 - start) % step = 0).map Prod.fst

namespace StridedSlice

/-- Below the step, the start of a position's slice is its remainder. -/
theorem selected_iff
    {start step : Nat} (below : start < step) (position : Nat) :
    (start ≤ position ∧ (position - start) % step = 0) ↔
      start = position % step := by
  constructor
  · rintro ⟨inSlice, multiple⟩
    obtain ⟨laps, laps_eq⟩ := Nat.dvd_of_mod_eq_zero multiple
    have position_eq : position = start + step * laps := by omega
    rw [position_eq, Nat.add_mul_mod_self_left, Nat.mod_eq_of_lt below]
  · rintro rfl
    have split := Nat.div_add_mod position step
    have laps : position - position % step = step * (position / step) := by
      omega
    rw [laps]
    exact ⟨Nat.mod_le position step, Nat.mul_mod_right step _⟩

/-- A slice has elements of the list only. -/
theorem mem_of_mem
    {items : List Item} {start step : Nat} {item : Item}
    (member : item ∈ stridedSlice items start step) :
    item ∈ items := by
  obtain ⟨entry, inSlice, rfl⟩ := List.mem_map.mp member
  exact List.fst_mem_of_mem_zipIdx (List.mem_filter.mp inSlice).1

/-- The slices have every element of the list between them. -/
theorem mem_iff
    {items : List Item} {step : Nat} (positive : 0 < step) {item : Item} :
    (∃ start, start < step ∧ item ∈ stridedSlice items start step) ↔
      item ∈ items := by
  constructor
  · rintro ⟨start, -, member⟩
    exact mem_of_mem member
  · intro member
    obtain ⟨position, inRange, rfl⟩ := List.mem_iff_getElem.mp member
    have below : position % step < step := Nat.mod_lt position positive
    refine ⟨position % step, below, List.mem_map.mpr
      ⟨(items[position], position), ?_, rfl⟩⟩
    rw [List.mem_filter, decide_eq_true_eq]
    exact ⟨List.mem_zipIdx_iff_getElem?.mpr (by simp [inRange]),
      (selected_iff below position).mpr rfl⟩

variable {Total : Type} [AddCommMonoid Total]

/-- Each entry is selected for one of the starts. -/
theorem sum_selected
    (measure : Item × Nat → Total) (entries : List (Item × Nat))
    {step : Nat} (positive : 0 < step) :
    ((List.range step).map fun start =>
        ((entries.filter fun entry =>
          start ≤ entry.2 ∧ (entry.2 - start) % step = 0).map
            measure).sum).sum =
      (entries.map measure).sum := by
  induction entries with
  | nil =>
      simp
  | cons entry rest inductionHypothesis =>
      have here (start : Nat) (below : start < step) :
          (((entry :: rest).filter fun entry =>
              start ≤ entry.2 ∧ (entry.2 - start) % step = 0).map
                measure).sum =
            (if start = entry.2 % step then measure entry else 0) +
              ((rest.filter fun entry =>
                start ≤ entry.2 ∧ (entry.2 - start) % step = 0).map
                  measure).sum := by
        have selected := selected_iff below entry.2
        by_cases isHere : start = entry.2 % step
        · rw [if_pos isHere, List.filter_cons_of_pos
            (by rw [decide_eq_true_eq]; exact selected.mpr isHere),
            List.map_cons, List.sum_cons]
        · rw [if_neg isHere, zero_add, List.filter_cons_of_neg
            (by rw [decide_eq_true_eq]; exact mt selected.mp isHere)]
      have once :
          ((List.range step).map fun start =>
              if start = entry.2 % step then measure entry else 0).sum =
            measure entry := by
        change
          (Finset.sum (Finset.range step) fun start =>
            if start = entry.2 % step then measure entry else 0) = _
        rw [Finset.sum_ite_eq', if_pos]
        exact Finset.mem_range.mpr (Nat.mod_lt _ positive)
      rw [List.map_congr_left fun start member =>
          here start (List.mem_range.mp member),
        List.sum_map_add, once, inductionHypothesis, List.map_cons,
        List.sum_cons]

/-- The slices add up to the list. -/
theorem sum_eq
    (measure : Item → Total) (items : List Item) {step : Nat}
    (positive : 0 < step) :
    ((List.range step).map fun start =>
        ((stridedSlice items start step).map measure).sum).sum =
      (items.map measure).sum := by
  have selected :=
    sum_selected (fun entry => measure entry.1) items.zipIdx positive
  have unzipped : items.zipIdx.map Prod.fst = items :=
    List.zipIdx_map_fst 0 items
  calc
    _ = (items.zipIdx.map fun entry => measure entry.1).sum := by
      rw [← selected]
      simp only [stridedSlice, List.map_map, Function.comp_def]
    _ = ((items.zipIdx.map Prod.fst).map measure).sum := by
      rw [List.map_map]
      rfl
    _ = (items.map measure).sum := by
      rw [unzipped]

/-- What the slices flatten to is what the list flattens to. -/
theorem flatMap_perm {Image : Type} (images : Item → List Image)
    (items : List Item) {step : Nat} (positive : 0 < step) :
    ((List.range step).flatMap fun start =>
        (stridedSlice items start step).flatMap images).Perm
      (items.flatMap images) := by
  have flattened {Entry : Type} (image : Entry → List Image)
      (entries : List Entry) :
      (entries.map fun entry => (image entry : Multiset Image)).sum =
        (entries.flatMap image : List Image) := by
    induction entries with
    | nil =>
        rfl
    | cons entry rest inductionHypothesis =>
        rw [List.map_cons, List.sum_cons, inductionHypothesis,
          List.flatMap_cons, Multiset.coe_add]
  refine Multiset.coe_eq_coe.mp ?_
  rw [← flattened, ← flattened,
    ← sum_eq (fun item => (images item : Multiset Image)) items positive]
  exact congrArg List.sum
    (List.map_congr_left fun start _ => (flattened images _).symm)

end StridedSlice
