import Mathlib.Data.List.Basic

/-!
# The contents of a row of slots

A row of slots, some of them empty, holds its items in an order.  Moving an
item to an empty slot keeps that order when all slots in between are empty,
which is what each swap of a compaction does.  In a row without gaps the items
are in the first slots.
-/

namespace SlotContents

variable {Item : Type} {row : Nat → Option Item}

/-- The items in the slots `lo, …, lo + count - 1`, in the order of slots. -/
def contents (row : Nat → Option Item) (lo count : Nat) : List Item :=
  (List.range' lo count).filterMap row

theorem contents_add (row : Nat → Option Item) (lo first second : Nat) :
    contents row lo (first + second) =
      contents row lo first ++ contents row (lo + first) second := by
  unfold contents
  rw [← List.range'_append_1, List.filterMap_append]

/-- The contents depend on the row's slots only. -/
theorem contents_congr {other : Nat → Option Item} {lo count : Nat}
    (same : ∀ slot, lo ≤ slot → slot < lo + count → other slot = row slot) :
    contents other lo count = contents row lo count := by
  apply List.filterMap_congr
  intro slot member
  obtain ⟨lower, upper⟩ := List.mem_range'_1.mp member
  exact same slot lower upper

/-- Empty slots hold nothing. -/
theorem contents_eq_nil {lo count : Nat}
    (empty : ∀ slot, lo ≤ slot → slot < lo + count → row slot = none) :
    contents row lo count = [] := by
  apply List.filterMap_eq_nil_iff.mpr
  intro slot member
  obtain ⟨lower, upper⟩ := List.mem_range'_1.mp member
  exact empty slot lower upper

/-- The contents of one slot. -/
theorem contents_one (row : Nat → Option Item) (slot : Nat) :
    contents row slot 1 = (row slot).toList := by
  unfold contents
  cases held : row slot <;> simp [held]

/-- An item moves over empty slots to an empty one without changing places. -/
theorem contents_move {after : Nat → Option Item} {lo count : Nat}
    {toSlot fromSlot : Nat}
    (lower : lo ≤ toSlot) (forward : toSlot < fromSlot)
    (upper : fromSlot < lo + count)
    (free :
      ∀ slot, toSlot ≤ slot → slot < fromSlot → row slot = none)
    (moved :
      ∀ slot, lo ≤ slot → slot < lo + count → after slot =
        if slot = toSlot then row fromSlot
        else if slot = fromSlot then none else row slot) :
    contents after lo count = contents row lo count := by
  obtain ⟨front, rfl⟩ := Nat.exists_eq_add_of_le lower
  obtain ⟨gap, rfl⟩ := Nat.exists_eq_add_of_lt forward
  obtain ⟨back, rest⟩ :
      ∃ back, count = front + (1 + (gap + (1 + back))) :=
    ⟨count - (front + (1 + (gap + 1))), by omega⟩
  subst rest
  simp only [contents_add, contents_one]
  have sameFront : contents after lo front = contents row lo front := by
    apply contents_congr
    intro slot inRow inFront
    rw [moved slot inRow (by omega), if_neg (by omega), if_neg (by omega)]
  have sameBack :
      contents after (lo + front + 1 + gap + 1) back =
        contents row (lo + front + 1 + gap + 1) back := by
    apply contents_congr
    intro slot inBack inRow
    rw [moved slot (by omega) (by omega), if_neg (by omega),
      if_neg (by omega)]
  have gapBefore : contents row (lo + front + 1) gap = [] := by
    apply contents_eq_nil
    intro slot inGap beforeFrom
    exact free slot (by omega) (by omega)
  have gapAfter : contents after (lo + front + 1) gap = [] := by
    apply contents_eq_nil
    intro slot inGap beforeFrom
    rw [moved slot (by omega) (by omega), if_neg (by omega),
      if_neg (by omega)]
    exact free slot (by omega) (by omega)
  have sameSlot : lo + front + 1 + gap = lo + front + gap + 1 := by omega
  have atTo : after (lo + front) = row (lo + front + gap + 1) := by
    rw [moved _ (by omega) (by omega), if_pos rfl]
  have atFrom : after (lo + front + gap + 1) = none := by
    rw [moved _ (by omega) (by omega), if_neg (by omega), if_pos rfl]
  have toFree : row (lo + front) = none :=
    free (lo + front) (Nat.le_refl _) (by omega)
  rw [sameFront, sameBack, gapBefore, gapAfter, sameSlot, atTo, atFrom,
    toFree]
  simp

/-- In a row without gaps the contents fill the first slots. -/
theorem map_some_contents {lo count hosted : Nat}
    (bound : hosted ≤ count)
    (held : ∀ slot, lo ≤ slot → slot < lo + hosted → row slot ≠ none)
    (free :
      ∀ slot, lo + hosted ≤ slot → slot < lo + count → row slot = none) :
    (contents row lo count).map some = (List.range' lo hosted).map row := by
  obtain ⟨rest, rfl⟩ := Nat.exists_eq_add_of_le bound
  have noneBehind : contents row (lo + hosted) rest = [] := by
    apply contents_eq_nil
    intro slot behind inRow
    exact free slot behind (by omega)
  rw [contents_add, noneBehind, List.append_nil]
  clear free noneBehind bound
  induction hosted generalizing lo with
  | zero =>
      rfl
  | succ hosted inductionHypothesis =>
      obtain ⟨item, isItem⟩ :=
        Option.ne_none_iff_exists'.mp (held lo (Nat.le_refl _) (by omega))
      have restHeld :=
        @inductionHypothesis (lo + 1)
          (fun slot lower upper => held slot (by omega) (by omega))
      rw [Nat.add_comm hosted 1, contents_add, contents_one, isItem,
        Nat.add_comm 1 hosted, List.range'_succ, List.map_append, restHeld,
        List.map_cons, isItem]
      rfl

end SlotContents
