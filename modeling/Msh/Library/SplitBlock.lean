import Msh.Library.Layout

/-!
# Splitting a block

The rest of a block goes to a new block, which is laid out behind it.
-/

namespace Layout

variable {Label Op : Type} [DecidableEq Label]

/-- The first part of a block, and its rest behind it -/
def splitBlock (code : List (Block Label Op)) (label : Label)
    (first : Block Label Op → Block Label Op) (rest : Block Label Op) :
    List (Block Label Op) :=
  insertAfter label rest (updateBlock code label first)

variable {code : List (Block Label Op)} {label other : Label}

/-! ## Code with an end -/

theorem next?_getLast (distinct : (labels code).Nodup)
    {block : Block Label Op} (isLast : code.getLast? = some block) :
    next? code block.label = none := by
  induction code with
  | nil => cases isLast
  | cons head tail inductionHypothesis =>
      rw [labels, List.map_cons, List.nodup_cons, ← labels] at distinct
      rw [next?]
      cases tail with
      | nil =>
          rw [List.getLast?_singleton, Option.some_inj] at isLast
          rw [isLast, if_pos rfl]
          rfl
      | cons second later =>
          rw [List.getLast?_cons_cons] at isLast
          have inTail : block.label ∈ labels (second :: later) :=
            List.mem_map_of_mem (List.mem_of_getLast? isLast)
          have notHead : head.label ≠ block.label :=
            fun same => distinct.1 (same ▸ inTail)
          rw [if_neg notHead]
          exact inductionHypothesis distinct.2 isLast

/-- The last block does not fall through if there is a block behind each one
that does. -/
theorem endsClosed_of_next? (distinct : (labels code).Nodup)
    (hasNext : ∀ label block, block? code label = some block →
      block.exit.falls = true → (next? code label).isSome = true) :
    EndsClosed code := by
  intro block isLast
  by_contra falls
  have isBlock := block?_of_mem distinct (List.mem_of_getLast? isLast)
  have isSome :=
    hasNext block.label block isBlock (Bool.not_eq_false _ ▸ falls)
  rw [next?_getLast distinct isLast] at isSome
  cases isSome

/-! ## What a split leaves -/

section Split

variable {first : Block Label Op → Block Label Op} {rest block : Block Label Op}
  (sameLabel : ∀ block, (first block).label = block.label)
  (isLabel : label ∈ labels code) (fresh : rest.label ∉ labels code)
include sameLabel isLabel

theorem mem_labels_splitBlock :
    other ∈ labels (splitBlock code label first rest) ↔
      other = rest.label ∨ other ∈ labels code := by
  have isUpdated : label ∈ labels (updateBlock code label first) := by
    rwa [labels_updateBlock sameLabel]
  rw [splitBlock, mem_labels_insertAfter isUpdated,
    labels_updateBlock sameLabel]

include fresh

omit isLabel in
theorem nodup_labels_splitBlock (distinct : (labels code).Nodup) :
    (labels (splitBlock code label first rest)).Nodup := by
  refine nodup_labels_insertAfter ?_ ?_ <;>
    rwa [labels_updateBlock sameLabel]

theorem block?_splitBlock :
    block? (splitBlock code label first rest) other =
      if other = rest.label then some rest
      else if other = label then (block? code other).map first
      else block? code other := by
  rw [splitBlock, block?_insertAfter, block?_updateBlock sameLabel] <;>
    rwa [labels_updateBlock sameLabel]

theorem next?_splitBlock :
    next? (splitBlock code label first rest) other =
      if other = rest.label then next? code label
      else if other = label then some rest.label
      else next? code other := by
  rw [splitBlock, next?_insertAfter, next?_updateBlock sameLabel,
    next?_updateBlock sameLabel] <;>
    rwa [labels_updateBlock sameLabel]

theorem goes_splitBlock_other (notRest : other ≠ rest.label)
    (notLabel : other ≠ label) :
    goes (splitBlock code label first rest) other = goes code other := by
  rw [goes, block?_splitBlock sameLabel isLabel fresh,
    next?_splitBlock sameLabel isLabel fresh, if_neg notRest, if_neg notLabel,
    if_neg notRest, if_neg notLabel, goes]

theorem ops_splitBlock_other (notRest : other ≠ rest.label)
    (notLabel : other ≠ label) :
    ops (splitBlock code label first rest) other = ops code other := by
  rw [ops, block?_splitBlock sameLabel isLabel fresh, if_neg notRest,
    if_neg notLabel, ops]

theorem goes_splitBlock_rest :
    goes (splitBlock code label first rest) rest.label =
      rest.exit.targets (next? code label) := by
  rw [goes, block?_splitBlock sameLabel isLabel fresh,
    next?_splitBlock sameLabel isLabel fresh, if_pos rfl, if_pos rfl]

theorem ops_splitBlock_rest :
    ops (splitBlock code label first rest) rest.label = rest.ops := by
  rw [ops, block?_splitBlock sameLabel isLabel fresh, if_pos rfl]

variable (isBlock : block? code label = some block)
include isBlock

theorem goes_splitBlock_first :
    goes (splitBlock code label first rest) label =
      (first block).exit.targets (some rest.label) := by
  have notRest : label ≠ rest.label := fun same => fresh (same ▸ isLabel)
  rw [goes, block?_splitBlock sameLabel isLabel fresh,
    next?_splitBlock sameLabel isLabel fresh, if_neg notRest, if_pos rfl,
    if_neg notRest, if_pos rfl, isBlock]
  rfl

theorem ops_splitBlock_first :
    ops (splitBlock code label first rest) label = (first block).ops := by
  have notRest : label ≠ rest.label := fun same => fresh (same ▸ isLabel)
  rw [ops, block?_splitBlock sameLabel isLabel fresh, if_neg notRest,
    if_pos rfl, isBlock]
  rfl

/-- The code still has an end if the rest falls through only where the block
did. -/
theorem endsClosed_splitBlock (distinct : (labels code).Nodup)
    (closed : EndsClosed code)
    (fallsOn : rest.exit.falls = true → block.exit.falls = true) :
    EndsClosed (splitBlock code label first rest) := by
  refine endsClosed_of_next?
    (nodup_labels_splitBlock sameLabel fresh distinct)
    fun other found isFound falls => ?_
  rw [block?_splitBlock sameLabel isLabel fresh] at isFound
  rw [next?_splitBlock sameLabel isLabel fresh]
  by_cases isRest : other = rest.label
  · rw [if_pos isRest, Option.some_inj] at isFound
    subst isFound
    rw [if_pos isRest]
    exact next?_isSome_of_falls closed isBlock (fallsOn falls)
  · rw [if_neg isRest] at isFound ⊢
    by_cases isFirst : other = label
    · rw [if_pos isFirst]
      rfl
    · rw [if_neg isFirst] at isFound ⊢
      exact next?_isSome_of_falls closed isFound falls

end Split

end Layout
