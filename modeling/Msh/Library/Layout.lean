import Mathlib.Data.List.Basic
import Mathlib.Data.List.Nodup

/-!
# Blocks in their layout

Code is a list of blocks in the order in which they are laid out.  A block's
instructions run one after the other; where control goes from there is said
by its exit, and by the block that comes next where the exit falls through.
A trace lists the instructions that have been executed so far.
-/

namespace Layout

/-- How a block ends. -/
inductive Exit (Label : Type) where
  /-- On to the next block -/
  | fall
  | jump (target : Label)
  /-- To the target, or on to the next block -/
  | branch (target : Label)
  /-- To the target, or by a jump to the other one -/
  | branchJump (target other : Label)
  /-- To one of the targets of a table -/
  | table (targets : List Label)
  /-- Out of the code -/
  | leave
  deriving DecidableEq, Repr

/-- A block of code. -/
structure Block (Label Op : Type) where
  label : Label
  ops : List Op
  exit : Exit Label
  deriving DecidableEq, Repr

variable {Label Op : Type}

/-- Where control may go from an exit; `none` is out of the code. -/
def Exit.targets (next : Option Label) : Exit Label → List (Option Label)
  | .fall => [next]
  | .jump target => [some target]
  | .branch target => [some target, next]
  | .branchJump target other => [some target, some other]
  | .table targets => targets.map some
  | .leave => [none]

/-- Control may go on to the next block. -/
def Exit.falls : Exit Label → Bool
  | .fall => true
  | .branch _ => true
  | _ => false

/-- An exit without its targets -/
def Exit.shape : Exit Label → Exit Unit
  | .fall => .fall
  | .jump _ => .jump ()
  | .branch _ => .branch ()
  | .branchJump _ _ => .branchJump () ()
  | .table targets => .table (targets.map fun _ => ())
  | .leave => .leave

variable [DecidableEq Label]

/-- The last branch or jump of an exit, if it goes to a label, goes to another
one. -/
def Exit.redirectLast? (old new : Label) : Exit Label → Option (Exit Label)
  | .jump target => if target = old then some (.jump new) else none
  | .branch target => if target = old then some (.branch new) else none
  | .branchJump target other =>
      if other = old then some (.branchJump target new) else none
  | _ => none

/-- The last branch or jump that goes to a label goes to another one. -/
def Exit.redirect? (old new : Label) (exit : Exit Label) :
    Option (Exit Label) :=
  match exit.redirectLast? old new with
  | some redirected => some redirected
  | none =>
      match exit with
      | .branchJump target other =>
          if target = old then some (.branchJump new other) else none
      | _ => none

/-- The block with a label -/
def block? (code : List (Block Label Op)) (label : Label) :
    Option (Block Label Op) :=
  code.find? (·.label = label)

/-- The label of the block behind another one -/
def next? : List (Block Label Op) → Label → Option Label
  | [], _ => none
  | block :: rest, label =>
      if block.label = label then rest.head?.map (·.label)
      else next? rest label

/-- How a block ends -/
def exit? (code : List (Block Label Op)) (label : Label) :
    Option (Exit Label) :=
  (block? code label).map (·.exit)

/-- The instructions of a block -/
def ops (code : List (Block Label Op)) (label : Label) : List Op :=
  match block? code label with
  | some block => block.ops
  | none => []

/-- Where control may go from a block -/
def goes (code : List (Block Label Op)) (label : Label) :
    List (Option Label) :=
  match block? code label with
  | some block => block.exit.targets (next? code label)
  | none => []

/-- What may have been executed from the start of a block on -/
inductive Trace (code : List (Block Label Op)) : Label → List Op → Prop where
  | inside {label : Label} {trace : List Op}
      (isPrefix : trace <+: ops code label) : Trace code label trace
  | step {label target : Label} {trace : List Op}
      (isTarget : some target ∈ goes code label)
      (later : Trace code target trace) :
      Trace code label (ops code label ++ trace)

/-- The same block with other instructions or another exit -/
def updateBlock (code : List (Block Label Op)) (label : Label)
    (change : Block Label Op → Block Label Op) : List (Block Label Op) :=
  code.map fun block => if block.label = label then change block else block

/-- A block laid out behind another one -/
def insertAfter (label : Label) (new : Block Label Op) :
    List (Block Label Op) → List (Block Label Op)
  | [] => []
  | block :: rest =>
      if block.label = label then block :: new :: rest
      else block :: insertAfter label new rest

/-- The same code with other instructions in a block -/
def changeOps (code : List (Block Label Op)) (label : Label)
    (change : List Op → List Op) : List (Block Label Op) :=
  updateBlock code label fun block => { block with ops := change block.ops }

/-- The labels of the code in order -/
def labels (code : List (Block Label Op)) : List Label :=
  code.map (·.label)

/-- The last block does not fall through. -/
def EndsClosed (code : List (Block Label Op)) : Prop :=
  ∀ block, code.getLast? = some block → block.exit.falls = false

variable {code : List (Block Label Op)} {label other : Label}
  {old new : Label}

omit [DecidableEq Label] in
@[simp] theorem mem_labels :
    label ∈ labels code ↔ ∃ block ∈ code, block.label = label := by
  rw [labels, List.mem_map]

/-! ## Looking up blocks -/

/-- Exactly the labels of the code have a block. -/
theorem block?_eq_none_iff : block? code label = none ↔ label ∉ labels code := by
  simp [block?]

theorem block?_isSome_iff :
    (block? code label).isSome = true ↔ label ∈ labels code := by
  simp [block?]

/-- The block that is found has the label. -/
theorem label_of_block? {block : Block Label Op}
    (isBlock : block? code label = some block) : block.label = label := by
  simpa using List.find?_some isBlock

/-- Where no label stands twice, each block is found. -/
theorem block?_of_mem (distinct : (labels code).Nodup)
    {block : Block Label Op} (member : block ∈ code) :
    block? code block.label = some block := by
  induction code with
  | nil => cases member
  | cons first rest inductionHypothesis =>
      rw [labels, List.map_cons, List.nodup_cons] at distinct
      rw [block?, List.find?_cons]
      rcases List.mem_cons.mp member with rfl | inRest
      · rw [decide_eq_true rfl]
      · have notFirst : first.label ≠ block.label := by
          intro same
          exact distinct.1 (same ▸ List.mem_map_of_mem inRest)
        rw [decide_eq_false notFirst]
        exact inductionHypothesis distinct.2 inRest

/-- Control goes nowhere from a label without a block. -/
theorem goes_of_not_mem (notLabel : label ∉ labels code) :
    goes code label = [] := by
  rw [goes, block?_eq_none_iff.mpr notLabel]

/-- Where control can fall through, there is a next block. -/
theorem next?_isSome_of_falls {block : Block Label Op}
    (closed : EndsClosed code) (isBlock : block? code label = some block)
    (falls : block.exit.falls = true) :
    (next? code label).isSome = true := by
  induction code with
  | nil => cases isBlock
  | cons first rest inductionHypothesis =>
      rw [block?, List.find?_cons] at isBlock
      rw [next?]
      by_cases isFirst : first.label = label
      · rw [decide_eq_true isFirst] at isBlock
        cases isBlock
        rw [if_pos isFirst]
        cases rest with
        | nil =>
            have notFalls : block.exit.falls = false := closed _ rfl
            rw [falls] at notFalls
            cases notFalls
        | cons second later => rfl
      · rw [decide_eq_false isFirst] at isBlock
        rw [if_neg isFirst]
        refine inductionHypothesis (fun last isLast => closed last ?_) isBlock
        cases rest with
        | nil => cases isLast
        | cons second later =>
            rw [List.getLast?_cons_cons]
            exact isLast

/-! ## Other instructions in all blocks -/

section Map

variable {Op' : Type} {f : Block Label Op → Block Label Op'}
  (sameLabel : ∀ block, (f block).label = block.label)
include sameLabel

omit [DecidableEq Label] in
theorem labels_map : labels (code.map f) = labels code := by
  rw [labels, labels, List.map_map]
  exact List.map_congr_left fun block _ => sameLabel block

/-- The block that is found is the changed one. -/
theorem block?_map : block? (code.map f) label = (block? code label).map f := by
  rw [block?, block?, List.find?_map]
  congr 2
  funext block
  rw [Function.comp_apply, sameLabel]

/-- The order of the blocks is kept. -/
theorem next?_map : next? (code.map f) label = next? code label := by
  induction code with
  | nil => rfl
  | cons first rest inductionHypothesis =>
      rw [List.map_cons, next?, next?, inductionHypothesis, sameLabel]
      cases rest with
      | nil => rfl
      | cons second later =>
          rw [List.map_cons, List.head?_cons, List.head?_cons, Option.map_some,
            Option.map_some, sameLabel]

variable (sameExit : ∀ block, (f block).exit = block.exit)
include sameExit

theorem exit?_map : exit? (code.map f) label = exit? code label := by
  rw [exit?, exit?, block?_map sameLabel, Option.map_map]
  congr 1
  funext block
  exact sameExit block

/-- Control goes where it went if the exits are kept. -/
theorem goes_map : goes (code.map f) label = goes code label := by
  rw [goes, goes, block?_map sameLabel, next?_map sameLabel]
  cases block? code label with
  | none => rfl
  | some block =>
      rw [Option.map_some]
      dsimp only
      rw [sameExit]

omit [DecidableEq Label] sameLabel in
theorem endsClosed_map (closed : EndsClosed code) :
    EndsClosed (code.map f) := by
  intro block isLast
  rw [List.getLast?_map] at isLast
  obtain ⟨last, wasLast, rfl⟩ := Option.map_eq_some_iff.mp isLast
  rw [sameExit]
  exact closed last wasLast

end Map

/-! ## Changing one block -/

variable {change : Block Label Op → Block Label Op}

theorem labels_updateBlock
    (sameLabel : ∀ block, (change block).label = block.label) :
    labels (updateBlock code label change) = labels code := by
  rw [labels, updateBlock, List.map_map]
  refine List.map_congr_left fun block _ => ?_
  rw [Function.comp_apply]
  split
  · exact sameLabel block
  · rfl

/-- Only the block with the label is another one. -/
theorem block?_updateBlock
    (sameLabel : ∀ block, (change block).label = block.label) :
    block? (updateBlock code label change) other =
      if other = label then (block? code other).map change
      else block? code other := by
  induction code with
  | nil =>
      split <;> rfl
  | cons first rest inductionHypothesis =>
      rw [updateBlock, List.map_cons, ← updateBlock, block?, block?,
        List.find?_cons, List.find?_cons]
      have sameFirst :
          (if first.label = label then change first else first).label =
            first.label := by
        split
        · exact sameLabel first
        · rfl
      rw [sameFirst]
      by_cases isFirst : first.label = other
      · subst isFirst
        rw [decide_eq_true rfl]
        dsimp only
        by_cases isLabel : first.label = label
        · rw [if_pos isLabel, if_pos isLabel, Option.map_some]
        · rw [if_neg isLabel, if_neg isLabel]
      · rw [decide_eq_false isFirst]
        exact inductionHypothesis

/-- The order of the blocks is kept. -/
theorem next?_updateBlock
    (sameLabel : ∀ block, (change block).label = block.label) :
    next? (updateBlock code label change) other = next? code other := by
  have head (rest : List (Block Label Op)) :
      (updateBlock rest label change).head?.map (·.label) =
        rest.head?.map (·.label) := by
    cases rest with
    | nil => rfl
    | cons first later =>
        rw [updateBlock, List.map_cons, List.head?_cons, List.head?_cons,
          Option.map_some, Option.map_some]
        split
        · rw [sameLabel]
        · rfl
  induction code with
  | nil => rfl
  | cons first rest inductionHypothesis =>
      rw [updateBlock, List.map_cons, ← updateBlock, next?, next?, head,
        inductionHypothesis]
      have sameFirst :
          (if first.label = label then change first else first).label =
            first.label := by
        split
        · exact sameLabel first
        · rfl
      rw [sameFirst]

/-- The last block does not fall through if the changed one does as before. -/
theorem endsClosed_updateBlock (closed : EndsClosed code)
    (sameFalls :
      ∀ block ∈ code, block.label = label →
        (change block).exit.falls = block.exit.falls) :
    EndsClosed (updateBlock code label change) := by
  intro block isLast
  rw [updateBlock, List.getLast?_map] at isLast
  obtain ⟨last, wasLast, rfl⟩ := Option.map_eq_some_iff.mp isLast
  split
  · next isLabel =>
      rw [sameFalls last (List.mem_of_getLast? wasLast) isLabel]
      exact closed last wasLast
  · exact closed last wasLast

section ChangeOps

variable {changeList : List Op → List Op}

@[simp] theorem labels_changeOps :
    labels (changeOps code label changeList) = labels code :=
  labels_updateBlock fun _ => rfl

/-- Other instructions change no exit. -/
@[simp] theorem goes_changeOps :
    goes (changeOps code label changeList) other = goes code other := by
  have keepsLabel (block : Block Label Op) :
      ({ block with ops := changeList block.ops } : Block Label Op).label =
        block.label :=
    rfl
  rw [goes, goes, changeOps, block?_updateBlock keepsLabel,
    next?_updateBlock keepsLabel]
  by_cases isLabel : other = label
  · rw [if_pos isLabel]
    cases block? code other <;> rfl
  · rw [if_neg isLabel]

@[simp] theorem exit?_changeOps :
    exit? (changeOps code label changeList) other = exit? code other := by
  have keepsLabel (block : Block Label Op) :
      ({ block with ops := changeList block.ops } : Block Label Op).label =
        block.label :=
    rfl
  rw [exit?, exit?, changeOps, block?_updateBlock keepsLabel]
  by_cases isLabel : other = label
  · rw [if_pos isLabel]
    cases block? code other <;> rfl
  · rw [if_neg isLabel]

/-- Only the block with the label has other instructions. -/
theorem ops_changeOps (isLabel : label ∈ labels code) :
    ops (changeOps code label changeList) other =
      if other = label then changeList (ops code other)
      else ops code other := by
  have keepsLabel (block : Block Label Op) :
      ({ block with ops := changeList block.ops } : Block Label Op).label =
        block.label :=
    rfl
  rw [ops, ops, changeOps, block?_updateBlock keepsLabel]
  by_cases isOther : other = label
  · subst isOther
    rw [if_pos rfl, if_pos rfl]
    obtain ⟨block, isBlock⟩ :=
      Option.isSome_iff_exists.mp (block?_isSome_iff.mpr isLabel)
    rw [isBlock]
    rfl
  · rw [if_neg isOther, if_neg isOther]

theorem endsClosed_changeOps (closed : EndsClosed code) :
    EndsClosed (changeOps code label changeList) :=
  endsClosed_updateBlock closed fun _ _ _ => rfl

end ChangeOps

/-! ## Laying out another block -/

variable {block : Block Label Op}

/-- There is one label more. -/
theorem mem_labels_insertAfter (isLabel : label ∈ labels code) :
    other ∈ labels (insertAfter label block code) ↔
      other = block.label ∨ other ∈ labels code := by
  induction code with
  | nil => simp [labels] at isLabel
  | cons first rest inductionHypothesis =>
      rw [insertAfter]
      split
      · simp only [labels, List.map_cons, List.mem_cons]
        exact or_left_comm
      · next notFirst =>
          have inRest : label ∈ labels rest := by
            refine (List.mem_cons.mp isLabel).resolve_left fun isFirst => ?_
            exact notFirst isFirst.symm
          simp only [labels, List.map_cons, List.mem_cons]
          rw [← labels, ← labels, inductionHypothesis inRest]
          exact or_left_comm

/-- With a fresh label, no label stands twice. -/
theorem nodup_labels_insertAfter (distinct : (labels code).Nodup)
    (fresh : block.label ∉ labels code) :
    (labels (insertAfter label block code)).Nodup := by
  induction code with
  | nil => exact List.nodup_nil
  | cons first rest inductionHypothesis =>
      rw [labels, List.map_cons, ← labels] at distinct fresh
      rw [List.nodup_cons] at distinct
      rw [List.mem_cons, not_or] at fresh
      rw [insertAfter]
      split
      · simp only [labels, List.map_cons, List.nodup_cons, List.mem_cons,
          not_or]
        exact ⟨⟨Ne.symm fresh.1, distinct.1⟩, fresh.2, distinct.2⟩
      · simp only [labels, List.map_cons, List.nodup_cons]
        refine ⟨fun member => ?_, inductionHypothesis distinct.2 fresh.2⟩
        by_cases inRest : label ∈ labels rest
        · rcases (mem_labels_insertAfter inRest).mp member with
            isNew | isOld
          · exact fresh.1 isNew.symm
          · exact distinct.1 isOld
        · have same (code : List (Block Label Op))
              (notIn : label ∉ labels code) :
              insertAfter label block code = code := by
            induction code with
            | nil => rfl
            | cons second later inductionHypothesis =>
                rw [labels, List.map_cons, List.mem_cons, not_or] at notIn
                rw [insertAfter, if_neg (Ne.symm notIn.1),
                  inductionHypothesis notIn.2]
          rw [← labels, same rest inRest] at member
          exact distinct.1 member

/-- The new block is found, and every other one as before. -/
theorem block?_insertAfter (isLabel : label ∈ labels code)
    (fresh : block.label ∉ labels code) :
    block? (insertAfter label block code) other =
      if other = block.label then some block else block? code other := by
  induction code with
  | nil => simp [labels] at isLabel
  | cons first rest inductionHypothesis =>
      rw [labels, List.map_cons, List.mem_cons, not_or] at fresh
      rw [insertAfter]
      split
      · simp only [block?, List.find?_cons]
        by_cases isNew : other = block.label
        · subst isNew
          rw [decide_eq_false (Ne.symm fresh.1), decide_eq_true rfl,
            if_pos rfl]
        · rw [if_neg isNew, decide_eq_false (Ne.symm isNew)]
      · next notFirst =>
          have inRest : label ∈ labels rest := by
            refine (List.mem_cons.mp isLabel).resolve_left fun isFirst => ?_
            exact notFirst isFirst.symm
          have ofRest := inductionHypothesis inRest fresh.2
          rw [block?] at ofRest
          simp only [block?, List.find?_cons]
          by_cases isFirst : first.label = other
          · subst isFirst
            rw [decide_eq_true rfl, if_neg (Ne.symm fresh.1)]
          · rw [decide_eq_false isFirst]
            exact ofRest

/-- The new block comes between the block and the one that was next. -/
theorem next?_insertAfter (isLabel : label ∈ labels code)
    (fresh : block.label ∉ labels code) :
    next? (insertAfter label block code) other =
      if other = block.label then next? code label
      else if other = label then some block.label
      else next? code other := by
  induction code with
  | nil => simp [labels] at isLabel
  | cons first rest inductionHypothesis =>
      rw [labels, List.map_cons, List.mem_cons, not_or] at fresh
      rw [insertAfter]
      split
      · next isFirst =>
          subst isFirst
          simp only [next?, List.head?_cons, Option.map_some, ↓reduceIte]
          by_cases isNew : other = block.label
          · subst isNew
            rw [if_neg (Ne.symm fresh.1)]
            simp
          · by_cases isOther : first.label = other
            · simp [isOther, isNew]
            · simp [isOther, isNew, Ne.symm isNew, Ne.symm isOther]
      · next notFirst =>
          have inRest : label ∈ labels rest := by
            refine (List.mem_cons.mp isLabel).resolve_left fun isFirst => ?_
            exact notFirst isFirst.symm
          have ofRest := inductionHypothesis inRest fresh.2
          have sameHead :
              (insertAfter label block rest).head?.map (·.label) =
                rest.head?.map (·.label) := by
            cases rest with
            | nil => rfl
            | cons second later =>
                rw [insertAfter]
                split <;> rfl
          rw [next?, next?, next?, sameHead, ofRest, if_neg notFirst]
          by_cases isFirst : first.label = other
          · subst isFirst
            rw [if_pos rfl, if_pos rfl, if_neg (Ne.symm fresh.1),
              if_neg notFirst]
          · rw [if_neg isFirst, if_neg isFirst]

/-- A block laid out behind one that is not last does not become the last. -/
theorem endsClosed_insertAfter (closed : EndsClosed code)
    (isNext : next? code label ≠ none) :
    EndsClosed (insertAfter label block code) := by
  have sameLast :
      (insertAfter label block code).getLast? = code.getLast? := by
    clear closed
    induction code with
    | nil => rfl
    | cons first rest inductionHypothesis =>
        rw [next?] at isNext
        rw [insertAfter]
        cases rest with
        | nil =>
            split at isNext <;> exact absurd rfl isNext
        | cons second later =>
            split
            · rw [List.getLast?_cons_cons, List.getLast?_cons_cons,
                List.getLast?_cons_cons]
            · next notFirst =>
                rw [if_neg notFirst] at isNext
                have ofRest := inductionHypothesis isNext
                rw [List.getLast?_cons_cons, ← ofRest, insertAfter]
                split <;> rw [List.getLast?_cons_cons]
  intro last isLast
  rw [sameLast] at isLast
  exact closed last isLast

theorem block?_concat (fresh : block.label ∉ labels code) :
    block? (code ++ [block]) other =
      if other = block.label then some block else block? code other := by
  rw [block?, List.find?_append, ← block?]
  by_cases isNew : other = block.label
  · subst isNew
    rw [block?_eq_none_iff.mpr fresh, if_pos rfl]
    simp
  · rw [if_neg isNew, List.find?_singleton,
      decide_eq_false (Ne.symm isNew)]
    simp

theorem next?_concat {following : Label}
    (isNext : next? code other = some following) :
    next? (code ++ [block]) other = some following := by
  induction code with
  | nil => cases isNext
  | cons first rest inductionHypothesis =>
      rw [next?] at isNext
      rw [List.cons_append, next?]
      split
      · next isFirst =>
          rw [if_pos isFirst] at isNext
          cases rest with
          | nil => cases isNext
          | cons second later => exact isNext
      · next notFirst =>
          rw [if_neg notFirst] at isNext
          exact inductionHypothesis isNext

omit [DecidableEq Label] in
theorem targets_of_not_falls {exit : Exit Label}
    (notFalls : exit.falls = false) (next next' : Option Label) :
    exit.targets next = exit.targets next' := by
  cases exit with
  | fall => cases notFalls
  | branch target => cases notFalls
  | jump target => rfl
  | branchJump target other => rfl
  | table targets => rfl
  | leave => rfl

theorem goes_of_block? (isBlock : block? code label = some block) :
    goes code label = block.exit.targets (next? code label) := by
  rw [goes, isBlock]

theorem ops_of_block? (isBlock : block? code label = some block) :
    ops code label = block.ops := by
  rw [ops, isBlock]

/-- A block behind all others changes nothing for them. -/
theorem goes_concat (closed : EndsClosed code)
    (notNew : other ≠ block.label) (fresh : block.label ∉ labels code) :
    goes (code ++ [block]) other = goes code other := by
  have sameBlock : block? (code ++ [block]) other = block? code other := by
    rw [block?_concat fresh, if_neg notNew]
  cases isBlock : block? code other with
  | none => rw [goes, goes, sameBlock, isBlock]
  | some found =>
      rw [goes, goes, sameBlock, isBlock]
      dsimp only
      cases falls : found.exit.falls with
      | false => exact targets_of_not_falls falls _ _
      | true =>
          obtain ⟨following, isNext⟩ := Option.isSome_iff_exists.mp
            (next?_isSome_of_falls closed isBlock falls)
          rw [isNext, next?_concat isNext]

/-! ## A block on an edge -/

/-- One way to the old target goes to the new one; it is the first. -/
def Redirected (old new : Label) (before after : List (Option Label)) :
    Prop :=
  ∃ front back, some old ∉ front ∧ before = front ++ some old :: back ∧
    after = front ++ some new :: back

/-- A new block has been laid on the edge from one block to another. -/
structure OnEdge (code : List (Block Label Op)) (source target new : Label)
    (newOps : List Op) (code' : List (Block Label Op)) : Prop where
  mem_labels : ∀ label, label ∈ labels code' ↔
    label = new ∨ label ∈ labels code
  nodup : (labels code').Nodup
  closed : EndsClosed code'
  shape_old : ∀ label, label ≠ new →
    (exit? code' label).map Exit.shape = (exit? code label).map Exit.shape
  goes_source :
    Redirected target new (goes code source) (goes code' source)
  goes_new : goes code' new = [some target]
  goes_other :
    ∀ label, label ≠ source → label ≠ new → goes code' label = goes code label
  ops_new : ops code' new = newOps
  ops_old : ∀ label, label ≠ new → ops code' label = ops code label

omit [DecidableEq Label] in
theorem falls_of_shape {exit exit' : Exit Label}
    (sameShape : exit'.shape = exit.shape) : exit'.falls = exit.falls := by
  cases exit <;> cases exit' <;> first | rfl | cases sameShape

/-- Without a first branch to the label, only the last one may go there. -/
theorem redirectLast?_eq_redirect? {exit : Exit Label}
    (notFirst : ∀ other, exit ≠ .branchJump old other) :
    exit.redirectLast? old new = exit.redirect? old new := by
  unfold Exit.redirect?
  cases isLast : exit.redirectLast? old new with
  | some redirected => rfl
  | none =>
      cases exit with
      | branchJump target other =>
          have notOld : target ≠ old := by
            rintro rfl
            exact notFirst other rfl
          dsimp only
          rw [if_neg notOld]
      | fall => rfl
      | jump target => rfl
      | branch target => rfl
      | table targets => rfl
      | leave => rfl

/-- Redirecting a branch changes the first way to the label. -/
theorem redirected_of_redirect? {exit exit' : Exit Label}
    {next : Option Label}
    (isRedirected : exit.redirect? old new = some exit')
    (notBoth : exit ≠ .branchJump old old) :
    exit'.shape = exit.shape ∧
      Redirected old new (exit.targets next) (exit'.targets next) := by
  cases exit with
  | fall => cases isRedirected
  | table targets => cases isRedirected
  | leave => cases isRedirected
  | jump target =>
      by_cases isOld : target = old
      · simp only [Exit.redirect?, Exit.redirectLast?, isOld, ↓reduceIte,
          Option.some_inj] at isRedirected
        subst isRedirected isOld
        exact ⟨rfl, [], [], List.not_mem_nil, rfl, rfl⟩
      · simp [Exit.redirect?, Exit.redirectLast?, isOld] at isRedirected
  | branch target =>
      by_cases isOld : target = old
      · simp only [Exit.redirect?, Exit.redirectLast?, isOld, ↓reduceIte,
          Option.some_inj] at isRedirected
        subst isRedirected isOld
        exact ⟨rfl, [], [next], List.not_mem_nil, rfl, rfl⟩
      · simp [Exit.redirect?, Exit.redirectLast?, isOld] at isRedirected
  | branchJump target other =>
      by_cases isLast : other = old
      · simp only [Exit.redirect?, Exit.redirectLast?, isLast, ↓reduceIte,
          Option.some_inj] at isRedirected
        subst isRedirected isLast
        have notFirst : some other ∉ [some target] := by
          intro member
          rw [Option.some_inj.mp (List.mem_singleton.mp member)] at notBoth
          exact notBoth rfl
        exact ⟨rfl, [some target], [], notFirst, rfl, rfl⟩
      · by_cases isOld : target = old
        · simp only [Exit.redirect?, Exit.redirectLast?, isLast, isOld,
            ↓reduceIte, Option.some_inj] at isRedirected
          subst isRedirected isOld
          exact ⟨rfl, [], [some other], List.not_mem_nil, rfl, rfl⟩
        · simp [Exit.redirect?, Exit.redirectLast?, isLast, isOld]
            at isRedirected

/-- If no branch goes to a label, control falls through to it. -/
theorem redirected_of_redirect?_eq_none {exit : Exit Label}
    {next : Option Label}
    (notRedirected : exit.redirect? old new = none)
    (notTable : ∀ targets, exit ≠ .table targets)
    (isTarget : some old ∈ exit.targets next) :
    next = some old ∧
      Redirected old new (exit.targets next) (exit.targets (some new)) := by
  cases exit with
  | fall =>
      have isNext := List.mem_singleton.mp isTarget
      subst isNext
      exact ⟨rfl, [], [], List.not_mem_nil, rfl, rfl⟩
  | table targets => exact absurd rfl (notTable targets)
  | leave => simp [Exit.targets] at isTarget
  | jump target =>
      have isOld := Option.some_inj.mp (List.mem_singleton.mp isTarget)
      simp [Exit.redirect?, Exit.redirectLast?, isOld] at notRedirected
  | branch target =>
      have notOld : target ≠ old := by
        rintro rfl
        simp [Exit.redirect?, Exit.redirectLast?] at notRedirected
      simp only [Exit.targets, List.mem_cons, Option.some_inj, Ne.symm notOld,
        List.not_mem_nil, or_false, false_or] at isTarget
      subst isTarget
      refine ⟨rfl, [some target], [], ?_, rfl, rfl⟩
      intro member
      exact notOld (Option.some_inj.mp (List.mem_singleton.mp member)).symm
  | branchJump target other =>
      have notLast : other ≠ old := by
        rintro rfl
        simp [Exit.redirect?, Exit.redirectLast?] at notRedirected
      have notOld : target ≠ old := by
        rintro rfl
        simp [Exit.redirect?, Exit.redirectLast?, notLast] at notRedirected
      simp [Exit.targets, Ne.symm notLast, Ne.symm notOld] at isTarget

variable {newOps : List Op} {exit : Exit Label}

/-- A block at the end that a branch to the target is redirected to -/
theorem onEdge_redirect (distinct : (labels code).Nodup)
    (closed : EndsClosed code) (isBlock : block? code label = some block)
    (fresh : new ∉ labels code)
    (isRedirected : block.exit.redirect? old new = some exit)
    (notBoth : block.exit ≠ .branchJump old old) :
    OnEdge code label old new newOps
      (updateBlock code label (fun block => { block with exit := exit }) ++
        [⟨new, newOps, .jump old⟩]) := by
  have isLabel : label ∈ labels code :=
    block?_isSome_iff.mp (Option.isSome_iff_exists.mpr ⟨block, isBlock⟩)
  have notNew : label ≠ new := by
    rintro rfl
    exact fresh isLabel
  obtain ⟨sameShape, isReplaced⟩ :=
    @redirected_of_redirect? _ _ _ _ _ _ (next? code label) isRedirected
      notBoth
  have keepsLabel (block : Block Label Op) :
      ({ block with exit := exit } : Block Label Op).label = block.label :=
    rfl
  have sameLabels :
      labels (updateBlock code label fun block => { block with exit := exit }) =
        labels code :=
    labels_updateBlock keepsLabel
  have stillFresh : new ∉ labels (updateBlock code label fun block =>
      { block with exit := exit }) := by
    rwa [sameLabels]
  have stillClosed :
      EndsClosed (updateBlock code label fun block =>
        { block with exit := exit }) := by
    refine endsClosed_updateBlock closed fun other member sameLabel => ?_
    have found := block?_of_mem distinct member
    rw [sameLabel, isBlock] at found
    cases found
    exact falls_of_shape sameShape
  constructor
  · intro other
    rw [labels, List.map_append, ← labels, sameLabels, List.mem_append,
      List.map_singleton, List.mem_singleton]
    exact or_comm
  · rw [labels, List.map_append, ← labels, sameLabels, List.map_singleton]
    refine List.nodup_append.mpr ⟨distinct, List.nodup_singleton _, ?_⟩
    rintro label isLabel other isNew rfl
    rw [List.mem_singleton.mp isNew] at isLabel
    exact fresh isLabel
  · intro last isLast
    rw [List.getLast?_concat, Option.some_inj] at isLast
    rw [← isLast]
    rfl
  · intro other otherNotNew
    rw [exit?, block?_concat stillFresh, if_neg otherNotNew,
      block?_updateBlock keepsLabel, exit?]
    by_cases isSource : other = label
    · subst isSource
      rw [if_pos rfl, isBlock]
      exact congrArg some sameShape
    · rw [if_neg isSource]
  · rw [goes_of_block? isBlock, goes_concat stillClosed notNew stillFresh,
      goes, block?_updateBlock keepsLabel, if_pos rfl, isBlock,
      next?_updateBlock keepsLabel]
    exact isReplaced
  · rw [goes, block?_concat stillFresh, if_pos rfl]
    rfl
  · intro other notLabel otherNotNew
    rw [goes_concat stillClosed otherNotNew stillFresh, goes,
      block?_updateBlock keepsLabel, if_neg notLabel,
      next?_updateBlock keepsLabel, goes]
  · rw [ops, block?_concat stillFresh, if_pos rfl]
  · intro other otherNotNew
    rw [ops, ops, block?_concat stillFresh, if_neg otherNotNew,
      block?_updateBlock keepsLabel]
    by_cases isSource : other = label
    · rw [if_pos isSource]
      cases block? code other <;> rfl
    · rw [if_neg isSource]

/-- A block behind the source, which falls through to the target -/
theorem onEdge_fall (distinct : (labels code).Nodup)
    (closed : EndsClosed code) (isBlock : block? code label = some block)
    (fresh : new ∉ labels code)
    (notRedirected : block.exit.redirect? old new = none)
    (notTable : ∀ targets, block.exit ≠ .table targets)
    (isTarget : some old ∈ goes code label) :
    OnEdge code label old new newOps
      (insertAfter label ⟨new, newOps, .fall⟩ code) := by
  have isLabel : label ∈ labels code :=
    block?_isSome_iff.mp (Option.isSome_iff_exists.mpr ⟨block, isBlock⟩)
  have notNew : label ≠ new := by
    rintro rfl
    exact fresh isLabel
  rw [goes_of_block? isBlock] at isTarget
  obtain ⟨isNext, isReplaced⟩ :=
    redirected_of_redirect?_eq_none notRedirected notTable isTarget
  have blocks (other : Label) :
      block? (insertAfter label ⟨new, newOps, .fall⟩ code) other =
        if other = new then some ⟨new, newOps, .fall⟩
        else block? code other :=
    block?_insertAfter isLabel fresh
  have nexts (other : Label) :
      next? (insertAfter label ⟨new, newOps, .fall⟩ code) other =
        if other = new then next? code label
        else if other = label then some new
        else next? code other :=
    next?_insertAfter isLabel fresh
  constructor
  · intro other
    exact mem_labels_insertAfter isLabel
  · exact nodup_labels_insertAfter distinct fresh
  · refine endsClosed_insertAfter closed ?_
    rw [isNext]
    nofun
  · intro other otherNotNew
    rw [exit?, blocks, if_neg otherNotNew, exit?]
  · rw [goes_of_block? isBlock, goes, blocks, if_neg notNew, isBlock, nexts,
      if_neg notNew, if_pos rfl]
    exact isReplaced
  · rw [goes, blocks, if_pos rfl, nexts, if_pos rfl, isNext]
    rfl
  · intro other notLabel otherNotNew
    rw [goes, blocks, if_neg otherNotNew, nexts, if_neg otherNotNew,
      if_neg notLabel, goes]
  · rw [ops, blocks, if_pos rfl]
  · intro other otherNotNew
    rw [ops, blocks, if_neg otherNotNew, ops]

end Layout
