import Mathlib.Data.List.Basic

/-!
# Runs through laid-out code

Code is a list of labelled blocks in the order in which they are laid out: a
block that does not end in a jump falls through to the next one.  What an
instruction does to control is given by its `Flow`; which way it goes where
it has a choice is left to a list of choices, one for each instruction that
is executed.
-/

namespace ControlFlow

/-- What an instruction does to control. -/
inductive Flow (Label : Type) where
  /-- It is not executed. -/
  | skip
  /-- To the next instruction -/
  | next
  | jump (target : Label)
  /-- To the target, or to the next instruction -/
  | branch (target : Label)
  /-- To one of the targets -/
  | choose (targets : List Label)
  /-- The run ends here. -/
  | stop
  deriving DecidableEq, Repr

/-- Is an instruction passed over? -/
def Flow.isSkip {Label : Type} : Flow Label → Bool
  | .skip => true
  | _ => false

/-- The labels that control may go to, apart from the next instruction. -/
def Flow.targets {Label : Type} : Flow Label → List Label
  | .jump target => [target]
  | .branch target => [target]
  | .choose targets => targets
  | _ => []

/-- The same with other labels. -/
def Flow.map {Label Label' : Type} (rename : Label → Label') :
    Flow Label → Flow Label'
  | .skip => .skip
  | .next => .next
  | .jump target => .jump (rename target)
  | .branch target => .branch (rename target)
  | .choose targets => .choose (targets.map rename)
  | .stop => .stop

/-- A block of code. -/
structure Block (Label Instr : Type) where
  label : Label
  instrs : List Instr

/-- What is left of a block, and the blocks laid out behind it. -/
structure Point (Label Instr : Type) where
  rest : List Instr
  following : List (Block Label Instr)

/-- Which way an instruction goes where it has a choice. -/
structure Choice where
  taken : Bool
  index : Nat
  deriving DecidableEq, Repr

/-- Where a run has got to. -/
inductive Place (Label Instr : Type) where
  | here (point : Point Label Instr)
  /-- At a label that is not in the code -/
  | outside (label : Label)
  | stopped
  /-- Behind the last block, or behind the last target of a choice -/
  | beyond

variable {Label Instr : Type} (flow : Instr → Flow Label)

section Run

variable [DecidableEq Label]

/-- The point at the start of a block. -/
def find? (label : Label) :
    List (Block Label Instr) → Option (Point Label Instr)
  | [] => none
  | block :: following =>
      if block.label = label then some ⟨block.instrs, following⟩
      else find? label following

/-- Go to a label. -/
def goto (code : List (Block Label Instr)) (label : Label) :
    Place Label Instr :=
  match find? label code with
  | some point => .here point
  | none => .outside label

omit [DecidableEq Label] in
/-- The next instruction of a block that is executed, and what is left. -/
def nextIn : List Instr → Option (Instr × List Instr)
  | [] => none
  | instr :: rest =>
      if (flow instr).isSkip then nextIn rest else some (instr, rest)

omit [DecidableEq Label] in
/-- The next instruction that is executed, and the point behind it. -/
def fetch (instrs : List Instr) (following : List (Block Label Instr)) :
    Option (Instr × Point Label Instr) :=
  match nextIn flow instrs with
  | some (instr, rest) => some (instr, ⟨rest, following⟩)
  | none =>
      match following with
      | [] => none
      | block :: following => fetch block.instrs following

/-- Where control goes from an instruction; `behind` is the next one. -/
def follow
    (code : List (Block Label Instr)) (choice : Choice)
    (behind : Point Label Instr) : Flow Label → Place Label Instr
  | .skip => .here behind
  | .next => .here behind
  | .jump target => goto code target
  | .branch target => if choice.taken then goto code target else .here behind
  | .choose targets =>
      match targets[choice.index]? with
      | some target => goto code target
      | none => .beyond
  | .stop => .stopped

/-- The instructions that a run executes, and where it gets to. -/
def run (code : List (Block Label Instr)) :
    List Choice → Place Label Instr → List Instr × Place Label Instr
  | [], place => ([], place)
  | choice :: rest, .here point =>
      match fetch flow point.rest point.following with
      | none => ([], .beyond)
      | some (instr, behind) =>
          let later :=
            run code rest (follow code choice behind (flow instr))
          (instr :: later.1, later.2)
  | _ :: _, place => ([], place)

end Run

/-- The first block, from its start -/
def entry : List (Block Label Instr) → Place Label Instr
  | [] => .beyond
  | block :: following => .here ⟨block.instrs, following⟩

/-! ## Copies under other labels -/

section Copy

variable {Label' Instr' : Type}
  (rename : Label → Label') (copy? : Instr → Option Instr')

/-- The copy of a block: the copies of the instructions that have one. -/
def Block.copy (block : Block Label Instr) : Block Label' Instr' where
  label := rename block.label
  instrs := block.instrs.filterMap copy?

/-- The same point of the copied code. -/
def Point.copy (point : Point Label Instr) : Point Label' Instr' where
  rest := point.rest.filterMap copy?
  following := point.following.map (Block.copy rename copy?)

/-- The same place of the copied code. -/
def Place.copy : Place Label Instr → Place Label' Instr'
  | .here point => .here (point.copy rename copy?)
  | .outside label => .outside (rename label)
  | .stopped => .stopped
  | .beyond => .beyond

/-- Copied instructions do what the originals do, under other labels. -/
structure CopiesFlow (flow' : Instr' → Flow Label')
    (instrs : List Instr) : Prop where
  dropped :
    ∀ instr ∈ instrs, copy? instr = none ↔ (flow instr).isSkip = true
  flow :
    ∀ instr ∈ instrs, ∀ copied, copy? instr = some copied →
      flow' copied = (flow instr).map rename

variable {flow : Instr → Flow Label} {flow' : Instr' → Flow Label'}
  {rename : Label → Label'} {copy? : Instr → Option Instr'}

theorem CopiesFlow.mono
    {instrs fewer : List Instr}
    (copies : CopiesFlow flow rename copy? flow' instrs)
    (within : ∀ instr ∈ fewer, instr ∈ instrs) :
    CopiesFlow flow rename copy? flow' fewer where
  dropped instr member := copies.dropped instr (within instr member)
  flow instr member := copies.flow instr (within instr member)

@[simp] theorem isSkip_map (what : Flow Label) :
    (what.map rename).isSkip = what.isSkip := by
  cases what <;> rfl

/-- The next executed instruction of a copied block is the copied one. -/
theorem nextIn_copy
    {instrs : List Instr}
    (copies : CopiesFlow flow rename copy? flow' instrs) :
    nextIn flow' (instrs.filterMap copy?) =
      (nextIn flow instrs).bind fun found =>
        (copy? found.1).map fun copied =>
          (copied, found.2.filterMap copy?) := by
  induction instrs with
  | nil =>
      rfl
  | cons instr rest inductionHypothesis =>
      have restCopies : CopiesFlow flow rename copy? flow' rest :=
        copies.mono fun other inRest => List.mem_cons_of_mem _ inRest
      have dropped := copies.dropped instr List.mem_cons_self
      cases isCopy : copy? instr with
      | none =>
          rw [List.filterMap_cons_none isCopy]
          simp only [nextIn, dropped.mp isCopy, ↓reduceIte]
          exact inductionHypothesis restCopies
      | some copied =>
          have executed : (flow instr).isSkip = false := by
            rw [← Bool.not_eq_true, ← dropped, isCopy]
            nofun
          have copiedFlow :=
            copies.flow instr List.mem_cons_self copied isCopy
          rw [List.filterMap_cons_some isCopy]
          simp [nextIn, copiedFlow, executed, isCopy]

/-- What is found in a block is one of its executed instructions. -/
theorem mem_of_nextIn
    {instrs : List Instr} {instr : Instr} {rest : List Instr}
    (found : nextIn flow instrs = some (instr, rest)) :
    instr ∈ instrs ∧ (flow instr).isSkip = false ∧
      ∀ other ∈ rest, other ∈ instrs := by
  induction instrs with
  | nil =>
      cases found
  | cons first later inductionHypothesis =>
      unfold nextIn at found
      split at found
      · obtain ⟨member, executed, within⟩ := inductionHypothesis found
        exact ⟨List.mem_cons_of_mem _ member, executed,
          fun other inRest => List.mem_cons_of_mem _ (within other inRest)⟩
      · next executed =>
          cases found
          exact ⟨List.mem_cons_self, Bool.not_eq_true _ ▸ executed,
            fun other inRest => List.mem_cons_of_mem _ inRest⟩

theorem fetch_of_nextIn
    {instrs : List Instr} {following : List (Block Label Instr)}
    {instr : Instr} {rest : List Instr}
    (found : nextIn flow instrs = some (instr, rest)) :
    fetch flow instrs following = some (instr, ⟨rest, following⟩) := by
  rw [fetch.eq_def, found]

/-- A block without executed instructions is passed over. -/
theorem fetch_cons
    {instrs : List Instr} {block : Block Label Instr}
    {later : List (Block Label Instr)}
    (notFound : nextIn flow instrs = none) :
    fetch flow instrs (block :: later) = fetch flow block.instrs later := by
  rw [fetch.eq_def, notFound]

theorem fetch_nil
    {instrs : List Instr} (notFound : nextIn flow instrs = none) :
    fetch flow instrs [] = none := by
  rw [fetch.eq_def, notFound]

theorem nextIn_copy_none
    {instrs : List Instr}
    (copies : CopiesFlow flow rename copy? flow' instrs)
    (notFound : nextIn flow instrs = none) :
    nextIn flow' (instrs.filterMap copy?) = none := by
  rw [nextIn_copy copies, notFound]
  rfl

theorem nextIn_copy_some
    {instrs : List Instr} {instr : Instr} {rest : List Instr}
    (copies : CopiesFlow flow rename copy? flow' instrs)
    (found : nextIn flow instrs = some (instr, rest)) :
    ∃ copied, copy? instr = some copied ∧
      nextIn flow' (instrs.filterMap copy?) =
        some (copied, rest.filterMap copy?) := by
  obtain ⟨member, executed, -⟩ := mem_of_nextIn found
  cases isCopy : copy? instr with
  | none =>
      rw [(copies.dropped instr member).mp isCopy] at executed
      cases executed
  | some copied =>
      refine ⟨copied, rfl, ?_⟩
      rw [nextIn_copy copies, found, Option.bind_some, isCopy]
      rfl

/-- All instructions from a point on -/
def Point.instrs (point : Point Label Instr) : List Instr :=
  point.rest ++ point.following.flatMap (·.instrs)

/-- What is fetched is executed, and what is left of the code is the code's. -/
theorem of_nextIn
    {instrs : List Instr} {following : List (Block Label Instr)}
    {instr : Instr} {rest : List Instr}
    (found : nextIn flow instrs = some (instr, rest)) :
    instr ∈ (Point.mk instrs following).instrs ∧
      (flow instr).isSkip = false ∧
      ∀ other ∈ (Point.mk rest following).instrs,
        other ∈ (Point.mk instrs following).instrs := by
  obtain ⟨member, executed, within⟩ := mem_of_nextIn found
  refine ⟨List.mem_append_left _ member, executed, ?_⟩
  intro other inBehind
  rcases List.mem_append.mp inBehind with inRest | later
  · exact List.mem_append_left _ (within other inRest)
  · exact List.mem_append_right _ later

theorem of_fetch
    {instrs : List Instr} {following : List (Block Label Instr)}
    {instr : Instr} {behind : Point Label Instr}
    (fetched : fetch flow instrs following = some (instr, behind)) :
    instr ∈ (Point.mk instrs following).instrs ∧
      (flow instr).isSkip = false ∧
      ∀ other ∈ behind.instrs,
        other ∈ (Point.mk instrs following).instrs := by
  induction following generalizing instrs with
  | nil =>
      cases found : nextIn flow instrs with
      | none =>
          rw [fetch_nil found] at fetched
          cases fetched
      | some pair =>
          rw [fetch_of_nextIn found] at fetched
          cases fetched
          exact of_nextIn found
  | cons block later inductionHypothesis =>
      cases found : nextIn flow instrs with
      | none =>
          rw [fetch_cons found] at fetched
          obtain ⟨member, executed, within⟩ := inductionHypothesis fetched
          exact ⟨List.mem_append_right _ member, executed,
            fun other inBehind =>
              List.mem_append_right _ (within other inBehind)⟩
      | some pair =>
          rw [fetch_of_nextIn found] at fetched
          cases fetched
          exact of_nextIn found

/-- Fetching finds an instruction, and the copied code its copy. -/
structure FetchesCopy
    (flow : Instr → Flow Label) (flow' : Instr' → Flow Label')
    (rename : Label → Label') (copy? : Instr → Option Instr')
    (point behind : Point Label Instr)
    (instr : Instr) (copied : Instr') : Prop where
  fetched :
    fetch flow point.rest point.following = some (instr, behind)
  isCopy : copy? instr = some copied
  fetchedCopy :
    fetch flow' (point.copy rename copy?).rest
        (point.copy rename copy?).following =
      some (copied, behind.copy rename copy?)

/-- What is left of the block is enough. -/
theorem fetchesCopy_of_nextIn
    {instrs : List Instr} {following : List (Block Label Instr)}
    {found : Instr × List Instr}
    (copies : CopiesFlow flow rename copy? flow' instrs)
    (isFound : nextIn flow instrs = some found) :
    ∃ behind instr copied,
      FetchesCopy flow flow' rename copy? ⟨instrs, following⟩ behind instr
        copied := by
  obtain ⟨instr, rest⟩ := found
  obtain ⟨copied, isCopy, copiedFound⟩ := nextIn_copy_some copies isFound
  exact ⟨⟨rest, following⟩, instr, copied, fetch_of_nextIn isFound, isCopy,
    fetch_of_nextIn copiedFound⟩

/-- Fetching in copied code gives the copy of what is fetched. -/
theorem fetch_copy
    (instrs : List Instr) (following : List (Block Label Instr))
    (copies :
      CopiesFlow flow rename copy? flow'
        (Point.mk instrs following).instrs) :
    (fetch flow instrs following = none ∧
      fetch flow' (instrs.filterMap copy?)
          (following.map (Block.copy rename copy?)) =
        none) ∨
    ∃ behind instr copied,
      FetchesCopy flow flow' rename copy? ⟨instrs, following⟩ behind instr
        copied := by
  have ofBlock : CopiesFlow flow rename copy? flow' instrs :=
    copies.mono fun instr inBlock => List.mem_append_left _ inBlock
  induction following generalizing instrs with
  | nil =>
      cases found : nextIn flow instrs with
      | none =>
          exact .inl
            ⟨fetch_nil found, fetch_nil (nextIn_copy_none ofBlock found)⟩
      | some pair =>
          exact .inr (fetchesCopy_of_nextIn ofBlock found)
  | cons block later inductionHypothesis =>
      cases found : nextIn flow instrs with
      | none =>
          have ofLater :
              CopiesFlow flow rename copy? flow'
                (Point.mk block.instrs later).instrs :=
            copies.mono fun instr member =>
              List.mem_append_right instrs member
          have fetched :
              fetch flow instrs (block :: later) =
                fetch flow block.instrs later :=
            fetch_cons found
          have fetchedCopy :
              fetch flow' (instrs.filterMap copy?)
                  ((block :: later).map (Block.copy rename copy?)) =
                fetch flow' (block.instrs.filterMap copy?)
                  (later.map (Block.copy rename copy?)) :=
            fetch_cons (nextIn_copy_none ofBlock found)
          rcases inductionHypothesis block.instrs ofLater
              (ofLater.mono fun instr inBlock =>
                List.mem_append_left _ inBlock) with
            ⟨notFound, copyNotFound⟩ | ⟨behind, instr, copied, fetches⟩
          · exact .inl
              ⟨fetched.trans notFound, fetchedCopy.trans copyNotFound⟩
          · exact .inr ⟨behind, instr, copied,
              fetched.trans fetches.fetched, fetches.isCopy,
              fetchedCopy.trans fetches.fetchedCopy⟩
      | some pair =>
          exact .inr (fetchesCopy_of_nextIn ofBlock found)

/-- All instructions of some code -/
def instrsOf (code : List (Block Label Instr)) : List Instr :=
  code.flatMap (·.instrs)

/--
A place of the code: the instructions from there on are instructions of the
code, and a label outside it is none of the code's labels.
-/
def Place.Within (code : List (Block Label Instr)) :
    Place Label Instr → Prop
  | .here point => ∀ instr ∈ point.instrs, instr ∈ instrsOf code
  | .outside label => ∀ block ∈ code, block.label ≠ label
  | _ => True

/-- The labels of the code stay apart from all others it names. -/
def Separates
    (flow : Instr → Flow Label) (rename : Label → Label')
    (code : List (Block Label Instr)) : Prop :=
  ∀ block ∈ code, ∀ instr ∈ instrsOf code,
    ∀ target ∈ (flow instr).targets,
      rename block.label = rename target → block.label = target

theorem entry_copy (code : List (Block Label Instr)) :
    entry (code.map (Block.copy rename copy?)) =
      (entry code).copy rename copy? := by
  cases code <;> rfl

theorem entry_within (code : List (Block Label Instr)) :
    (entry code).Within code := by
  cases code with
  | nil => trivial
  | cons block following => exact fun instr member => member

variable [DecidableEq Label] [DecidableEq Label']

theorem find?_within
    {code : List (Block Label Instr)} {label : Label}
    {point : Point Label Instr} (found : find? label code = some point) :
    ∀ instr ∈ point.instrs, instr ∈ instrsOf code := by
  induction code with
  | nil =>
      cases found
  | cons block following inductionHypothesis =>
      unfold find? at found
      split at found
      · cases found
        intro instr member
        exact member
      · intro instr member
        exact List.mem_append_right _
          (inductionHypothesis found instr member)

theorem ne_of_find?_eq_none
    {code : List (Block Label Instr)} {label : Label}
    (notFound : find? label code = none) :
    ∀ block ∈ code, block.label ≠ label := by
  induction code with
  | nil =>
      nofun
  | cons first following inductionHypothesis =>
      unfold find? at notFound
      split at notFound
      · cases notFound
      · next elsewhere =>
          intro block member
          rcases List.mem_cons.mp member with isFirst | inFollowing
          · rw [isFirst]
            exact elsewhere
          · exact inductionHypothesis notFound block inFollowing

theorem goto_within (code : List (Block Label Instr)) (label : Label) :
    (goto code label).Within code := by
  unfold goto
  cases found : find? label code with
  | none => exact ne_of_find?_eq_none found
  | some point => exact find?_within found

/-- Copied code has the copy of a block under the block's new label. -/
theorem find?_copy
    {code : List (Block Label Instr)} {label : Label}
    (apart :
      ∀ block ∈ code, rename block.label = rename label →
        block.label = label) :
    find? (rename label) (code.map (Block.copy rename copy?)) =
      (find? label code).map (Point.copy rename copy?) := by
  induction code with
  | nil =>
      rfl
  | cons block following inductionHypothesis =>
      have restApart :
          ∀ other ∈ following, rename other.label = rename label →
            other.label = label :=
        fun other inRest => apart other (List.mem_cons_of_mem _ inRest)
      rw [List.map_cons]
      unfold find?
      by_cases here : block.label = label
      · simp only [Block.copy, here, ↓reduceIte]
        rfl
      · have elsewhere : rename block.label ≠ rename label :=
          mt (apart block List.mem_cons_self) here
        simp only [Block.copy, here, elsewhere, ↓reduceIte]
        exact inductionHypothesis restApart

theorem goto_copy
    {code : List (Block Label Instr)} {label : Label}
    (apart :
      ∀ block ∈ code, rename block.label = rename label →
        block.label = label) :
    goto (code.map (Block.copy rename copy?)) (rename label) =
      (goto code label).copy rename copy? := by
  unfold goto
  rw [find?_copy apart]
  cases find? label code with
  | none => rfl
  | some point => rfl

variable {code : List (Block Label Instr)}

/-- Control goes the same way in copied code. -/
theorem follow_copy
    {choice : Choice} {behind : Point Label Instr} {what : Flow Label}
    (apart :
      ∀ block ∈ code, ∀ target ∈ what.targets,
        rename block.label = rename target → block.label = target) :
    follow (code.map (Block.copy rename copy?)) choice
        (behind.copy rename copy?) (what.map rename) =
      (follow code choice behind what).copy rename copy? := by
  cases what with
  | skip => rfl
  | next => rfl
  | stop => rfl
  | jump target =>
      exact goto_copy fun block member =>
        apart block member target (List.mem_singleton_self target)
  | branch target =>
      have jumped :=
        @goto_copy _ _ _ _ rename copy? _ _ code target
          fun block member =>
            apart block member target (List.mem_singleton_self target)
      simp only [follow, Flow.map, jumped]
      split <;> rfl
  | choose targets =>
      simp only [follow, Flow.map, List.getElem?_map]
      cases chosen : targets[choice.index]? with
      | none => rfl
      | some target =>
          exact goto_copy fun block member =>
            apart block member target (List.mem_of_getElem? chosen)

theorem follow_within
    {choice : Choice} {behind : Point Label Instr} {what : Flow Label}
    (within : ∀ instr ∈ behind.instrs, instr ∈ instrsOf code) :
    (follow code choice behind what).Within code := by
  cases what with
  | skip => exact within
  | next => exact within
  | stop => trivial
  | jump target => exact goto_within code target
  | branch target =>
      simp only [follow]
      split
      · exact goto_within code target
      · exact within
  | choose targets =>
      simp only [follow]
      split
      · exact goto_within code _
      · trivial

/-- A run stays in the code, and passes over what is not executed. -/
theorem run_within
    (choices : List Choice) {place : Place Label Instr}
    (within : place.Within code) :
    (∀ instr ∈ (run flow code choices place).1,
        instr ∈ instrsOf code ∧ (flow instr).isSkip = false) ∧
      (run flow code choices place).2.Within code := by
  induction choices generalizing place with
  | nil =>
      simpa [run] using within
  | cons choice rest inductionHypothesis =>
      cases place with
      | outside label => exact ⟨nofun, within⟩
      | stopped => exact ⟨nofun, within⟩
      | beyond => exact ⟨nofun, within⟩
      | here point =>
          cases fetched : fetch flow point.rest point.following with
          | none =>
              simp [run, fetched, Place.Within]
          | some pair =>
              obtain ⟨instr, behind⟩ := pair
              obtain ⟨inPoint, executed, behindWithin⟩ := of_fetch fetched
              have stays : ∀ other ∈ behind.instrs, other ∈ instrsOf code :=
                fun other inBehind =>
                  within other (behindWithin other inBehind)
              obtain ⟨laterExecuted, laterWithin⟩ :=
                inductionHypothesis
                  (@follow_within _ _ _ code choice behind (flow instr)
                    stays)
              simp only [run, fetched]
              refine ⟨?_, laterWithin⟩
              intro other member
              rcases List.mem_cons.mp member with isInstr | inLater
              · rw [isInstr]
                exact ⟨within instr inPoint, executed⟩
              · exact laterExecuted other inLater

/--
Copied code runs as the original does: whatever the choices, it executes the
copies of the same instructions and gets to the copy of the same place.
-/
theorem run_copy
    (copies : CopiesFlow flow rename copy? flow' (instrsOf code))
    (separates : Separates flow rename code)
    (choices : List Choice) {place : Place Label Instr}
    (within : place.Within code) :
    run flow' (code.map (Block.copy rename copy?)) choices
        (place.copy rename copy?) =
      ((run flow code choices place).1.filterMap copy?,
        (run flow code choices place).2.copy rename copy?) := by
  induction choices generalizing place with
  | nil =>
      simp [run]
  | cons choice rest inductionHypothesis =>
      cases place with
      | outside label => rfl
      | stopped => rfl
      | beyond => rfl
      | here point =>
          rcases fetch_copy point.rest point.following
              (copies.mono within) with
            ⟨notFound, copyNotFound⟩ | ⟨behind, instr, copied, fetches⟩
          · simp only [run, Place.copy, Point.copy, notFound, copyNotFound]
            rfl
          · obtain ⟨inPoint, -, behindWithin⟩ := of_fetch fetches.fetched
            have member := within instr inPoint
            have copiedFlow :=
              copies.flow instr member copied fetches.isCopy
            have follows :=
              @follow_copy _ _ _ _ rename copy? _ _ code choice behind
                (flow instr) fun block inCode =>
                  separates block inCode instr member
            have later :=
              inductionHypothesis
                (@follow_within _ _ _ code choice behind (flow instr)
                  fun other inBehind =>
                    within other (behindWithin other inBehind))
            change run flow' _ (choice :: rest)
                (.here (point.copy rename copy?)) = _
            simp only [run, fetches.fetched, fetches.fetchedCopy, copiedFlow,
              follows, later, List.filterMap_cons_some fetches.isCopy]

end Copy

end ControlFlow
