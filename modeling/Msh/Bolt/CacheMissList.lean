import Mathlib.Data.List.Perm.Basic

/-!
# The list of cache misses

`setCMPC` keeps of each line of the list all but the name of the object, since
the list is made for the one binary that is instrumented.  `checkCMPCList`
goes through the lines with an address: the relative-overhead mode decides by
the first of them, the probability mode looks for one that passes.
-/

namespace Msh.BinaryContext

/-- What is read from a line of the list; the last number may be missing. -/
structure CMPCLine (Prob : Type) where
  symbolName : String
  addr : UInt64
  l2mProb : Prob
  l3mProb : Prob
  relOhTh : Option UInt64

/-- `CMPCEntry` -/
structure CMPCEntry (Prob : Type) where
  addr : UInt64
  l2mProb : Prob
  l3mProb : Prob
  relOhTh : UInt64

/-- `opts::ProbTh` and `opts::RelOhTh` -/
structure Thresholds where
  probTh : Int32
  relOhTh : Int32

/-- Comparisons of floating-point numbers; the list depends on no more than
that they are functions. -/
structure Comparisons (Prob : Type) where
  /-- `opts::ProbTh < entry.l2m_prob` -/
  below : Int32 → Prob → Bool
  /-- `opts::ProbTh*0.4 < entry.l3m_prob` -/
  scaledBelow : Int32 → Prob → Bool

variable {Prob : Type}

/-- What `setCMPC` keeps of a line -/
def CMPCLine.entry (line : CMPCLine Prob) : CMPCEntry Prob where
  addr := line.addr
  l2mProb := line.l2mProb
  l3mProb := line.l3mProb
  relOhTh := line.relOhTh.getD 100

/-- `setCMPC`: the `CMPCList` from the lines of the file -/
def setCMPC (lines : List (CMPCLine Prob)) : Option (List (CMPCEntry Prob)) :=
  some (lines.map (·.entry))

variable (comparisons : Comparisons Prob) (thresholds : Thresholds)

/-- `entry.rel_oh_th <= opts::RelOhTh`, which compares unsigned numbers -/
def CMPCEntry.isWithinOverhead (entry : CMPCEntry Prob) : Bool :=
  entry.relOhTh ≤ thresholds.relOhTh.toInt64.toUInt64

/-- The loop of `checkCMPCList` -/
def checkEntries (address : UInt64) : List (CMPCEntry Prob) → Bool
  | [] => false
  | entry :: rest =>
      if entry.addr ≠ address then checkEntries address rest
      else if thresholds.relOhTh ≠ 0 then
        if entry.isWithinOverhead thresholds then true else false
      else if comparisons.below thresholds.probTh entry.l2mProb then true
      else if comparisons.scaledBelow thresholds.probTh entry.l3mProb then true
      else checkEntries address rest

/-- `checkCMPCList` -/
def checkCMPCList (cmpcList : Option (List (CMPCEntry Prob)))
    (address : UInt64) : Bool :=
  match cmpcList with
  | none => false
  | some entries => checkEntries comparisons thresholds address entries

/-- The threshold test of a line -/
def CMPCLine.Passes (line : CMPCLine Prob) : Prop :=
  if thresholds.relOhTh ≠ 0 then
    line.relOhTh.getD 100 ≤ thresholds.relOhTh.toInt64.toUInt64
  else
    comparisons.below thresholds.probTh line.l2mProb = true ∨
      comparisons.scaledBelow thresholds.probTh line.l3mProb = true

/-- In the relative-overhead mode, the lines for an address pass together. -/
def LinesAgree (address : UInt64) (lines : List (CMPCLine Prob)) : Prop :=
  thresholds.relOhTh ≠ 0 →
    ∀ first ∈ lines, first.addr = address →
      ∀ second ∈ lines, second.addr = address →
        first.Passes comparisons thresholds →
        second.Passes comparisons thresholds

/-- Some line for the address passes. -/
def HasPassing (lines : List (CMPCLine Prob)) (address : UInt64) : Prop :=
  ∃ line ∈ lines, line.addr = address ∧ line.Passes comparisons thresholds

variable {comparisons thresholds} {lines : List (CMPCLine Prob)}
  {address : UInt64}

theorem LinesAgree.tail {line : CMPCLine Prob}
    (agree : LinesAgree comparisons thresholds address (line :: lines)) :
    LinesAgree comparisons thresholds address lines :=
  fun isMode first isFirst ofFirst second isSecond =>
    agree isMode first (List.mem_cons_of_mem _ isFirst) ofFirst second
      (List.mem_cons_of_mem _ isSecond)

/-- The lines for an address agree in any order and among others. -/
theorem LinesAgree.congr {others changed : List (CMPCLine Prob)}
    (agree : LinesAgree comparisons thresholds address lines)
    (isPerm : (lines ++ others).Perm changed)
    (elsewhere : ∀ line ∈ others, line.addr ≠ address) :
    LinesAgree comparisons thresholds address changed := by
  have isOld : ∀ line ∈ changed, line.addr = address → line ∈ lines :=
    fun line isLine isAddress =>
      (List.mem_append.mp (isPerm.mem_iff.mpr isLine)).resolve_right
        fun isOther => elsewhere line isOther isAddress
  intro isMode first isFirst ofFirst second isSecond ofSecond
  exact agree isMode first (isOld first isFirst ofFirst) ofFirst second
    (isOld second isSecond ofSecond) ofSecond

theorem hasPassing_cons {line : CMPCLine Prob} :
    HasPassing comparisons thresholds (line :: lines) address ↔
      line.addr = address ∧ line.Passes comparisons thresholds ∨
        HasPassing comparisons thresholds lines address := by
  rw [HasPassing, List.exists_mem_cons_iff]
  rfl

/-- The loop looks for a line that passes. -/
theorem checkEntries_iff
    (agree : LinesAgree comparisons thresholds address lines) :
    checkEntries comparisons thresholds address (lines.map (·.entry)) = true ↔
      HasPassing comparisons thresholds lines address := by
  induction lines with
  | nil => simp [checkEntries, HasPassing]
  | cons line lines inductionHypothesis =>
      rw [List.map_cons, checkEntries, hasPassing_cons]
      have isRest := inductionHypothesis agree.tail
      rw [show line.entry.addr = line.addr from rfl]
      by_cases isAddress : line.addr = address
      · rw [if_neg (not_not.mpr isAddress)]
        by_cases isMode : thresholds.relOhTh ≠ 0
        · -- The line decides; another one for the address would agree.
          rw [if_pos isMode]
          have isPassing : line.entry.isWithinOverhead thresholds = true ↔
              line.Passes comparisons thresholds := by
            rw [CMPCLine.Passes, if_pos isMode]
            exact decide_eq_true_iff
          by_cases passes : line.Passes comparisons thresholds
          · rw [if_pos (isPassing.mpr passes)]
            exact iff_of_true rfl (Or.inl ⟨isAddress, passes⟩)
          · rw [if_neg (mt isPassing.mp passes)]
            refine iff_of_false Bool.false_ne_true ?_
            rintro (⟨_, isPassed⟩ | ⟨other, isOther, sameAddress, isPassed⟩)
            · exact passes isPassed
            · exact passes (agree isMode other
                (List.mem_cons_of_mem _ isOther) sameAddress line
                List.mem_cons_self isAddress isPassed)
        · rw [if_neg isMode, CMPCLine.Passes, if_neg isMode, ← isRest]
          simp only [CMPCLine.entry, isAddress, true_and]
          cases comparisons.below thresholds.probTh line.l2mProb with
          | true => simp
          | false =>
              cases comparisons.scaledBelow thresholds.probTh
                line.l3mProb with
              | true => simp
              | false => simp
      · rw [if_pos isAddress, isRest]
        simp [isAddress]

/-- The lines for an address are the same in any order and among others. -/
theorem hasPassing_congr {others changed : List (CMPCLine Prob)}
    (isPerm : (lines ++ others).Perm changed)
    (elsewhere : ∀ line ∈ others, line.addr ≠ address) :
    HasPassing comparisons thresholds changed address ↔
      HasPassing comparisons thresholds lines address := by
  constructor
  · rintro ⟨line, isLine, isAddress, passes⟩
    rcases List.mem_append.mp (isPerm.mem_iff.mpr isLine) with isOld | isOther
    · exact ⟨line, isOld, isAddress, passes⟩
    · exact absurd isAddress (elsewhere line isOther)
  · rintro ⟨line, isLine, isAddress, passes⟩
    exact ⟨line, isPerm.mem_iff.mp (List.mem_append_left _ isLine), isAddress,
      passes⟩

/--
An address is marked when and only when some line for it passes, whatever its
object; the order of the lines does not matter, nor do lines for other
addresses.
-/
theorem checkCMPCList_iff (address : UInt64)
    (agree : LinesAgree comparisons thresholds address lines) :
    (checkCMPCList comparisons thresholds (setCMPC lines) address = true ↔
        ∃ line ∈ lines, line.addr = address ∧
          line.Passes comparisons thresholds) ∧
      ∀ others changed, (lines ++ others).Perm changed →
        (∀ line ∈ others, line.addr ≠ address) →
        checkCMPCList comparisons thresholds (setCMPC changed) address =
          checkCMPCList comparisons thresholds (setCMPC lines) address := by
  refine ⟨checkEntries_iff agree, ?_⟩
  intro others changed isPerm elsewhere
  rw [Bool.eq_iff_iff]
  calc checkCMPCList comparisons thresholds (setCMPC changed) address = true
      ↔ HasPassing comparisons thresholds changed address :=
        checkEntries_iff (agree.congr isPerm elsewhere)
    _ ↔ HasPassing comparisons thresholds lines address :=
        hasPassing_congr isPerm elsewhere
    _ ↔ checkCMPCList comparisons thresholds (setCMPC lines) address = true :=
        (checkEntries_iff agree).symm

/-- Comparisons of rational numbers -/
def exactComparisons : Comparisons Rat where
  below threshold prob := threshold.toInt < prob
  scaledBelow threshold prob := (threshold.toInt * 2 / 5 : Rat) < prob

/-- Two lines for an address of the binary, and one of a library -/
def missList : List (CMPCLine Rat) :=
  [⟨"ptrchase", 0x11a4, 80, 10, some 3⟩, ⟨"libc.so.6", 0x8f20, 90, 50, none⟩,
    ⟨"ptrchase", 0x11a4, 20, 10, some 5⟩]

/-- In the relative-overhead mode both lines for the address pass. -/
theorem checkCMPCList_missList :
    checkCMPCList exactComparisons ⟨75, 5⟩ (setCMPC missList) 0x11a4 = true ↔
      ∃ line ∈ missList, line.addr = 0x11a4 ∧
        line.Passes exactComparisons ⟨75, 5⟩ := by
  have agree : LinesAgree exactComparisons ⟨75, 5⟩ 0x11a4 missList := by
    intro isMode _ _ _ second isSecond ofSecond _
    rw [CMPCLine.Passes, if_pos isMode]
    revert second
    decide +kernel
  exact (checkCMPCList_iff 0x11a4 agree).1

/-- An address of the library is marked in the binary. -/
theorem missList_marks_library :
    ¬(checkCMPCList exactComparisons ⟨75, 0⟩ (setCMPC missList) 0x8f20 =
          true ↔
        ∃ line ∈ missList, line.symbolName = "ptrchase" ∧
          line.addr = 0x8f20 ∧ line.Passes exactComparisons ⟨75, 0⟩) := by
  intro isIff
  obtain ⟨line, isLine, isName, isAddress, _⟩ :=
    isIff.mp (by decide +kernel)
  simp only [missList, List.mem_cons, List.not_mem_nil, or_false] at isLine
  rcases isLine with rfl | rfl | rfl
  · exact absurd isAddress (by decide)
  · exact absurd isName (by decide)
  · exact absurd isAddress (by decide)

end Msh.BinaryContext
