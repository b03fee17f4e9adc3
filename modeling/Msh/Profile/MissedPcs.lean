import Mathlib.Algebra.Order.BigOperators.Group.List
import Mathlib.Algebra.Order.Ring.Nat
import Mathlib.Data.List.Induction
import Mathlib.Data.List.Sort

/-!
# The program counters with the most misses

`llc_missed_pcs_rfile.py` takes program counters with the largest percentages
until these sum to 70.  For each of the sorted percentages it goes through all
program counters and takes those with this percentage.
-/

namespace Msh.MissedPcs

/-- An entry of `percent` and of `pc_list`; percentages that are not positive
are not read. -/
structure MissedPc where
  percent : Nat
  pc : String
  positive : 0 < percent
  deriving DecidableEq

/-- `sum_percent`, and the entries that have been written out -/
structure Selection where
  sumPercent : Nat
  written : List MissedPc

/-- `sorted(percent, reverse=True)` -/
def sortedPercent (missed : List MissedPc) : List Nat :=
  (missed.map (·.percent)).mergeSort fun first second => second ≤ first

/-- The body of the inner loop -/
def select (percent : Nat) (selection : Selection) (entry : MissedPc) :
    Selection :=
  if entry.percent = percent ∧ selection.sumPercent < 70 then
    ⟨selection.sumPercent + entry.percent, selection.written ++ [entry]⟩
  else selection

/-- The inner loop -/
def selectPercent (missed : List MissedPc) (selection : Selection)
    (percent : Nat) : Selection :=
  missed.foldl (select percent) selection

/-- The entries that are written out, in order -/
def selectPcs (missed : List MissedPc) : List MissedPc :=
  ((sortedPercent missed).foldl (selectPercent missed) ⟨0, []⟩).written

/-- What the selection is for -/
structure Covers (missed written : List MissedPc) : Prop where
  distinct : (written.map (·.pc)).Nodup
  largest : ∀ entry ∈ written, ∀ other ∈ missed, other ∉ written →
    other.percent ≤ entry.percent
  covers : 70 ≤ (written.map (·.percent)).sum ∨
    ∀ entry ∈ missed, entry ∈ written

/-- The sum of the percentages from one on -/
def sumFrom (missed : List MissedPc) (percent : Nat) : Nat :=
  ((missed.filter fun entry => percent ≤ entry.percent).map (·.percent)).sum

variable {missed : List MissedPc} {percent : Nat} {front back : List Nat}
  {selection : Selection}

/-! ## Sorted percentages -/

theorem sortedPercent_perm :
    (sortedPercent missed).Perm (missed.map (·.percent)) :=
  List.mergeSort_perm _ _

theorem sortedPercent_pairwise :
    (sortedPercent missed).Pairwise fun first second => second ≤ first := by
  have sorted : (sortedPercent missed).Pairwise
      fun first second => decide (second ≤ first) = true := by
    apply List.pairwise_mergeSort
    · intro first second third isFirst isSecond
      simp only [decide_eq_true_eq] at isFirst isSecond ⊢
      omega
    · intro first second
      simp only [Bool.or_eq_true, decide_eq_true_eq]
      omega
  exact sorted.imp fun isLe => of_decide_eq_true isLe

theorem mem_sortedPercent {entry : MissedPc} (isMissed : entry ∈ missed) :
    entry.percent ∈ sortedPercent missed :=
  sortedPercent_perm.mem_iff.mpr (List.mem_map_of_mem isMissed)

/-- A percentage that occurs twice is sorted behind itself. -/
theorem split_of_twice {percents : List Nat}
    (twice : 1 < percents.count percent) :
    ∃ front back, percents = front ++ percent :: back ∧ percent ∈ front := by
  obtain ⟨first, rest, rfl⟩ := List.append_of_mem
    (List.count_pos_iff.mp (Nat.zero_lt_of_lt twice))
  by_cases isBefore : percent ∈ first
  · exact ⟨first, rest, rfl, isBefore⟩
  · rw [List.count_append, List.count_cons_self,
      List.count_eq_zero.mpr isBefore] at twice
    have isAfter : 0 < rest.count percent := by omega
    obtain ⟨middle, last, rfl⟩ :=
      List.append_of_mem (List.count_pos_iff.mp isAfter)
    exact ⟨first ++ percent :: middle, last, by simp, by simp⟩

/-! ## One pass and all passes -/

/-- A pass takes entries with its percentage until the sum is reached. -/
theorem selectPercent_eq :
    ∃ taken rest, missed.filter (·.percent = percent) = taken ++ rest ∧
      selectPercent missed selection percent =
        ⟨selection.sumPercent + (taken.map (·.percent)).sum,
          selection.written ++ taken⟩ ∧
      (rest ≠ [] → 70 ≤ selection.sumPercent + (taken.map (·.percent)).sum) ∧
      (70 ≤ selection.sumPercent → taken = []) := by
  rw [selectPercent]
  induction missed generalizing selection with
  | nil => exact ⟨[], [], rfl, by simp, by simp, fun _ => rfl⟩
  | cons entry missed inductionHypothesis =>
      rw [List.foldl_cons]
      by_cases isPercent : entry.percent = percent
      · rw [List.filter_cons_of_pos (by simpa using isPercent)]
        by_cases isLess : selection.sumPercent < 70
        · rw [select, if_pos ⟨isPercent, isLess⟩]
          obtain ⟨taken, rest, isSplit, result, stops, _⟩ :=
            @inductionHypothesis ⟨selection.sumPercent + entry.percent,
              selection.written ++ [entry]⟩
          refine ⟨entry :: taken, rest, by rw [isSplit]; rfl, ?_, ?_, ?_⟩
          · rw [result]
            simp [Nat.add_assoc]
          · intro hasRest
            have reached := stops hasRest
            dsimp only at reached
            rw [List.map_cons, List.sum_cons]
            omega
          · omega
        · rw [select, if_neg (fun both => isLess both.2)]
          obtain ⟨taken, rest, isSplit, result, stops, nothing⟩ :=
            @inductionHypothesis selection
          have isNil := nothing (Nat.le_of_not_lt isLess)
          subst isNil
          refine ⟨[], entry :: missed.filter (·.percent = percent), rfl, result,
            ?_, fun _ => rfl⟩
          intro _
          exact (Nat.le_of_not_lt isLess).trans (Nat.le_add_right _ _)
      · rw [List.filter_cons_of_neg (by simpa using isPercent), select,
          if_neg (fun both => isPercent both.1)]
        exact inductionHypothesis

/-- What has been written after the passes for some percentages -/
structure Reached (missed : List MissedPc) (front : List Nat)
    (selection : Selection) : Prop where
  sum_eq : selection.sumPercent = (selection.written.map (·.percent)).sum
  written_mem : ∀ entry ∈ selection.written,
    entry ∈ missed ∧ entry.percent ∈ front
  all_written : selection.sumPercent < 70 →
    ∀ entry ∈ missed, entry.percent ∈ front → entry ∈ selection.written

theorem reached_nil : Reached missed [] ⟨0, []⟩ :=
  ⟨rfl, nofun, fun _ _ _ isFront => absurd isFront List.not_mem_nil⟩

theorem Reached.selectPercent (reached : Reached missed front selection)
    (percent : Nat) :
    Reached missed (front ++ [percent])
      (selectPercent missed selection percent) := by
  obtain ⟨taken, rest, isSplit, result, stops, _⟩ :=
    @selectPercent_eq missed percent selection
  have mem_taken (entry : MissedPc) (isTaken : entry ∈ taken) :
      entry ∈ missed ∧ entry.percent = percent := by
    have isFiltered : entry ∈ missed.filter (·.percent = percent) := by
      rw [isSplit]
      exact List.mem_append_left _ isTaken
    simpa using List.mem_filter.mp isFiltered
  rw [result]
  constructor
  · dsimp only
    rw [reached.sum_eq, List.map_append, List.sum_append]
  · intro entry isWritten
    rcases List.mem_append.mp isWritten with wasWritten | isTaken
    · obtain ⟨isMissed, isFront⟩ := reached.written_mem entry wasWritten
      exact ⟨isMissed, List.mem_append_left _ isFront⟩
    · obtain ⟨isMissed, rfl⟩ := mem_taken entry isTaken
      exact ⟨isMissed, List.mem_append_right _ (List.mem_singleton_self _)⟩
  · intro isLess entry isMissed isFront
    dsimp only at isLess
    rcases List.mem_append.mp isFront with wasFront | isPercent
    · exact List.mem_append_left _
        (reached.all_written (by omega) entry isMissed wasFront)
    · have noRest : rest = [] := by
        by_contra hasRest
        have isReached := stops hasRest
        omega
      have isFiltered : entry ∈ missed.filter (·.percent = percent) :=
        List.mem_filter.mpr
          ⟨isMissed, by simpa using List.mem_singleton.mp isPercent⟩
      rw [isSplit, noRest, List.append_nil] at isFiltered
      exact List.mem_append_right _ isFiltered

theorem reached_foldl :
    Reached missed front (front.foldl (selectPercent missed) ⟨0, []⟩) := by
  induction front using List.reverseRecOn with
  | nil => exact reached_nil
  | append_singleton front percent inductionHypothesis =>
      rw [List.foldl_append]
      exact inductionHypothesis.selectPercent percent

/-- What has been written stays. -/
theorem written_isPrefix (percents : List Nat) (selection : Selection) :
    selection.written <+:
      (percents.foldl (selectPercent missed) selection).written := by
  induction percents generalizing selection with
  | nil => exact List.prefix_rfl
  | cons percent percents inductionHypothesis =>
      obtain ⟨taken, _, _, result, _, _⟩ :=
        @selectPercent_eq missed percent selection
      have isPrefix := inductionHypothesis
        (selectPercent missed selection percent)
      rw [result] at isPrefix
      rw [List.foldl_cons, result]
      exact (List.prefix_append _ _).trans isPrefix

/-! ## Repeated percentages -/

/-- Different entries of a part of the program counters sum to at most the
percentages of that part. -/
theorem sum_le_sumFrom {written : List MissedPc} (distinct : written.Nodup)
    (isFrom : ∀ entry ∈ written, entry ∈ missed ∧ percent ≤ entry.percent) :
    (written.map (·.percent)).sum ≤ sumFrom missed percent := by
  have isSubset : written ⊆ missed.filter fun entry =>
      percent ≤ entry.percent := by
    intro entry isWritten
    obtain ⟨isMissed, isLe⟩ := isFrom entry isWritten
    exact List.mem_filter.mpr ⟨isMissed, by simpa using isLe⟩
  obtain ⟨part, isPerm, isSublist⟩ := List.subperm_of_subset distinct isSubset
  calc (written.map (·.percent)).sum
      = (part.map (·.percent)).sum := ((isPerm.map _).sum_eq).symm
    _ ≤ sumFrom missed percent :=
      (isSublist.map _).sum_le_sum fun _ _ => Nat.zero_le _

/-- All entries of a part sum to at least the percentages of that part. -/
theorem sumFrom_le_sum {written : List MissedPc} (distinct : missed.Nodup)
    (hasAll : ∀ entry ∈ missed, percent ≤ entry.percent → entry ∈ written) :
    sumFrom missed percent ≤ (written.map (·.percent)).sum := by
  have isSubset : (missed.filter fun entry => percent ≤ entry.percent) ⊆
      written := by
    intro entry isFiltered
    obtain ⟨isMissed, isLe⟩ := List.mem_filter.mp isFiltered
    exact hasAll entry isMissed (by simpa using isLe)
  obtain ⟨part, isPerm, isSublist⟩ :=
    List.subperm_of_subset (distinct.filter _) isSubset
  calc sumFrom missed percent
      = (part.map (·.percent)).sum := ((isPerm.map _).sum_eq).symm
    _ ≤ (written.map (·.percent)).sum :=
      (isSublist.map _).sum_le_sum fun _ _ => Nat.zero_le _

/-- In front of a percentage stand the ones that are not smaller. -/
theorem le_of_front (isSorted : sortedPercent missed = front ++ percent :: back)
    {value : Nat} (isFront : value ∈ front) : percent ≤ value := by
  have sorted := @sortedPercent_pairwise missed
  rw [isSorted, List.pairwise_append] at sorted
  exact sorted.2.2 value isFront percent List.mem_cons_self

theorem mem_front_of_lt
    (isSorted : sortedPercent missed = front ++ percent :: back)
    {entry : MissedPc} (isMissed : entry ∈ missed)
    (isLarger : percent < entry.percent) : entry.percent ∈ front := by
  have isMem := mem_sortedPercent isMissed
  have sorted := @sortedPercent_pairwise missed
  rw [isSorted] at isMem sorted
  rcases List.mem_append.mp isMem with isFront | isBack
  · exact isFront
  · rcases List.mem_cons.mp isBack with isSame | isBack
    · omega
    · have isLe := (List.pairwise_cons.mp
        (List.pairwise_append.mp sorted).2.1).1 _ isBack
      omega

/-- The sum has been reached by the time a percentage is used again. -/
def ReachesBeforeRepeat (missed : List MissedPc) : Prop :=
  ∀ value, 1 < (missed.map (·.percent)).count value →
    70 ≤ sumFrom missed value

/-- What the passes preserve when the sum is reached before every repeat -/
structure Chosen (missed : List MissedPc) (selection : Selection) : Prop where
  nodup : selection.written.Nodup
  largest : ∀ entry ∈ selection.written, ∀ other ∈ missed,
    other ∉ selection.written → other.percent ≤ entry.percent

theorem Chosen.selectPercent (distinct : missed.Nodup)
    (reaches : ReachesBeforeRepeat missed)
    (isSorted : sortedPercent missed = front ++ percent :: back)
    (reached : Reached missed front selection)
    (chosen : Chosen missed selection) :
    Chosen missed (selectPercent missed selection percent) := by
  obtain ⟨taken, rest, isSplit, result, _, nothing⟩ :=
    @selectPercent_eq missed percent selection
  rw [result]
  by_cases isLess : selection.sumPercent < 70
  · have mem_taken (entry : MissedPc) (isTaken : entry ∈ taken) :
        entry.percent = percent := by
      have isFiltered : entry ∈ missed.filter (·.percent = percent) := by
        rw [isSplit]
        exact List.mem_append_left _ isTaken
      simpa using (List.mem_filter.mp isFiltered).2
    have notFront : percent ∉ front := by
      intro isFront
      have isTwice : 1 < (missed.map (·.percent)).count percent := by
        rw [← (@sortedPercent_perm missed).count_eq, isSorted,
          List.count_append, List.count_cons_self]
        have isPositive := List.count_pos_iff.mpr isFront
        omega
      have isReached := reaches percent isTwice
      have isAll := @sumFrom_le_sum missed percent _ distinct
        fun entry isMissed isLe => reached.all_written isLess entry isMissed
          (by
            rcases Nat.eq_or_lt_of_le isLe with rfl | isLarger
            · exact isFront
            · exact mem_front_of_lt isSorted isMissed isLarger)
      have sum_eq := reached.sum_eq
      omega
    constructor
    · refine List.nodup_append.mpr ⟨chosen.nodup, ?_, ?_⟩
      · have isNodup := distinct.filter (·.percent = percent)
        rw [isSplit] at isNodup
        exact isNodup.of_append_left
      · rintro entry isWritten _ isTaken rfl
        have isFront := (reached.written_mem entry isWritten).2
        rw [mem_taken entry isTaken] at isFront
        exact notFront isFront
    · intro entry isWritten other isMissed notWritten
      have notBefore : other ∉ selection.written := fun wasWritten =>
        notWritten (List.mem_append_left _ wasWritten)
      rcases List.mem_append.mp isWritten with wasWritten | isTaken
      · exact chosen.largest entry wasWritten other isMissed notBefore
      · rw [mem_taken entry isTaken]
        by_contra isLarger
        exact notBefore (reached.all_written isLess other isMissed
          (mem_front_of_lt isSorted isMissed (Nat.lt_of_not_le isLarger)))
  · rw [nothing (Nat.le_of_not_lt isLess), List.append_nil]
    exact ⟨chosen.nodup, chosen.largest⟩

theorem chosen_foldl (distinct : missed.Nodup)
    (reaches : ReachesBeforeRepeat missed) :
    ∀ front back, sortedPercent missed = front ++ back →
      Chosen missed (front.foldl (selectPercent missed) ⟨0, []⟩) := by
  intro front
  induction front using List.reverseRecOn with
  | nil => exact fun _ _ => ⟨List.nodup_nil, nofun⟩
  | append_singleton front percent inductionHypothesis =>
      intro back isSorted
      rw [List.append_assoc, List.singleton_append] at isSorted
      rw [List.foldl_append]
      exact (inductionHypothesis _ isSorted).selectPercent distinct reaches
        isSorted reached_foldl

/-- A percentage that is used again before the sum is reached has an entry
written twice. -/
theorem not_nodup_of_repeat {value : Nat}
    (isTwice : 1 < (missed.map (·.percent)).count value)
    (isLess : sumFrom missed value < 70) :
    ¬ (selectPcs missed).Nodup := by
  intro distinct
  rw [← (@sortedPercent_perm missed).count_eq] at isTwice
  obtain ⟨front, back, isSorted, isFront⟩ := split_of_twice isTwice
  have reached := @reached_foldl missed front
  generalize isReached :
    front.foldl (selectPercent missed) ⟨0, []⟩ = selection at reached
  obtain ⟨taken, rest, isSplit, result, stops, _⟩ :=
    @selectPercent_eq missed value selection
  have isPrefix := @written_isPrefix missed back
    (selectPercent missed selection value)
  rw [← isReached, ← List.foldl_cons, ← List.foldl_append, ← isSorted,
    isReached, result] at isPrefix
  have isNodup := distinct.sublist isPrefix.sublist
  have isSum := sum_le_sumFrom isNodup.of_append_left
    fun entry isWritten =>
      ⟨(reached.written_mem entry isWritten).1,
        le_of_front isSorted (reached.written_mem entry isWritten).2⟩
  rw [← reached.sum_eq] at isSum
  have isStarted : selection.sumPercent < 70 := by omega
  -- The first entry with this percentage has been written already.
  cases isTaken : taken with
  | nil =>
      have hasRest : rest ≠ [] := by
        rintro rfl
        rw [isTaken, List.append_nil, List.filter_eq_nil_iff] at isSplit
        have isPositive : 0 < (missed.map (·.percent)).count value := by
          rw [← (@sortedPercent_perm missed).count_eq]
          omega
        obtain ⟨entry, isMissed, isValue⟩ :=
          List.mem_map.mp (List.count_pos_iff.mp isPositive)
        exact isSplit entry isMissed (by simpa using isValue)
      have isReached := stops hasRest
      rw [isTaken] at isReached
      simp only [List.map_nil, List.sum_nil] at isReached
      omega
  | cons entry taken =>
      have isFiltered : entry ∈ missed.filter (·.percent = value) := by
        rw [isSplit, isTaken]
        exact List.mem_append_left _ List.mem_cons_self
      obtain ⟨isMissed, isValue⟩ := List.mem_filter.mp isFiltered
      have isWritten := reached.all_written isStarted entry isMissed
        (by rwa [of_decide_eq_true isValue])
      exact (List.nodup_append.mp isNodup).2.2 entry isWritten entry
        (by rw [isTaken]; exact List.mem_cons_self) rfl

/-! ## The written program counters -/

/-- The written program counters are the ones with the most misses when and
only when the sum is reached before a percentage is used again. -/
theorem selectPcs_covers_iff (distinct : (missed.map (·.pc)).Nodup) :
    Covers missed (selectPcs missed) ↔ ReachesBeforeRepeat missed := by
  have isNodup : missed.Nodup := distinct.of_map _
  constructor
  · intro covers value isTwice
    by_contra isLess
    exact not_nodup_of_repeat isTwice (Nat.lt_of_not_le isLess)
      (covers.distinct.of_map _)
  · intro reaches
    have chosen := chosen_foldl isNodup reaches (sortedPercent missed) []
      (List.append_nil _).symm
    have reached := @reached_foldl missed (sortedPercent missed)
    refine ⟨?_, chosen.largest, ?_⟩
    · refine chosen.nodup.map_on fun entry isWritten other isOther isSame => ?_
      exact List.inj_on_of_nodup_map distinct
        (reached.written_mem entry isWritten).1
        (reached.written_mem other isOther).1 isSame
    · rw [selectPcs, ← reached.sum_eq]
      by_cases isLess :
          ((sortedPercent missed).foldl (selectPercent missed)
            ⟨0, []⟩).sumPercent < 70
      · exact Or.inr fun entry isMissed =>
          reached.all_written isLess entry isMissed (mem_sortedPercent isMissed)
      · exact Or.inl (Nat.le_of_not_lt isLess)

/-- Three program counters with different percentages -/
def threeMissed : List MissedPc :=
  [⟨20, "4011d0", by decide⟩, ⟨45, "4011a4", by decide⟩,
    ⟨30, "401203", by decide⟩]

/-- No percentage of the three is used again. -/
theorem threeMissed_covers : Covers threeMissed (selectPcs threeMissed) := by
  apply (selectPcs_covers_iff (by decide)).mpr
  intro value isTwice
  have isNodup : (threeMissed.map (·.percent)).Nodup := by decide
  have isOnce := List.nodup_iff_count_le_one.mp isNodup value
  omega

/-- Two program counters that share a percentage -/
def twoMissed : List MissedPc :=
  [⟨30, "4011a4", by decide⟩, ⟨30, "4011d0", by decide⟩]

/-- The second pass for 30 finds a sum of 60 and writes the first program
counter again. -/
theorem twoMissed_not_covers :
    (twoMissed.map (·.pc)).Nodup ∧
      (selectPcs twoMissed).map (·.pc) = ["4011a4", "4011d0", "4011a4"] ∧
      ¬ Covers twoMissed (selectPcs twoMissed) := by
  have selected : (selectPcs twoMissed).map (·.pc) =
      ["4011a4", "4011d0", "4011a4"] := by
    simp [selectPcs, sortedPercent, twoMissed, selectPercent, select,
      List.mergeSort, List.MergeSort.Internal.splitInTwo]
  refine ⟨by decide, selected, ?_⟩
  intro covers
  have distinct := covers.distinct
  rw [selected] at distinct
  exact absurd distinct (by decide)

end Msh.MissedPcs
