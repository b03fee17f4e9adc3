import Msh.Runtime.HostedPositions

namespace Msh

open Function BoundedSearch SlotAssignment Config

/-!
# Compact scavenger lists

A list is compact when its scavengers occupy the positions `1, …, hosted`.
On compact lists `push_back_to_list` and `pop_back_from_list` work at the end
of the list, which is what makes the rollback of `realloc_scav` restore it.
`tl_pack_crts` re-establishes compactness position by position.
-/

/-- Positions `1, …, hosted` are occupied and all later ones are free. -/
structure Compact (idxList : Nat → Int) (hosted : Nat) : Prop where
  bound : hosted ≤ maxCrtPerThread
  occupied : ∀ {pos}, 1 ≤ pos → pos ≤ hosted → idxList pos ≠ -1
  free : ∀ {pos}, hosted < pos → pos ≤ maxCrtPerThread → idxList pos = -1

/-- No free position before `limit` is followed by an occupied one. -/
def PackedBelow (idxList : Nat → Int) (limit : Nat) : Prop :=
  ∀ pos later, 1 ≤ pos → pos < limit → pos < later →
    later ≤ maxCrtPerThread → idxList later ≠ -1 → idxList pos ≠ -1

namespace Compact

variable {idxList : Nat → Int} {hosted : Nat}

/-- On positions, being occupied is being at most `hosted`. -/
theorem occupied_iff
    (compact : Compact idxList hosted)
    {pos : Nat} (isPos : ScavPos pos) :
    idxList pos ≠ -1 ↔ pos ≤ hosted := by
  constructor
  · intro held
    by_contra beyond
    exact held (compact.free (Nat.lt_of_not_le beyond) isPos.2)
  · exact compact.occupied isPos.1

/-- `push_back_to_list` appends to a compact list that is not full. -/
theorem firstFree_eq_some
    (compact : Compact idxList hosted)
    (room : hosted < maxCrtPerThread) :
    PrimaryThreadCtx.firstFree idxList = some (hosted + 1) := by
  unfold PrimaryThreadCtx.firstFree
  rw [findUp_eq_some_iff]
  refine ⟨?_, by omega, by omega, ?_⟩
  · simpa using compact.free (Nat.lt_succ_self hosted) room
  · intro earlier lower upper
    simpa using compact.occupied lower (by omega)

/-- `push_back_to_list` finds no place in a full list. -/
theorem firstFree_eq_none
    (compact : Compact idxList maxCrtPerThread) :
    PrimaryThreadCtx.firstFree idxList = none := by
  unfold PrimaryThreadCtx.firstFree
  rw [findUp_eq_none_iff]
  intro pos lower upper
  simpa using compact.occupied lower (by omega)

/-- `pop_back_from_list` takes the last item of a compact list. -/
theorem lastOccupied_eq_some
    (compact : Compact idxList (hosted + 1)) :
    PrimaryThreadCtx.lastOccupied idxList = some (hosted + 1) := by
  unfold PrimaryThreadCtx.lastOccupied
  rw [findDown_eq_some_iff]
  have bound := compact.bound
  refine ⟨?_, by omega, by omega, ?_⟩
  · simpa using
      compact.occupied (Nat.succ_le_succ (Nat.zero_le hosted))
        (Nat.le_refl _)
  · intro later lower upper
    simpa using compact.free lower (by omega)

/-- `pop_back_from_list` takes nothing from an empty list. -/
theorem lastOccupied_eq_none
    (compact : Compact idxList 0) :
    PrimaryThreadCtx.lastOccupied idxList = none := by
  unfold PrimaryThreadCtx.lastOccupied
  rw [findDown_eq_none_iff]
  intro pos lower upper
  simpa using compact.free lower (by omega)

/-- What the first free position says of a compact list. -/
theorem eq_of_firstFree
    {pos : Nat}
    (compact : Compact idxList hosted)
    (room : PrimaryThreadCtx.firstFree idxList = some pos) :
    pos = hosted + 1 ∧ hosted < maxCrtPerThread := by
  rcases Nat.lt_or_ge hosted maxCrtPerThread with notFull | full
  · rw [compact.firstFree_eq_some notFull] at room
    exact ⟨(Option.some.inj room).symm, notFull⟩
  · have isFull := Nat.le_antisymm compact.bound full
    subst isFull
    rw [compact.firstFree_eq_none] at room
    cases room

/-- What the last occupied position says of it. -/
theorem eq_of_lastOccupied
    {pos : Nat}
    (compact : Compact idxList hosted)
    (isLast : PrimaryThreadCtx.lastOccupied idxList = some pos) :
    pos = hosted ∧ 1 ≤ hosted := by
  cases hosted with
  | zero =>
      rw [compact.lastOccupied_eq_none] at isLast
      cases isLast
  | succ hosted =>
      rw [compact.lastOccupied_eq_some] at isLast
      exact ⟨(Option.some.inj isLast).symm, Nat.succ_pos hosted⟩

/-- Appending to a compact list keeps it compact. -/
theorem push
    (compact : Compact idxList hosted)
    (room : hosted < maxCrtPerThread)
    {idx : Int} (notSentinel : idx ≠ -1) :
    Compact (update idxList (hosted + 1) idx) (hosted + 1) where
  bound := room
  occupied := by
    intro pos lower upper
    by_cases isLast : pos = hosted + 1
    · subst pos
      simpa using notSentinel
    · rw [update_of_ne isLast]
      exact compact.occupied lower (by omega)
  free := by
    intro pos lower upper
    rw [update_of_ne (by omega)]
    exact compact.free (by omega) upper

/-- Removing the last item of a compact list keeps it compact. -/
theorem pop
    (compact : Compact idxList (hosted + 1)) :
    Compact (update idxList (hosted + 1) (-1)) hosted where
  bound := Nat.le_of_succ_le compact.bound
  occupied := by
    intro pos lower upper
    rw [update_of_ne (by omega)]
    exact compact.occupied lower (by omega)
  free := by
    intro pos lower upper
    by_cases isLast : pos = hosted + 1
    · subst pos
      simp
    · rw [update_of_ne isLast]
      exact compact.free (by omega) upper

/-- A compact list determines how many scavengers it holds. -/
theorem hosted_unique
    {other : Nat}
    (compact : Compact idxList hosted)
    (otherCompact : Compact idxList other) :
    hosted = other := by
  by_contra different
  rcases Nat.lt_or_gt_of_ne different with less | greater
  · have bound := otherCompact.bound
    exact otherCompact.occupied (by omega : 1 ≤ hosted + 1) (by omega)
      (compact.free (by omega) (by omega))
  · have bound := compact.bound
    exact compact.occupied (by omega : 1 ≤ other + 1) (by omega)
      (otherCompact.free (by omega) (by omega))

/-- Compactness depends on the list's positions only. -/
theorem congr
    {other : Nat → Int}
    (compact : Compact idxList hosted)
    (same : ∀ pos, ScavPos pos → other pos = idxList pos) :
    Compact other hosted where
  bound := compact.bound
  occupied := by
    intro pos lower upper
    rw [same pos ⟨lower, upper.trans compact.bound⟩]
    exact compact.occupied lower upper
  free := by
    intro pos lower upper
    rw [same pos ⟨by omega, upper⟩]
    exact compact.free lower upper

/-- A list without scavengers is compact. -/
theorem of_all_free
    (free : ∀ pos, ScavPos pos → idxList pos = -1) :
    Compact idxList 0 where
  bound := Nat.zero_le _
  occupied := by omega
  free := by
    intro pos lower upper
    exact free pos ⟨lower, upper⟩

/-- `need_more_scav` counts the scavengers of a compact list. -/
theorem hostedCount_eq
    {ctx : PrimaryThreadCtx}
    (compact : Compact ctx.idxList hosted) :
    ctx.hostedCount = hosted := by
  have split :
      List.range' 1 maxCrtPerThread =
        List.range' 1 hosted ++
          List.range' (1 + hosted) (maxCrtPerThread - hosted) := by
    have bound := compact.bound
    rw [List.range'_append_1]
    congr 1
    omega
  unfold PrimaryThreadCtx.hostedCount
  rw [split, List.countP_append]
  have occupiedPart :
      (List.range' 1 hosted).countP
        (fun pos => decide (ctx.idxList pos ≠ -1)) = hosted := by
    rw [List.countP_eq_length.mpr]
    · simp
    · intro pos member
      rw [List.mem_range'_1] at member
      simpa using compact.occupied member.1 (by omega)
  have freePart :
      (List.range' (1 + hosted) (maxCrtPerThread - hosted)).countP
        (fun pos => decide (ctx.idxList pos ≠ -1)) = 0 := by
    rw [List.countP_eq_zero]
    intro pos member
    rw [List.mem_range'_1] at member
    simpa using compact.free (by omega : hosted < pos) (by omega)
  rw [occupiedPart, freePart, Nat.add_zero]

/-- A list whose last scavenger is at the position of their count. -/
theorem of_lastOccupied
    {ctx : PrimaryThreadCtx}
    (isLast :
      PrimaryThreadCtx.lastOccupied ctx.idxList = some hosted)
    (count : ctx.hostedCount = hosted) :
    Compact ctx.idxList hosted := by
  obtain ⟨isPos, held, free⟩ :=
    PrimaryThreadCtx.lastOccupied_eq_some_iff.mp isLast
  have before :=
    (PrimaryThreadCtx.hostedCount_eq_last_iff isLast).mp count
  refine ⟨isPos.2, ?_, fun {later} => free later⟩
  intro pos lower upper
  by_cases isHosted : pos = hosted
  · rw [isHosted]
    exact held
  · exact before pos lower (by omega)

/-- `tl_find_unfinished_crt` finds nothing only in a list without scavengers. -/
theorem of_tlFindUnfinishedCrt
    {ctx : PrimaryThreadCtx} (noneLeft : ctx.tlFindUnfinishedCrt = 0) :
    Compact ctx.idxList 0 := by
  refine .of_all_free ?_
  intro pos isPos
  unfold PrimaryThreadCtx.tlFindUnfinishedCrt at noneLeft
  cases searched :
      findUp 1 maxCrtPerThread fun pos => ctx.tlGetCrtIdxAt pos ≠ -1 with
  | some found =>
      rw [searched] at noneLeft
      have lower := (findUp_eq_some_iff.mp searched).2.1
      simp only [Option.getD_some] at noneLeft
      omega
  | none =>
      have upper := isPos.2
      have free := findUp_eq_none_iff.mp searched pos isPos.1 (by omega)
      rw [Tables.tlGetCrtIdxAt_of_le ctx upper] at free
      simpa using free

/-- A thread without scavengers has a compact list. -/
theorem of_hostedCount
    {ctx : PrimaryThreadCtx} (noneHosted : ctx.hostedCount = 0) :
    Compact ctx.idxList 0 := by
  rw [← PrimaryThreadCtx.lastOccupied_eq_none_iff] at noneHosted
  unfold PrimaryThreadCtx.lastOccupied at noneHosted
  rw [findDown_eq_none_iff] at noneHosted
  refine .of_all_free fun pos isPos => ?_
  have upper := isPos.2
  simpa using noneHosted pos isPos.1 (by omega)

end Compact

namespace PackedBelow

variable {idxList : Nat → Int} {limit : Nat}

theorem start (idxList : Nat → Int) : PackedBelow idxList 1 := by
  intro pos later lower upper
  omega

theorem mono
    {lower : Nat}
    (packed : PackedBelow idxList limit)
    (atMost : lower ≤ limit) :
    PackedBelow idxList lower := by
  intro pos later isPos below
  exact packed pos later isPos (by omega)

/-- Once every position has been handled, the list is compact. -/
theorem compact
    (packed : PackedBelow idxList (maxCrtPerThread + 1)) :
    ∃ hosted, Compact idxList hosted := by
  cases last : PrimaryThreadCtx.lastOccupied idxList with
  | none =>
      unfold PrimaryThreadCtx.lastOccupied at last
      rw [findDown_eq_none_iff] at last
      refine ⟨0, .of_all_free ?_⟩
      intro pos isPos
      have upper := isPos.2
      simpa using last pos isPos.1 (by omega)
  | some hosted =>
      unfold PrimaryThreadCtx.lastOccupied at last
      rw [findDown_eq_some_iff] at last
      obtain ⟨held, lower, upper, greatest⟩ := last
      have heldLast : idxList hosted ≠ -1 := by simpa using held
      refine ⟨hosted, by omega, ?_, ?_⟩
      · intro pos posLower posUpper
        by_cases isLast : pos = hosted
        · rw [isLast]
          exact heldLast
        · exact packed pos hosted posLower (by omega) (by omega)
            (by omega) heldLast
      · intro pos posLower posUpper
        simpa using greatest pos posLower (by omega)

/-- A position that is occupied needs no packing. -/
theorem succ_of_occupied
    (packed : PackedBelow idxList limit)
    (occupied : idxList limit ≠ -1) :
    PackedBelow idxList (limit + 1) := by
  intro pos later lower upper before inRange held
  by_cases isLimit : pos = limit
  · rw [isLimit]
    exact occupied
  · exact packed pos later lower (by omega) before inRange held

/-- A free position with nothing after it needs no packing. -/
theorem succ_of_last
    (packed : PackedBelow idxList limit)
    (nothingLater :
      ∀ later, limit < later → later ≤ maxCrtPerThread →
        idxList later = -1) :
    PackedBelow idxList (limit + 1) := by
  intro pos later lower upper before inRange held
  by_cases isLimit : pos = limit
  · subst pos
    exact absurd (nothingLater later before inRange) held
  · exact packed pos later lower (by omega) before inRange held

/-- Filling a free position from a later one packs it. -/
theorem succ_of_moved
    {after : Nat → Int} {fromPos : Nat} {idx : Int}
    (packed : PackedBelow idxList limit)
    (later : limit < fromPos)
    (inRange : fromPos ≤ maxCrtPerThread)
    (held : idxList fromPos ≠ -1)
    (notSentinel : idx ≠ -1)
    (moved :
      ∀ pos, after pos =
        if pos = limit then idx
        else if pos = fromPos then -1 else idxList pos) :
    PackedBelow after (limit + 1) := by
  intro pos query lower upper before queryRange queryHeld
  rw [moved] at queryHeld ⊢
  by_cases isLimit : pos = limit
  · simpa [isLimit] using notSentinel
  · have notFrom : pos ≠ fromPos := by omega
    rw [if_neg isLimit, if_neg notFrom]
    exact packed pos fromPos lower (by omega) (by omega) inRange held

end PackedBelow

namespace Tables

/--
One iteration of `tl_pack_crts`: nothing when the position is occupied or no
later one is, otherwise a swap with the next occupied position.
-/
theorem packAt_cases
    (tables : Tables) (tid : Tid) {pos : Nat} (isPos : ScavPos pos) :
    (tables.packAt tid pos = tables ∧
        ((tables.primTable tid).idxList pos ≠ -1 ∨
          ∀ later, pos < later → later ≤ maxCrtPerThread →
            (tables.primTable tid).idxList later = -1)) ∨
      ∃ nextPos,
        tables.packAt tid pos = tables.tlSwapCrts tid pos nextPos ∧
          (tables.primTable tid).idxList pos = -1 ∧
          pos < nextPos ∧ nextPos ≤ maxCrtPerThread ∧
          (tables.primTable tid).idxList nextPos ≠ -1 ∧
          ∀ between, pos < between → between < nextPos →
            (tables.primTable tid).idxList between = -1 := by
  simp only [packAt, tlGetCrtIdxAt_of_le _ isPos.2]
  split
  · next free =>
      split
      · next nextPos found =>
          unfold PrimaryThreadCtx.nextOccupied at found
          rw [findUp_eq_some_iff] at found
          obtain ⟨held, lower, upper, least⟩ := found
          have inRange : nextPos ≤ maxCrtPerThread := by
            have := isPos.2
            omega
          rw [tlGetCrtIdxAt_of_le _ inRange] at held
          refine .inr ⟨nextPos, rfl, free, lower, inRange, by simpa using held,
            ?_⟩
          intro between afterPos beforeNext
          have searched := least between afterPos beforeNext
          rw [tlGetCrtIdxAt_of_le _ (by omega)] at searched
          simpa using searched
      · next notFound =>
          unfold PrimaryThreadCtx.nextOccupied at notFound
          rw [findUp_eq_none_iff] at notFound
          refine .inl ⟨rfl, .inr ?_⟩
          intro later lower upper
          have searched := notFound later (by omega) (by omega)
          rw [tlGetCrtIdxAt_of_le _ upper] at searched
          simpa using searched
  · next held =>
      exact .inl ⟨rfl, .inl held⟩

/-- One iteration of `tl_pack_crts` moves one scavenger at most. -/
theorem packAt_slotStep
    (tables : Tables) (tid : Tid) {pos : Nat} (isPos : ScavPos pos) :
    SlotStep tables (tables.packAt tid pos) := by
  rcases tables.packAt_cases tid isPos with
    ⟨unchanged, _⟩ | ⟨nextPos, swaps, free, later, inRange, held, _⟩
  · rw [unchanged]
    exact .of_sameSlots (.refl tables)
  · rw [swaps]
    have occupied :=
      occupant_eq_some_iff.mpr ⟨⟨by omega, inRange⟩, rfl, held⟩
    exact .moved (tlSwapCrts_moved tid isPos free occupied) occupied isPos
      free

/-- Packing keeps ownership. -/
theorem packAt_owned
    {tables : Tables} (owned : tables.Owned)
    (tid : Tid) {pos : Nat} (isPos : ScavPos pos) :
    (tables.packAt tid pos).Owned := by
  rcases tables.packAt_cases tid isPos with
    ⟨unchanged, _⟩ | ⟨nextPos, swaps, free, later, inRange, held, _⟩
  · rw [unchanged]
    exact owned
  · rw [swaps]
    have occupied :=
      occupant_eq_some_iff.mpr ⟨⟨by omega, inRange⟩, rfl, held⟩
    exact owned.moved (tlSwapCrts_moved tid isPos free occupied)
      (tlSwapCrts_movedMarks tid owned isPos free occupied) occupied isPos
      free

/-- One iteration of `tl_pack_crts` packs its position. -/
theorem packAt_packedBelow
    {tables : Tables} (tid : Tid) {pos : Nat} (isPos : ScavPos pos)
    (packed : PackedBelow (tables.primTable tid).idxList pos) :
    PackedBelow ((tables.packAt tid pos).primTable tid).idxList
      (pos + 1) := by
  rcases tables.packAt_cases tid isPos with
    ⟨unchanged, occupied | nothingLater⟩ |
      ⟨nextPos, swaps, free, later, inRange, held, _⟩
  · rw [unchanged]
    exact packed.succ_of_occupied occupied
  · rw [unchanged]
    exact packed.succ_of_last nothingLater
  · rw [swaps]
    have occupied :=
      occupant_eq_some_iff.mpr ⟨⟨by omega, inRange⟩, rfl, held⟩
    have change := tlSwapCrts_moved tid isPos free occupied
    refine packed.succ_of_moved later inRange held held ?_
    intro query
    simpa using change.idxList tid query

end Tables

end Msh
