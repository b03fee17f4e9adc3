import Msh.Runtime.Ownership

namespace Msh

open Function BoundedSearch SlotAssignment Config

/-!
# Yield links of one thread

`normal_next` of the primary leads to its first scavenger, `normal_next` of a
scavenger back to the primary, and `special_next` from one scavenger to the
next.  On a compact list the last is right when each position links to the
one after it and the last position to the primary; `set_special_next` builds
exactly these links unless the list is full.
-/

namespace PrimaryThreadCtx

/-- Does a position of the list host a scavenger? -/
def Occupied (ctx : PrimaryThreadCtx) (pos : Nat) : Prop :=
  ScavPos pos ∧ ctx.idxList pos ≠ -1

/-- The positions visited from one position on by following `special_next`. -/
inductive Visits (ctx : PrimaryThreadCtx) : Nat → List Nat → Prop where
  | last {pos : Nat} :
      (ctx.ycs pos).specialNext = 0 →
      Visits ctx pos [pos]
  | next {pos nextPos : Nat} {rest : List Nat} :
      nextPos ≠ 0 →
      (ctx.ycs pos).specialNext = (sizeofYieldCtx : Int) * nextPos →
      Visits ctx nextPos rest →
      Visits ctx pos (pos :: rest)

/-- Every yield of the thread's coroutines has a live target. -/
structure LiveTargets (ctx : PrimaryThreadCtx) : Prop where
  primary :
    (∃ pos, ctx.Occupied pos ∧
        (∀ earlier, ctx.Occupied earlier → pos ≤ earlier) ∧
        (ctx.ycs 0).normalNext = (sizeofYieldCtx : Int) * pos) ∨
      (∀ pos, ¬ ctx.Occupied pos) ∧ (ctx.ycs 0).normalNext = 0
  scavenger :
    ∀ pos, ctx.Occupied pos → (ctx.ycs pos).normalNext = 0
  special :
    ∀ pos, ctx.Occupied pos →
      (∃ nextPos, ctx.Occupied nextPos ∧
        (ctx.ycs pos).specialNext = (sizeofYieldCtx : Int) * nextPos) ∨
      (ctx.ycs pos).specialNext = 0
  ring :
    (∃ pos, ctx.Occupied pos) →
      ∃ visited, ctx.Visits 1 visited ∧ visited.Nodup ∧
        ∀ pos, pos ∈ visited ↔ ctx.Occupied pos

/-- Scavengers yield to the primary. -/
def ScavLinks (ctx : PrimaryThreadCtx) : Prop :=
  ∀ pos, ctx.Occupied pos → (ctx.ycs pos).normalNext = 0

/-- The primary yields to the first scavenger. -/
def PrimaryLinked (ctx : PrimaryThreadCtx) (hosted : Nat) : Prop :=
  (ctx.ycs 0).normalNext = if 0 < hosted then (sizeofYieldCtx : Int) else 0

/-- Each scavenger but the last links to the one after it. -/
def LinkedBelow (ctx : PrimaryThreadCtx) (hosted : Nat) : Prop :=
  ∀ pos, 1 ≤ pos → pos < hosted →
    (ctx.ycs pos).specialNext = (sizeofYieldCtx : Int) * (pos + 1 : Nat)

/-- The links form a ring: the last scavenger links to the primary. -/
def Chained (ctx : PrimaryThreadCtx) (hosted : Nat) : Prop :=
  ctx.LinkedBelow hosted ∧
    (1 ≤ hosted → (ctx.ycs hosted).specialNext = 0)

/-- The links of a thread that was robbed: the last one dangles. -/
def Dangling (ctx : PrimaryThreadCtx) (hosted : Nat) : Prop :=
  ctx.LinkedBelow hosted ∧
    (1 ≤ hosted →
      (ctx.ycs hosted).specialNext =
        (sizeofYieldCtx : Int) * (hosted + 1 : Nat))

section Compact

variable {ctx : PrimaryThreadCtx} {hosted : Nat}

theorem occupied_iff
    (compact : Compact ctx.idxList hosted) (pos : Nat) :
    ctx.Occupied pos ↔ 1 ≤ pos ∧ pos ≤ hosted := by
  constructor
  · rintro ⟨isPos, held⟩
    exact ⟨isPos.1, (compact.occupied_iff isPos).mp held⟩
  · rintro ⟨lower, upper⟩
    have isPos : ScavPos pos := ⟨lower, upper.trans compact.bound⟩
    exact ⟨isPos, (compact.occupied_iff isPos).mpr upper⟩

/-- A chain visits the positions in order. -/
theorem Chained.visits
    (chained : ctx.Chained hosted)
    (count : Nat) {pos : Nat} (lower : 1 ≤ pos)
    (last : pos + count = hosted) :
    ctx.Visits pos (List.range' pos (count + 1)) := by
  induction count generalizing pos with
  | zero =>
      have isLast : pos = hosted := last
      subst isLast
      exact .last (chained.2 lower)
  | succ count inductionHypothesis =>
      rw [List.range'_succ]
      exact .next (Nat.succ_ne_zero pos)
        (chained.1 pos lower (by omega))
        (inductionHypothesis (by omega) (by omega))

/-- On a compact list, chained links give every yield a live target. -/
theorem liveTargets_of_chained
    (compact : Compact ctx.idxList hosted)
    (links : ctx.ScavLinks)
    (primary : ctx.PrimaryLinked hosted)
    (chained : ctx.Chained hosted) :
    ctx.LiveTargets where
  primary := by
    unfold PrimaryLinked at primary
    rcases Nat.eq_zero_or_pos hosted with none | some
    · subst none
      refine .inr ⟨?_, primary⟩
      intro pos occupied
      have := (occupied_iff compact pos).mp occupied
      omega
    · rw [if_pos some] at primary
      refine .inl ⟨1, (occupied_iff compact 1).mpr ⟨by omega, some⟩, ?_,
        by rw [primary]; rfl⟩
      intro earlier occupied
      exact occupied.1.1
  scavenger := links
  special := by
    intro pos occupied
    obtain ⟨lower, upper⟩ := (occupied_iff compact pos).mp occupied
    rcases Nat.lt_or_ge pos hosted with below | atLast
    · exact .inl ⟨pos + 1,
        (occupied_iff compact _).mpr ⟨by omega, below⟩,
        chained.1 pos lower below⟩
    · have isLast : pos = hosted := Nat.le_antisymm upper atLast
      subst isLast
      exact .inr (chained.2 lower)
  ring := by
    rintro ⟨pos, occupied⟩
    obtain ⟨lower, upper⟩ := (occupied_iff compact pos).mp occupied
    refine ⟨List.range' 1 (hosted - 1 + 1),
      chained.visits (hosted - 1) (Nat.le_refl 1) (by omega),
      List.nodup_range', ?_⟩
    intro query
    rw [List.mem_range'_1, occupied_iff compact query]
    omega

/-- A last scavenger that links past the list has no live target. -/
theorem not_liveTargets_of_past
    (compact : Compact ctx.idxList hosted) (some : 1 ≤ hosted)
    (past :
      (ctx.ycs hosted).specialNext =
        (sizeofYieldCtx : Int) * (hosted + 1 : Nat)) :
    ¬ ctx.LiveTargets := by
  intro live
  have size : (sizeofYieldCtx : Int) = 20 := rfl
  have last := (occupied_iff compact hosted).mpr ⟨some, Nat.le_refl _⟩
  rw [size] at past
  rcases live.special hosted last with ⟨nextPos, occupied, link⟩ | link
  · have := ((occupied_iff compact nextPos).mp occupied).2
    rw [size, past] at link
    omega
  · rw [past] at link
    omega

/-- A primary that is marked as finished yields nowhere. -/
theorem LiveTargets.running (live : ctx.LiveTargets) :
    (ctx.ycs 0).normalNext ≠ -1 := by
  have size : (sizeofYieldCtx : Int) = 20 := rfl
  rcases live.primary with ⟨pos, _, _, link⟩ | ⟨_, link⟩
  · rw [link, size]
    omega
  · rw [link]
    decide

/-- Without scavengers the primary yields to itself. -/
theorem LiveTargets.primary_of_empty
    (live : ctx.LiveTargets) (empty : Compact ctx.idxList 0) :
    (ctx.ycs 0).normalNext = 0 := by
  rcases live.primary with ⟨pos, occupied, _⟩ | ⟨_, link⟩
  · have := (occupied_iff empty pos).mp occupied
    omega
  · exact link

/-- `set_special_next` at the positions of the list. -/
theorem setSpecialNext_specialNext
    (compact : Compact ctx.idxList hosted)
    {pos : Nat} (isPos : ScavPos pos) (notLast : pos < maxCrtPerThread) :
    (ctx.setSpecialNext.ycs pos).specialNext =
      if pos < hosted then (sizeofYieldCtx : Int) * (pos + 1 : Nat)
      else 0 := by
  have inLoop : 1 ≤ pos ∧ pos < maxCrtPerThread + 1 :=
    ⟨isPos.1, Nat.lt_succ_of_le isPos.2⟩
  have nextPos : ScavPos (pos + 1) := ⟨by omega, notLast⟩
  have differs : pos ≠ maxCrtPerThread := Nat.ne_of_lt notLast
  simp only [setSpecialNext, inLoop, and_self, ↓reduceIte, specialNextAt,
    differs, Tables.tlGetCrtIdxAt_of_le _ nextPos.2]
  by_cases below : pos < hosted
  · have held := compact.occupied nextPos.1 below
    rw [if_neg held, if_pos below, Int.mul_comm]
  · have free := compact.free (by omega : hosted < pos + 1) notLast
    rw [if_pos free, if_neg below]

/-- `set_special_next` chains a compact list that is not full. -/
theorem setSpecialNext_chained
    (compact : Compact ctx.idxList hosted)
    (notFull : hosted < maxCrtPerThread) :
    ctx.setSpecialNext.Chained hosted := by
  constructor
  · intro pos lower below
    rw [setSpecialNext_specialNext compact ⟨lower, by omega⟩ (by omega),
      if_pos below]
  · intro some
    rw [setSpecialNext_specialNext compact ⟨some, by omega⟩ notFull,
      if_neg (Nat.lt_irrefl _)]

/--
In a full list, `set_special_next` reads `scav_num` for the position after the
last and links the last position past the list.
-/
theorem setSpecialNext_full
    (isCount : 0 ≤ ctx.scavNum) :
    (ctx.setSpecialNext.ycs maxCrtPerThread).specialNext =
      (sizeofYieldCtx : Int) * (maxCrtPerThread + 1 : Nat) := by
  have past : ¬ maxCrtPerThread + 1 ≤ maxCrtPerThread := by omega
  have notSentinel : ctx.scavNum ≠ -1 := by omega
  have inLoop :
      1 ≤ maxCrtPerThread ∧ maxCrtPerThread < maxCrtPerThread + 1 := by
    decide
  simp only [setSpecialNext, inLoop, and_self, ↓reduceIte, specialNextAt,
    tlGetCrtIdxAt, if_neg past, if_neg notSentinel]
  rw [Int.mul_comm]

/-- The links of scavengers and primary are not those it writes. -/
theorem setSpecialNext_normalNext (ctx : PrimaryThreadCtx) (pos : Nat) :
    (ctx.setSpecialNext.ycs pos).normalNext =
      (ctx.ycs pos).normalNext := by
  simp only [setSpecialNext]
  split
  · simp only [specialNextAt]
    split <;> split <;> rfl
  · rfl

end Compact

/-- The first slot in use is that of the first scavenger, if there is one. -/
theorem tlNextAvailableCrt_of_compact
    {ctx : PrimaryThreadCtx} {hosted : Nat}
    (compact : Compact ctx.idxList hosted) (links : ctx.ScavLinks)
    (some : 1 ≤ hosted) :
    ctx.tlNextAvailableCrt = 1 := by
  have found :
      findUp 1 maxCrtPerThread
          (fun pos => (ctx.ycs pos).normalNext ≠ -1) = Option.some 1 := by
    rw [findUp_eq_some_iff]
    refine ⟨?_, Nat.le_refl 1, by decide, by omega⟩
    have first := links 1 ((occupied_iff compact 1).mpr ⟨by omega, some⟩)
    simp [first]
  rw [tlNextAvailableCrt, found]
  rfl

/--
`tl_update_next_map` links the primary to its first scavenger.  Without a
scavenger the link is right when no free slot is left linked.
-/
theorem tlUpdateNextMap_primaryLinked
    {ctx : PrimaryThreadCtx} {hosted : Nat}
    (compact : Compact ctx.idxList hosted) (links : ctx.ScavLinks)
    (noneStale : hosted = 0 → ctx.tlNextAvailableCrt = 0)
    (running : (ctx.ycs 0).normalNext ≠ -1) :
    ctx.tlUpdateNextMap.PrimaryLinked hosted := by
  unfold PrimaryLinked tlUpdateNextMap
  rw [if_neg running]
  simp only [updateYc, update_self]
  rcases Nat.eq_zero_or_pos hosted with none | some
  · simp [noneStale none, none]
  · simp [tlNextAvailableCrt_of_compact compact links some, some]

/-- A free slot that is left linked is taken for a scavenger's. -/
theorem tlUpdateNextMap_stale
    {ctx : PrimaryThreadCtx} (stale : ctx.tlNextAvailableCrt ≠ 0)
    (running : (ctx.ycs 0).normalNext ≠ -1) :
    (ctx.tlUpdateNextMap.ycs 0).normalNext ≠ 0 := by
  have size : (sizeofYieldCtx : Int) = 20 := rfl
  rw [tlUpdateNextMap, if_neg running]
  simp only [updateYc, update_self, size]
  omega

/-- The other links are not those it writes. -/
theorem tlUpdateNextMap_ycs
    (ctx : PrimaryThreadCtx) {pos : Nat} (notPrimary : pos ≠ 0) :
    ctx.tlUpdateNextMap.ycs pos = ctx.ycs pos := by
  unfold tlUpdateNextMap
  split
  · rfl
  · simp [updateYc, notPrimary]

theorem tlUpdateNextMap_idxList (ctx : PrimaryThreadCtx) :
    ctx.tlUpdateNextMap.idxList = ctx.idxList := by
  unfold tlUpdateNextMap
  split <;> rfl

theorem tlUpdateNextMap_scavNum (ctx : PrimaryThreadCtx) :
    ctx.tlUpdateNextMap.scavNum = ctx.scavNum := by
  unfold tlUpdateNextMap
  split <;> rfl

theorem tlUpdateNextMap_reallocated (ctx : PrimaryThreadCtx) :
    ctx.tlUpdateNextMap.reallocated = ctx.reallocated := by
  unfold tlUpdateNextMap
  split <;> rfl

/-- It leaves a finished primary alone. -/
theorem tlUpdateNextMap_finished
    {ctx : PrimaryThreadCtx} (finished : (ctx.ycs 0).normalNext = -1) :
    ctx.tlUpdateNextMap = ctx := by
  unfold tlUpdateNextMap
  rw [if_pos finished]

end PrimaryThreadCtx

end Msh
