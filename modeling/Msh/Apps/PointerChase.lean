import Mathlib.Data.Fintype.EquivFin
import Mathlib.Data.List.FinRange
import Mathlib.Logic.Equiv.Basic
import Msh.Library.CyclicWalk

/-!
# The pointer chase

The primary workload links the nodes of an array into a random cycle and then
follows the links.  An entry of an array that was allocated and not written
yet, and a link that is `NULL`, are `none`; to use one of them as a position
or an address is not modelled, and the program has no result there.  Positions
are `int`s in `perm`, `cycle` and `cur`: the length comes from `atoi`, so that
it is less than `2^31` and no position is cut off.
-/

namespace Msh

namespace PtrChase

/-- How often the chase goes around the cycle -/
def REPS : Nat := 10

variable {len : Nat} [NeZero len]

/-- One exchange of the shuffle; `rand` is asked once for each position. -/
def shuffleStep (rand : Nat → Nat) (perm : Fin len → Fin len)
    (idx : Fin len) : Fin len → Fin len :=
  let dst_idx := Fin.ofNat len (rand idx)
  let tmp := perm idx
  let perm := Function.update perm idx (perm dst_idx)
  Function.update perm dst_idx tmp

/-- `perm` after the loop of `gen_cycle` that shuffles it -/
def shuffle (len : Nat) [NeZero len] (rand : Nat → Nat) : Fin len → Fin len :=
  (List.finRange len).foldl (shuffleStep rand) fun idx => idx

/-- The loop that writes the cycle, over the indices that are left. -/
def writeCycle (perm : Fin len → Fin len) (out : Fin len → Option (Fin len))
    (indices : List (Fin len)) : Fin len → Option (Fin len) :=
  indices.foldl
    (fun out idx =>
      Function.update out (perm idx)
        (some (perm (Fin.ofNat len (idx.val + 1)))))
    out

/-- `gen_cycle`: what is written to `out` -/
def genCycle (len : Nat) [NeZero len] (rand : Nat → Nat) :
    Fin len → Option (Fin len) :=
  writeCycle (shuffle len rand) (fun _ => none) (List.finRange len)

/-- The `do … while (cur != 0)` loop of `init_run` -/
def linkFrom (cycle : Fin len → Option (Fin len)) :
    Nat → Fin len → (Fin len → Option (Fin len)) →
      Option (Fin len → Option (Fin len))
  | 0, _, _ => none
  | fuel + 1, cur, next => do
      let target ← cycle cur
      let next := Function.update next cur (some target)
      if target ≠ 0 then linkFrom cycle fuel target next else some next

/-- `init_run`: the links of the nodes, along a new cycle -/
def initRun (len : Nat) [NeZero len] (rand : Nat → Nat) (fuel : Nat) :
    Option (Fin len → Option (Fin len)) :=
  linkFrom (genCycle len rand) fuel 0 fun _ => none

/-- `ptrchase_tq`, with the nodes whose link it loads. -/
def ptrchaseTq (next : Fin len → Option (Fin len)) :
    Nat → Option (Fin len) → Option (List (Fin len) × Option (Fin len))
  | 0, cur => some ([], cur)
  | reps + 1, cur => do
      let node ← cur
      let (visited, last) ← ptrchaseTq next reps (next node)
      some (node :: visited, last)

/-- `run`: the links are made and the thread starts at the first node. -/
def run (len : Nat) [NeZero len] (rand : Nat → Nat) (fuel : Nat) :
    Option (List (Fin len) × Option (Fin len)) := do
  let next ← initRun len rand fuel
  ptrchaseTq next (len * REPS) (some 0)

/-! An exchange keeps the array a permutation. -/

theorem shuffleStep_eq
    (rand : Nat → Nat)
    (perm : Fin len → Fin len)
    (idx : Fin len) :
    shuffleStep rand perm idx =
      perm ∘ Equiv.swap (Fin.ofNat len (rand idx)) idx := by
  funext place
  simp only [shuffleStep, Function.comp_apply, Function.update_apply,
    Equiv.swap_apply_def]
  split_ifs <;> rfl

theorem shuffle_injective (rand : Nat → Nat) :
    Function.Injective (shuffle len rand) := by
  have kept :
      ∀ (indices : List (Fin len)) (perm : Fin len → Fin len),
        Function.Injective perm →
          Function.Injective (indices.foldl (shuffleStep rand) perm) := by
    intro indices
    induction indices with
    | nil =>
        intro perm injective
        exact injective
    | cons idx rest inductionHypothesis =>
        intro perm injective
        refine inductionHypothesis _ ?_
        rw [shuffleStep_eq]
        exact injective.comp (Equiv.injective _)
  exact kept _ _ Function.injective_id

/-! The cycle goes around the shuffled order. -/

theorem writeCycle_other
    (perm : Fin len → Fin len)
    (out : Fin len → Option (Fin len))
    (indices : List (Fin len))
    {place : Fin len}
    (other : ∀ idx ∈ indices, perm idx ≠ place) :
    writeCycle perm out indices place = out place := by
  induction indices generalizing out with
  | nil => rfl
  | cons idx rest inductionHypothesis =>
      rw [writeCycle, List.foldl_cons, ← writeCycle,
        inductionHypothesis _ fun later isLater =>
          other later (List.mem_cons_of_mem idx isLater),
        Function.update_of_ne (other idx List.mem_cons_self).symm]

theorem writeCycle_written
    {perm : Fin len → Fin len}
    (injective : Function.Injective perm)
    (out : Fin len → Option (Fin len))
    {indices : List (Fin len)}
    (nodup : indices.Nodup)
    {idx : Fin len}
    (member : idx ∈ indices) :
    writeCycle perm out indices (perm idx) =
      some (perm (Fin.ofNat len (idx.val + 1))) := by
  induction indices generalizing out with
  | nil => exact absurd member List.not_mem_nil
  | cons head rest inductionHypothesis =>
      rw [List.nodup_cons] at nodup
      rw [writeCycle, List.foldl_cons, ← writeCycle]
      rcases List.mem_cons.mp member with isHead | inRest
      · subst head
        have notAgain : ∀ later ∈ rest, perm later ≠ perm idx := by
          intro later isLater same
          exact nodup.1 (injective same ▸ isLater)
        rw [writeCycle_other _ _ _ notAgain, Function.update_self]
      · exact inductionHypothesis _ nodup.2 inRest

/-- The nodes in the order of the cycle, the first node first. -/
theorem genCycle_isWalk (len : Nat) [NeZero len] (rand : Nat → Nat) :
    ∃ walk : CyclicWalk (Fin len) len,
      walk.node 0 = 0 ∧
        ∀ index,
          genCycle len rand (walk.node index) =
            some (walk.node (index + 1)) := by
  have injective : Function.Injective (shuffle len rand) :=
    shuffle_injective rand
  obtain ⟨start, isStart⟩ := Finite.surjective_of_injective injective 0
  have positive : 0 < len := Nat.pos_of_neZero len
  refine
    ⟨{ node := fun index => shuffle len rand (Fin.ofNat len (start.val + index))
       period := fun index => ?_
       injective := fun first isFirst second isSecond same => ?_
       surjective := fun each => ?_ }, ?_, fun index => ?_⟩
  · refine congrArg _ (Fin.ext ?_)
    simp only [Fin.val_ofNat, ← Nat.add_assoc, Nat.add_mod_right]
  · have places := congrArg Fin.val (injective same)
    simp only [Fin.val_ofNat] at places
    have apart := Nat.ModEq.add_left_cancel' start.val places
    rw [Nat.ModEq, Nat.mod_eq_of_lt isFirst, Nat.mod_eq_of_lt isSecond]
      at apart
    exact apart
  · obtain ⟨idx, isIdx⟩ := Finite.surjective_of_injective injective each
    refine ⟨(idx.val + (len - start.val)) % len, Nat.mod_lt _ positive, ?_⟩
    refine (congrArg _ (Fin.ext ?_)).trans isIdx
    have around : start.val + (idx.val + (len - start.val)) =
        idx.val + len := by
      omega
    rw [Fin.val_ofNat, Nat.add_mod_mod, around, Nat.add_mod_right,
      Nat.mod_eq_of_lt idx.isLt]
  · refine (congrArg _ (Fin.ext ?_)).trans isStart
    rw [Fin.val_ofNat, Nat.add_zero, Nat.mod_eq_of_lt start.isLt]
  · rw [genCycle,
      writeCycle_written injective _ (List.nodup_finRange len)
        (List.mem_finRange _)]
    refine congrArg (fun idx => some (shuffle len rand idx)) (Fin.ext ?_)
    simp only [Fin.val_ofNat, Nat.mod_add_mod, Nat.add_assoc]

/-! The links are made along the cycle until it is back at the first node. -/

section LinkFrom

variable {walk : CyclicWalk (Fin len) len}
  {cycle : Fin len → Option (Fin len)}
  (startsAtZero : walk.node 0 = 0)
  (cycleIs :
    ∀ index, cycle (walk.node index) = some (walk.node (index + 1)))
include startsAtZero

theorem node_succ_eq_zero_iff {index : Nat} (inside : index < len) :
    walk.node (index + 1) = 0 ↔ index + 1 = len := by
  rw [← startsAtZero, walk.node_eq_iff (Nat.pos_of_neZero len), Nat.zero_mod]
  constructor
  · intro whole
    rcases Nat.lt_or_ge (index + 1) len with before | atEnd
    · rw [Nat.mod_eq_of_lt before] at whole
      omega
    · omega
  · intro atEnd
    rw [atEnd, Nat.mod_self]

include cycleIs

/-- The links up to the place of the loop are made; the loop makes the
others. -/
theorem linkFrom_links
    {fuel index : Nat}
    {next : Fin len → Option (Fin len)}
    (inside : index < len)
    (enough : len ≤ index + fuel)
    (made :
      ∀ earlier < index,
        next (walk.node earlier) = some (walk.node (earlier + 1))) :
    ∃ links,
      linkFrom cycle fuel (walk.node index) next = some links ∧
        ∀ place < len,
          links (walk.node place) = some (walk.node (place + 1)) := by
  induction fuel generalizing index next with
  | zero => omega
  | succ fuel inductionHypothesis =>
      have madeNow : ∀ earlier < index + 1,
          Function.update next (walk.node index)
              (some (walk.node (index + 1))) (walk.node earlier) =
            some (walk.node (earlier + 1)) := by
        intro earlier isEarlier
        rcases Nat.lt_succ_iff_lt_or_eq.mp isEarlier with before | now
        · have apart : walk.node earlier ≠ walk.node index := by
            intro same
            have := walk.injective earlier (by omega) index inside same
            omega
          rw [Function.update_of_ne apart]
          exact made earlier before
        · rw [now, Function.update_self]
      simp only [linkFrom, cycleIs, Option.bind_eq_bind, Option.bind_some,
        ne_eq, node_succ_eq_zero_iff startsAtZero inside, ite_not]
      split
      · next atEnd =>
          exact ⟨_, rfl, fun place isPlace => madeNow place (atEnd ▸ isPlace)⟩
      · next before =>
          exact inductionHypothesis (by omega) (by omega) madeNow

/-- The loop does not end before it has been at every node. -/
theorem linkFrom_short
    {fuel index : Nat}
    (next : Fin len → Option (Fin len))
    (short : index + fuel < len) :
    linkFrom cycle fuel (walk.node index) next = none := by
  induction fuel generalizing index next with
  | zero => rfl
  | succ fuel inductionHypothesis =>
      have notEnd : index + 1 ≠ len := by
        omega
      simp only [linkFrom, cycleIs, Option.bind_eq_bind, Option.bind_some,
        ne_eq, node_succ_eq_zero_iff startsAtZero (by omega : index < len),
        notEnd, not_false_eq_true, if_true]
      exact inductionHypothesis _ (by omega)

end LinkFrom

omit [NeZero len] in
/-- The chase goes around the links. -/
theorem ptrchaseTq_visits
    {walk : CyclicWalk (Fin len) len}
    {next : Fin len → Option (Fin len)}
    (linked :
      ∀ index, next (walk.node index) = some (walk.node (index + 1)))
    (reps start : Nat) :
    ptrchaseTq next reps (some (walk.node start)) =
      some (walk.visits start reps, some (walk.node (start + reps))) := by
  induction reps generalizing start with
  | zero => rfl
  | succ reps inductionHypothesis =>
      have shifted : start + (reps + 1) = start + 1 + reps := by
        omega
      rw [walk.visits_succ, shifted]
      simp only [ptrchaseTq, Option.bind_eq_bind, Option.bind_some, linked,
        inductionHypothesis]

/-- Whatever the random numbers are, the loop that makes the links goes once
around all of them, and the chase never follows a link that was not made: it
loads every node as often as it should, the nodes of any round are all
different, and it is back at the first node at its end. -/
theorem run_visits
    (rand : Nat → Nat)
    {fuel : Nat}
    (enough : len ≤ fuel) :
    (∀ fewer < len, initRun len rand fewer = none) ∧
      ∃ visited,
        run len rand fuel = some (visited, some 0) ∧
          (∀ node, visited.count node = REPS) ∧
            ∀ skipped, skipped + len ≤ len * REPS →
              ∀ node,
                ((visited.drop skipped).take len).count node = 1 := by
  have positive : 0 < len := Nat.pos_of_neZero len
  obtain ⟨walk, startsAtZero, cycleIs⟩ := genCycle_isWalk len rand
  constructor
  · intro fewer isFewer
    have short : 0 + fewer < len := by
      omega
    have ends := linkFrom_short startsAtZero cycleIs (fun _ => none) short
    rwa [startsAtZero] at ends
  · let nothing : Fin len → Option (Fin len) := fun _ => none
    have noneMade : ∀ earlier < 0,
        nothing (walk.node earlier) = some (walk.node (earlier + 1)) := by
      intro earlier isEarlier
      exact absurd isEarlier (Nat.not_lt_zero earlier)
    obtain ⟨next, isNext, linked⟩ :=
      linkFrom_links startsAtZero cycleIs positive
        (enough.trans_eq (Nat.zero_add fuel).symm) noneMade
    rw [startsAtZero] at isNext
    have linkedAll : ∀ index,
        next (walk.node index) = some (walk.node (index + 1)) := by
      intro index
      rw [← walk.node_mod index, linked _ (Nat.mod_lt _ positive)]
      refine congrArg some ((walk.node_eq_iff positive _ _).mpr ?_)
      rw [Nat.mod_add_mod]
    have chased := ptrchaseTq_visits linkedAll (len * REPS) 0
    have back : walk.node (0 + len * REPS) = 0 := by
      rw [walk.node_add_mul, startsAtZero]
    rw [startsAtZero, back] at chased
    refine ⟨walk.visits 0 (len * REPS), ?_, ?_, ?_⟩
    · rw [run, initRun, isNext]
      exact chased
    · intro node
      exact walk.count_visits_rounds 0 REPS node
    · intro skipped inside node
      rw [walk.take_drop_visits inside]
      exact walk.count_visits_round _ node

theorem run_visits_three :
    (∀ fewer < 3, initRun 3 (fun idx => idx + 2) fewer = none) ∧
      ∃ visited,
        run 3 (fun idx => idx + 2) 4 = some (visited, some 0) ∧
          (∀ node, visited.count node = REPS) ∧
            ∀ skipped, skipped + 3 ≤ 3 * REPS →
              ∀ node,
                ((visited.drop skipped).take 3).count node = 1 :=
  run_visits (fun idx => idx + 2) (by decide)

end PtrChase

end Msh
