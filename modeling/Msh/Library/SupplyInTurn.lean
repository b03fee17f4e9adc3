import Mathlib.Algebra.BigOperators.Group.List.Basic
import Mathlib.Algebra.GroupWithZero.Nat
import Mathlib.Order.Defs.LinearOrder
import Mathlib.Order.Lattice

/-!
# Serving a demand from suppliers in turn

A consumer with a demand and limited room asks one supplier after the other.
Each is asked for the whole demand, whatever the earlier ones gave, and the
consumer stops when it has enough.  It never has too little, and it has too
much exactly when a supplier gives more than was still missing.
-/

namespace SupplyInTurn

/-- What the suppliers give until the demand is met. -/
def supplied (demand : Nat) : List Nat → Nat → Nat → Nat
  | [], _, _ => 0
  | amount :: rest, room, taken =>
      let count := min demand (min amount room)
      if demand ≤ taken + count then count
      else count + supplied demand rest (room - count) (taken + count)

/-- What the suppliers give, and then a reserve that gives no more than asked. -/
def suppliedWith (demand reserve : Nat) (amounts : List Nat)
    (room : Nat) : Nat :=
  let given := supplied demand amounts room 0
  given + min (demand - given) (min reserve (room - given))

/--
No supplier gives more than is missing after those before it: it is the first
one to give something, or it has no more, or nothing is missing.
-/
def Fits (demand : Nat) : List Nat → Nat → Prop
  | [], _ => True
  | amount :: rest, before =>
      (before = 0 ∨ demand ≤ before ∨ before + amount ≤ demand) ∧
        Fits demand rest (before + amount)

variable {demand room taken reserve : Nat} {amounts : List Nat}

/-- Without missing anything every supplier fits. -/
theorem Fits.of_le (met : demand ≤ taken) : Fits demand amounts taken := by
  induction amounts generalizing taken with
  | nil =>
      trivial
  | cons amount rest inductionHypothesis =>
      exact ⟨.inr (.inl met),
        inductionHypothesis (Nat.le_add_right_of_le met)⟩

/-- The suppliers do not give more than they have. -/
theorem supplied_le_sum :
    supplied demand amounts room taken ≤ amounts.sum := by
  induction amounts generalizing room taken with
  | nil =>
      exact Nat.le_refl 0
  | cons amount rest inductionHypothesis =>
      simp only [supplied, List.sum_cons]
      split
      · omega
      · refine Nat.add_le_add ?_ inductionHypothesis
        omega

/-- With no more room than is missing, everything is taken that has room. -/
theorem supplied_of_little_room
    (little : taken + room ≤ demand) (missing : taken < demand) :
    supplied demand amounts room taken = min amounts.sum room := by
  induction amounts generalizing room taken with
  | nil =>
      simp [supplied]
  | cons amount rest inductionHypothesis =>
      simp only [supplied, List.sum_cons]
      split
      · omega
      · rw [inductionHypothesis (by omega) (by omega)]
        omega

/-- With more room than is missing, there is never too little. -/
theorem le_supplied
    (much : demand < taken + room) (missing : taken < demand) :
    min demand (taken + amounts.sum) ≤
      taken + supplied demand amounts room taken := by
  induction amounts generalizing room taken with
  | nil =>
      exact Nat.min_le_right _ _
  | cons amount rest inductionHypothesis =>
      simp only [supplied, List.sum_cons]
      split
      · omega
      · next notMet =>
          -- the supplier has less than is missing and gives all of it
          have all : min demand (min amount room) = amount := by omega
          rw [all] at notMet ⊢
          have restEnough :=
            @inductionHypothesis (room - amount) (taken + amount)
              (by omega) (by omega)
          omega

/-- With more room than is missing, there is too much unless all fit. -/
theorem supplied_le_iff
    (much : demand < taken + room) (missing : taken < demand) :
    taken + supplied demand amounts room taken ≤ demand ↔
      Fits demand amounts taken := by
  induction amounts generalizing room taken with
  | nil =>
      simp only [supplied, Fits, iff_true]
      omega
  | cons amount rest inductionHypothesis =>
      simp only [supplied, Fits]
      split
      · next met =>
          have restFits : Fits demand rest (taken + amount) :=
            .of_le (by omega)
          rw [and_iff_left restFits]
          omega
      · next notMet =>
          have all : min demand (min amount room) = amount := by omega
          rw [all] at notMet ⊢
          rw [← Nat.add_assoc,
            @inductionHypothesis (room - amount) (taken + amount)
              (by omega) (by omega)]
          have fits : taken = 0 ∨ demand ≤ taken ∨
              taken + amount ≤ demand := by omega
          rw [and_iff_right fits]

/--
In an ordered list of suppliers, those before one are the smaller ones, so that
whether all fit can be said of each by itself.
-/
theorem fits_map_iff {Supplier : Type} [LinearOrder Supplier]
    {amount : Supplier → Nat} {suppliers : List Supplier}
    (ordered : suppliers.Pairwise (· < ·)) {before : Nat} :
    Fits demand (suppliers.map amount) before ↔
      ∀ supplier ∈ suppliers,
        let earlier :=
          before +
            ((suppliers.filter (· < supplier)).map amount).sum
        earlier = 0 ∨ demand ≤ earlier ∨
          earlier + amount supplier ≤ demand := by
  induction suppliers generalizing before with
  | nil =>
      simp [Fits]
  | cons first rest inductionHypothesis =>
      obtain ⟨isFirst, restOrdered⟩ := List.pairwise_cons.mp ordered
      have noneBefore : (first :: rest).filter (· < first) = [] := by
        rw [List.filter_eq_nil_iff]
        intro other member
        rcases List.mem_cons.mp member with rfl | inRest
        · simp
        · simpa using Std.le_of_lt (isFirst other inRest)
      have firstBefore : ∀ other ∈ rest,
          (first :: rest).filter (· < other) =
            first :: rest.filter (· < other) := by
        intro other inRest
        exact List.filter_cons_of_pos (by simpa using isFirst other inRest)
      rw [List.map_cons, Fits, inductionHypothesis restOrdered,
        List.forall_mem_cons, noneBefore]
      refine and_congr Iff.rfl (forall₂_congr fun other inRest => ?_)
      rw [firstBefore other inRest, List.map_cons, List.sum_cons,
        Nat.add_assoc]

/--
With a reserve, the demand is met as far as the suppliers, the reserve and the
room allow, and not exceeded, exactly when there is no more room than demand
or all suppliers fit.
-/
theorem suppliedWith_eq_iff (positive : 0 < demand) :
    suppliedWith demand reserve amounts room =
        min demand (min (amounts.sum + reserve) room) ↔
      room ≤ demand ∨ Fits demand amounts 0 := by
  unfold suppliedWith
  simp only
  have bounded :=
    @supplied_le_sum demand room 0 amounts
  rcases Nat.lt_or_ge demand room with much | little
  · have enough := @le_supplied demand room 0 amounts (by omega) positive
    have exact_ := @supplied_le_iff demand room 0 amounts (by omega) positive
    rw [← exact_]
    omega
  · have all :=
      @supplied_of_little_room demand room 0 amounts (by omega) positive
    omega

end SupplyInTurn
