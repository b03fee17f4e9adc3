import Msh.Bolt.YieldCondition

/-!
# Yields by counting

A counter that starts at zero passes over as many executions of the latch as
its threshold says and yields at the next one, so that from one yield to the
next there is one execution more than the threshold.  In memory the threshold
is what sixteen bits keep of it.
-/

namespace Msh

open X86 SampledRuns ByteMemory

/-! ## Counting up is counting down -/

/-- The executions that a threshold lets pass -/
def passed {width : Nat} (threshold : BitVec width) : Nat :=
  threshold.toInt.toNat

/-- A count, and what is left up to the threshold -/
def Counts {width : Nat} (threshold count : BitVec width) (left : Nat) :
    Prop :=
  left ≤ passed threshold ∧ count.toInt = passed threshold - left

/-- One step of a count that cannot reach the end of its word -/
theorem Counts.step {width : Nat} {threshold count : BitVec width}
    {left : Nat} (counts : Counts threshold count left)
    (wide : 1 < width) (inside : threshold.toInt < 2 ^ (width - 1) - 1) :
    (countUp threshold count).2 =
        (countdown (passed threshold) left).2 ∧
      Counts threshold (countUp threshold count).1
        (countdown (passed threshold) left).1 := by
  obtain ⟨notMore, isCount⟩ := counts
  have atLeastTwo : (2 : Int) ≤ 2 ^ (width - 1) := by
    have power := Nat.pow_le_pow_right (by decide : 0 < 2)
      (by omega : 1 ≤ width - 1)
    exact_mod_cast power
  have isPassed : (passed threshold : Int) = max threshold.toInt 0 :=
    Int.toNat_eq_max threshold.toInt
  have isOne : BitVec.toInt (1 : BitVec width) = 1 :=
    BitVec.toInt_one wide
  have isZero : BitVec.toInt (0 : BitVec width) = 0 := BitVec.toInt_zero
  have next : (count + 1).toInt = count.toInt + 1 := by
    rw [BitVec.toInt_add_of_not_saddOverflow, isOne]
    simp only [BitVec.saddOverflow, isOne, Bool.or_eq_true,
      decide_eq_true_eq]
    omega
  have passes : (count + 1).sle threshold = true ↔ 0 < left := by
    rw [BitVec.sle_iff_toInt_le, next]
    omega
  cases left with
  | zero =>
      have stops : (count + 1).sle threshold = false := by
        rw [Bool.eq_false_iff, Ne, passes]
        omega
      simp only [countUp, stops, Bool.false_eq_true, ↓reduceIte, countdown,
        Counts, isZero, true_and]
      omega
  | succ left =>
      have goesOn : (count + 1).sle threshold = true :=
        passes.mpr (Nat.succ_pos left)
      simp only [countUp, goesOn, ↓reduceIte, countdown, Counts, next,
        true_and]
      omega

section Counting

variable {State : Type} {width : Nat} {threshold : BitVec width}
  {counter : State → BitVec width} {fires : State → Bool}
  {next : State → State → Prop}

/-- A run whose counter counts up in its word -/
structure CountsUp (threshold : BitVec width)
    (counter : State → BitVec width) (fires : State → Bool)
    (next : State → State → Prop) : Prop where
  fires : ∀ state, fires state = (countUp threshold (counter state)).2
  next :
    ∀ state later, next state later →
      counter later = (countUp threshold (counter state)).1

/-- A count from zero that cannot reach the end of its word -/
theorem CountsUp.eq_countdown
    (countsUp : CountsUp threshold counter fires next) (wide : 1 < width)
    (inside : threshold.toInt < 2 ^ (width - 1) - 1)
    {state : State} {yields : List Bool} (run : Run fires next state yields)
    (isZero : counter state = 0) :
    yields =
      decisions (countdown (passed threshold)) (passed threshold)
        yields.length := by
  have related :
      ∀ state left, Counts threshold (counter state) left →
        (countUp threshold (counter state)).2 =
            (countdown (passed threshold) left).2 ∧
          Counts threshold (countUp threshold (counter state)).1
            (countdown (passed threshold) left).1 :=
    fun state left counts => counts.step wide inside
  refine run.eq_decisions
    (fun state left counts =>
      (countsUp.fires state).trans (related state left counts).1)
    (fun state _ left counts follows => ?_)
    (?_ : Counts threshold (counter state) (passed threshold))
  · rw [countsUp.next _ _ follows]
    exact (related state left counts).2
  · refine ⟨Nat.le_refl _, ?_⟩
    rw [isZero, Int.sub_self]
    exact BitVec.toInt_zero

/-- A count up to the greatest number of its word never goes beyond it. -/
theorem CountsUp.eq_replicate
    (countsUp : CountsUp threshold counter fires next)
    (isMax : threshold.toInt = 2 ^ (width - 1) - 1)
    {state : State} {yields : List Bool}
    (run : Run fires next state yields) :
    yields = List.replicate yields.length false := by
  have passes (count : BitVec width) : count.sle threshold = true := by
    have range := @BitVec.toInt_lt _ count
    rw [BitVec.sle_iff_toInt_le, isMax]
    omega
  induction run with
  | nil state =>
      rfl
  | last state =>
      rw [countsUp.fires, countUp, if_pos (passes _)]
      rfl
  | cons follows rest inductionHypothesis =>
      rw [List.length_cons, List.replicate_succ, ← inductionHypothesis,
        countsUp.fires, countUp, if_pos (passes _)]

end Counting

namespace RegisterCounter

variable {Label : Type} (form : RegisterCounter Label)

/-- The threshold as the comparison sees it -/
abbrev threshold : BitVec 64 :=
  (BitVec.ofInt 32 form.iterTh).signExtend 64

theorem countsUp :
    CountsUp form.threshold form.counter form.condition.yields
      form.Next where
  fires state := (Prod.mk.inj (form.latch_eq state)).2
  next state _ follows :=
    follows.trans (Prod.mk.inj (form.latch_eq state)).1

/-- A threshold that is an `int` -/
theorem toInt_threshold (positive : 1 ≤ form.iterTh)
    (isInt : form.iterTh < 2 ^ 31) :
    form.threshold.toInt = form.iterTh := by
  rw [BitVec.toInt_signExtend_of_le (by decide),
    BitVec.toInt_ofInt_eq_self (by decide) (by omega) (by omega)]

/-- The executions of a latch whose counter is in a register -/
theorem eq_countdown (positive : 1 ≤ form.iterTh)
    (isInt : form.iterTh < 2 ^ 31) {state : State} {yields : List Bool}
    (run : form.Executions state yields) (isZero : form.counter state = 0) :
    yields =
      decisions (countdown form.iterTh.toNat) form.iterTh.toNat
        yields.length := by
  have isThreshold := form.toInt_threshold positive isInt
  have counted :=
    form.countsUp.eq_countdown (by decide)
      (by rw [isThreshold]; omega) run isZero
  rwa [passed, isThreshold] at counted

/-- There are runs of any length. -/
theorem exists_run (state : State) (length : Nat) :
    ∃ yields, form.Executions state yields ∧ yields.length = length := by
  refine Run.exists_of_length (fun state => ?_) state length
  exact ⟨(form.condition.latch state).1, rfl⟩

end RegisterCounter

/-! ## The distance that the register counter keeps -/

/-- The threshold of `performLoopAnalysis`, an `int` -/
def iterThOf (maxYieldDistance avgLatency : Nat) : Int :=
  let iterTh := (BitVec.ofNat 32 (maxYieldDistance / avgLatency)).toInt
  if iterTh = 0 then 1 else iterTh

theorem iterThOf_eq {maxYieldDistance avgLatency : Nat}
    (positive : 0 < avgLatency) (notMore : avgLatency ≤ maxYieldDistance)
    (isInt : maxYieldDistance < 2 ^ 31) :
    iterThOf maxYieldDistance avgLatency =
      (maxYieldDistance / avgLatency : Nat) := by
  have atLeastOne : 1 ≤ maxYieldDistance / avgLatency :=
    (Nat.one_le_div_iff positive).mpr notMore
  have atMost := Nat.div_le_self maxYieldDistance avgLatency
  have isNat :
      (BitVec.ofNat 32 (maxYieldDistance / avgLatency)).toInt =
        (maxYieldDistance / avgLatency : Nat) := by
    rw [BitVec.toInt_eq_toNat_of_lt] <;> rw [BitVec.toNat_ofNat] <;>
      rw [Nat.mod_eq_of_lt (by omega)]
    omega
  rw [iterThOf, isNat, if_neg (by omega)]

namespace RegisterCounter

variable {Label : Type}

/--
From the entry of the loop to the first yield, and from one yield to the next,
there are not more executions of the latch than the distance allows.
-/
def BoundedDistance (form : RegisterCounter Label)
    (maxYieldDistance avgLatency : Nat) : Prop :=
  ∀ state yields, form.counter state = 0 → form.Executions state yields →
    ∀ executions ∈ gaps yields,
      executions * avgLatency ≤ maxYieldDistance

section Distance

variable {maxYieldDistance avgLatency : Nat}
  (positive : 0 < avgLatency) (notMore : avgLatency ≤ maxYieldDistance)
  (isInt : maxYieldDistance < 2 ^ 31)
include positive notMore isInt

/-- The executions of a latch with the threshold for a distance -/
theorem eq_countdown_distance {target : Label} {reg : Gpr} {state : State}
    {yields : List Bool}
    (run :
      Executions ⟨iterThOf maxYieldDistance avgLatency, target, reg⟩ state
        yields)
    (isZero : state.gpr reg = 0) :
    yields =
      decisions (countdown (maxYieldDistance / avgLatency))
        (maxYieldDistance / avgLatency) yields.length := by
  have isTh := iterThOf_eq positive notMore isInt
  have atLeastOne : 1 ≤ maxYieldDistance / avgLatency :=
    (Nat.one_le_div_iff positive).mpr notMore
  have atMost := Nat.div_le_self maxYieldDistance avgLatency
  have inRange :
      1 ≤ iterThOf maxYieldDistance avgLatency ∧
        iterThOf maxYieldDistance avgLatency < 2 ^ 31 := by
    omega
  have counted := eq_countdown _ inRange.1 inRange.2 run isZero
  simp only [isTh, Int.toNat_natCast] at counted
  exact counted

/-- In every run, every yield comes one execution too late. -/
theorem distance_exceeded {target : Label} {reg : Gpr} {state : State}
    {yields : List Bool}
    (run :
      Executions ⟨iterThOf maxYieldDistance avgLatency, target, reg⟩ state
        yields)
    (isZero : state.gpr reg = 0) {executions : Nat}
    (member : executions ∈ gaps yields) :
    maxYieldDistance < executions * avgLatency := by
  rw [eq_countdown_distance positive notMore isInt run isZero] at member
  have isNext : executions = maxYieldDistance / avgLatency + 1 := by
    have either := mem_gaps_countdown member
    omega
  rw [isNext, Nat.mul_comm]
  exact Nat.lt_mul_div_succ maxYieldDistance positive

/-- The distance is kept for no threshold. -/
theorem not_boundedDistance (target : Label) (reg : Gpr) :
    ¬ BoundedDistance
        ⟨iterThOf maxYieldDistance avgLatency, target, reg⟩
        maxYieldDistance avgLatency := by
  intro bounded
  obtain ⟨yields, run, length⟩ :=
    exists_run ⟨iterThOf maxYieldDistance avgLatency, target, reg⟩
      ⟨fun _ => 0, fun _ => 0, 0, 0, 0, fun _ => 0⟩
      (maxYieldDistance / avgLatency + 1)
  have member : maxYieldDistance / avgLatency + 1 ∈ gaps yields := by
    rw [eq_countdown_distance positive notMore isInt run rfl, length,
      decisions_countdown, gaps, gapsFrom_replicate, Nat.zero_add]
    exact List.mem_singleton_self _
  have within := bounded _ yields rfl run _ member
  have beyond :=
    distance_exceeded positive notMore isInt run rfl member
  omega

end Distance

/-- Half the distance is a latency for which every third latch yields. -/
theorem not_boundedDistance_ten :
    ¬ BoundedDistance (⟨iterThOf 10 5, (), .r11⟩ : RegisterCounter Unit)
        10 5 :=
  not_boundedDistance (by decide) (by decide) (by decide) () .r11

/-- At distance 10 and latency 5 the first yield comes after 15. -/
theorem distance_ten_exceeded :
    ∃ state yields, state.gpr .r11 = 0 ∧
      Executions (⟨iterThOf 10 5, (), .r11⟩ : RegisterCounter Unit) state
        yields ∧
      gaps yields = [3] ∧ ¬ 3 * 5 ≤ 10 := by
  obtain ⟨yields, run, length⟩ :=
    exists_run (⟨iterThOf 10 5, (), .r11⟩ : RegisterCounter Unit)
      ⟨fun _ => 0, fun _ => 0, 0, 0, 0, fun _ => 0⟩ 3
  have counted :=
    eq_countdown_distance (by decide) (by decide) (by decide) run rfl
  rw [length] at counted
  refine ⟨_, yields, rfl, run, ?_, by decide⟩
  rw [counted]
  rfl

end RegisterCounter

/-! ## The counter in memory -/

namespace MemoryCounter

variable {Label : Type} (form : MemoryCounter Label)

/-- The threshold as the comparison sees it -/
abbrev threshold : BitVec 16 :=
  BitVec.ofInt 16 form.iterTh

theorem countsUp :
    CountsUp form.threshold form.counter form.condition.yields
      form.Next where
  fires state := (Prod.mk.inj (form.latch_eq state)).2
  next state _ follows :=
    follows.trans (Prod.mk.inj (form.latch_eq state)).1

/-- A counter can have any value. -/
theorem exists_counter (value : BitVec 16) :
    ∃ state, form.counter state = value := by
  let memory := store 2 (fun _ => 0) 0 value
  let area : BitVec 64 := load 8 memory form.loopCounterLoc.toNat
  -- the segment makes up for what the symbol holds
  let state : State :=
    ⟨fun _ => 0, fun _ => 0, 0, 0, -(area + BitVec.ofNat 64 (2 * form.idx)),
      memory⟩
  refine ⟨state, ?_⟩
  have isPlace : form.address state = 0 := by
    have sum :
        -(area + BitVec.ofNat 64 (2 * form.idx)) + area +
            BitVec.ofNat 64 (2 * form.idx) =
          0 := by
      rw [BitVec.add_assoc, BitVec.add_comm, BitVec.add_neg_eq_sub]
      exact BitVec.sub_self _
    exact congrArg BitVec.toNat sum
  rw [counter, isPlace]
  exact @load_store 2 _ 0 value

/-- There are runs of any length. -/
theorem exists_run (state : State) (length : Nat) :
    ∃ yields, form.Executions state yields ∧ yields.length = length :=
  Run.exists_of_length (fun _ => form.exists_counter _) state length

end MemoryCounter

section Agree

variable {Label : Type} (memory : MemoryCounter Label)
  (register : RegisterCounter Label)

/-- From zero, both counters yield at the same executions. -/
def YieldAlike : Prop :=
  ∀ state yields other otherYields,
    memory.counter state = 0 → memory.Executions state yields →
      register.counter other = 0 →
        register.Executions other otherYields →
          yields.length = otherYields.length → yields = otherYields

variable {memory register}

theorem not_yieldAlike {yields otherYields : Nat → List Bool}
    {length : Nat}
    (ofMemory :
      ∀ state fired, memory.counter state = 0 →
        memory.Executions state fired → fired = yields fired.length)
    (ofRegister :
      ∀ state fired, register.counter state = 0 →
        register.Executions state fired →
          fired = otherYields fired.length)
    (differ : yields length ≠ otherYields length) :
    ¬ YieldAlike memory register := by
  intro alike
  obtain ⟨state, isZero⟩ := memory.exists_counter 0
  obtain ⟨fired, run, isLength⟩ := memory.exists_run state length
  obtain ⟨otherFired, otherRun, isOtherLength⟩ :=
    register.exists_run ⟨fun _ => 0, fun _ => 0, 0, 0, 0, fun _ => 0⟩ length
  have same :=
    alike state fired _ otherFired isZero run rfl otherRun
      (isLength.trans isOtherLength.symm)
  apply differ
  calc yields length
      = yields fired.length := by rw [isLength]
    _ = otherFired := by rw [← ofMemory state fired isZero run, same]
    _ = otherYields length := by
      rw [← isOtherLength]
      exact ofRegister _ otherFired rfl otherRun

/-- They yield alike exactly if the threshold is below 32767. -/
theorem yieldAlike_iff {optsIterTh : Int}
    (sameTh : memory.iterTh = register.iterTh)
    (positive : 1 ≤ register.iterTh)
    (recorded : register.iterTh < optsIterTh) (isInt : optsIterTh < 2 ^ 31) :
    YieldAlike memory register ↔ register.iterTh < 32767 := by
  have ofRegister (state : State) (fired : List Bool)
      (isZero : register.counter state = 0)
      (run : register.Executions state fired) :=
    register.eq_countdown positive (recorded.trans isInt) run isZero
  have ofMemory (inside : memory.threshold.toInt < 32767) (state : State)
      (fired : List Bool) (isZero : memory.counter state = 0)
      (run : memory.Executions state fired) :=
    memory.countsUp.eq_countdown (by decide) inside run isZero
  constructor
  · intro alike
    by_contra tooLarge
    have atMost := @BitVec.toInt_lt _ memory.threshold
    by_cases isMax : memory.threshold.toInt = 32767
    · -- the counter in memory never gets beyond its threshold
      refine @not_yieldAlike _ memory register
        (fun length => List.replicate length false) _
        (register.iterTh.toNat + 1)
        (fun state fired _ run => memory.countsUp.eq_replicate isMax run)
        ofRegister ?_ alike
      rw [decisions_countdown]
      intro same
      have member : true ∈
          List.replicate (register.iterTh.toNat + 1) false := by
        rw [same]
        simp
      cases List.eq_of_mem_replicate member
    · have inside : memory.threshold.toInt < 32767 := by omega
      have less : passed memory.threshold < register.iterTh.toNat := by
        rw [passed]
        omega
      exact not_yieldAlike (ofMemory inside) ofRegister (countdown_lt less)
        alike
  · intro small state fired other otherFired isZero run otherIsZero
      otherRun sameLength
    have isThreshold : memory.threshold.toInt = register.iterTh := by
      rw [MemoryCounter.threshold, sameTh,
        BitVec.toInt_ofInt_eq_self (by decide) (by omega) (by omega)]
    rw [ofMemory (by omega) state fired isZero run,
      ofRegister other otherFired otherIsZero otherRun, sameLength, passed,
      isThreshold]

end Agree

/-- Up to a threshold of ten they yield alike. -/
theorem yieldAlike_ten :
    YieldAlike (⟨10, (), 4096, .r11, 0⟩ : MemoryCounter Unit)
      (⟨10, (), .r11⟩ : RegisterCounter Unit) :=
  (yieldAlike_iff rfl (by decide) (by decide : (10 : Int) < 99999999)
    (by decide)).mpr (by decide)

/-- At a threshold of 32767, the counter in memory never yields. -/
theorem not_yieldAlike_32767 :
    ¬ YieldAlike (⟨32767, (), 4096, .r11, 0⟩ : MemoryCounter Unit)
      (⟨32767, (), .r11⟩ : RegisterCounter Unit) := by
  refine @not_yieldAlike Unit ⟨32767, (), 4096, .r11, 0⟩
    ⟨32767, (), .r11⟩ (fun length => List.replicate length false)
    (fun length => decisions (countdown 32767) 32767 length) 32768 ?_ ?_ ?_
  · intro state fired _ run
    exact (MemoryCounter.countsUp _).eq_replicate (by decide) run
  · intro state fired isZero run
    exact RegisterCounter.eq_countdown _ (by decide) (by decide) run isZero
  · intro same
    have member : true ∈ List.replicate 32768 false := by
      rw [same, decisions_countdown 32767]
      exact List.mem_append_right _ (List.mem_singleton_self _)
    cases List.eq_of_mem_replicate member

end Msh
