import Mathlib.Data.List.Basic

/-!
# Layout of C structures

The members of a structure are placed one after the other, each at the next
multiple of its alignment; the elements of an array are placed at multiples of
their size.  Extents placed this way do not share a byte, and writing one
leaves what is read from another.
-/

namespace StructLayout

/-- A range of bytes. -/
@[ext] structure Extent where
  start : Nat
  width : Nat
  deriving DecidableEq, Repr

/-- A member of a structure. -/
structure Member where
  size : Nat
  align : Nat
  deriving DecidableEq, Repr

/-- The next multiple of an alignment. -/
def alignUp (pos align : Nat) : Nat :=
  (pos + align - 1) / align * align

/-- Place the members of a structure from a byte on. -/
def place (pos : Nat) : List Member → List Extent
  | [] => []
  | member :: rest =>
      ⟨alignUp pos member.align, member.size⟩ ::
        place (alignUp pos member.align + member.size) rest

/-- An element of an array that starts at `base`. -/
def element (base stride index width : Nat) : Extent :=
  ⟨base + stride * index, width⟩

namespace Extent

/-- The address after the last byte. -/
def stop (extent : Extent) : Nat :=
  extent.start + extent.width

/-- Two ranges share no byte. -/
def Apart (first second : Extent) : Prop :=
  first.stop ≤ second.start ∨ second.stop ≤ first.start

instance (first second : Extent) : Decidable (first.Apart second) :=
  inferInstanceAs (Decidable (_ ∨ _))

/-- One range lies in another. -/
def Within (inner outer : Extent) : Prop :=
  outer.start ≤ inner.start ∧ inner.stop ≤ outer.stop

/-- The same range of a structure that starts at a later byte. -/
def shift (extent : Extent) (base : Nat) : Extent :=
  ⟨base + extent.start, extent.width⟩

/-- The bytes of a range. -/
def read {Byte : Type} (memory : Nat → Byte) (extent : Extent) :
    List Byte :=
  (List.range extent.width).map fun index =>
    memory (extent.start + index)

/-- Replace the bytes of a range. -/
def write {Byte : Type} (memory : Nat → Byte) (extent : Extent)
    (value : Nat → Byte) : Nat → Byte :=
  fun address =>
    if extent.start ≤ address ∧ address < extent.stop then
      value (address - extent.start)
    else memory address

variable {first second outer : Extent}

/-- Parts of ranges that are apart are apart. -/
theorem Apart.mono
    {firstPart secondPart : Extent}
    (apart : first.Apart second)
    (inFirst : firstPart.Within first)
    (inSecond : secondPart.Within second) :
    firstPart.Apart secondPart := by
  rcases apart with before | after
  · exact .inl (Nat.le_trans (Nat.le_trans inFirst.2 before) inSecond.1)
  · exact .inr (Nat.le_trans (Nat.le_trans inSecond.2 after) inFirst.1)

theorem Apart.shift (apart : first.Apart second) (base : Nat) :
    (first.shift base).Apart (second.shift base) := by
  unfold Apart stop Extent.shift at *
  show base + first.start + first.width ≤ base + second.start ∨
    base + second.start + second.width ≤ base + first.start
  omega

theorem Within.refl (extent : Extent) : extent.Within extent :=
  ⟨Nat.le_refl _, Nat.le_refl _⟩

theorem Within.trans {inner middle : Extent}
    (inMiddle : inner.Within middle) (inOuter : middle.Within outer) :
    inner.Within outer :=
  ⟨Nat.le_trans inOuter.1 inMiddle.1, Nat.le_trans inMiddle.2 inOuter.2⟩

/-- A range that lies in a structure lies in it wherever it starts. -/
theorem Within.shift {inner : Extent}
    (within : inner.Within outer) (base : Nat) :
    (inner.shift base).Within (outer.shift base) := by
  unfold Within stop Extent.shift at *
  show base + outer.start ≤ base + inner.start ∧
    base + inner.start + inner.width ≤ base + outer.start + outer.width
  omega

/-- Writing one range leaves what is read from another. -/
theorem read_write_of_apart
    {Byte : Type} (memory : Nat → Byte) (value : Nat → Byte)
    (apart : first.Apart second) :
    second.read (first.write memory value) = second.read memory := by
  refine List.map_congr_left fun index member => ?_
  have below := List.mem_range.mp member
  have outside :
      ¬ (first.start ≤ second.start + index ∧
        second.start + index < first.stop) := by
    unfold Apart stop at apart
    unfold stop
    omega
  exact if_neg outside

end Extent

/-- Rounding up never goes back. -/
theorem le_alignUp (pos : Nat) {align : Nat} (isPos : 0 < align) :
    pos ≤ alignUp pos align := by
  have division := Nat.div_add_mod (pos + align - 1) align
  have remainder := Nat.mod_lt (pos + align - 1) isPos
  have product := Nat.mul_comm align ((pos + align - 1) / align)
  unfold alignUp
  omega

/-- Members are placed from the cursor on. -/
theorem le_start_of_mem_place
    {members : List Member}
    (aligned : ∀ member ∈ members, 0 < member.align)
    {pos : Nat} {extent : Extent}
    (placed : extent ∈ place pos members) :
    pos ≤ extent.start := by
  induction members generalizing pos with
  | nil =>
      cases placed
  | cons member rest inductionHypothesis =>
      have atLeast := le_alignUp pos (aligned member List.mem_cons_self)
      rcases List.mem_cons.mp placed with isHead | inRest
      · subst extent
        exact atLeast
      · have later :=
          inductionHypothesis
            (fun other inTail =>
              aligned other (List.mem_cons_of_mem _ inTail)) inRest
        omega

/-- The members of a structure follow each other without overlap. -/
theorem place_pairwise
    {members : List Member}
    (aligned : ∀ member ∈ members, 0 < member.align) (pos : Nat) :
    (place pos members).Pairwise fun earlier later =>
      earlier.stop ≤ later.start := by
  induction members generalizing pos with
  | nil =>
      exact .nil
  | cons member rest inductionHypothesis =>
      have restAligned : ∀ other ∈ rest, 0 < other.align :=
        fun other inTail => aligned other (List.mem_cons_of_mem _ inTail)
      refine .cons ?_ (inductionHypothesis restAligned _)
      intro later placed
      exact le_start_of_mem_place restAligned placed

/-- Two different members of a structure are apart. -/
theorem apart_of_getElem?
    {extents : List Extent}
    (ordered :
      extents.Pairwise fun earlier later => earlier.stop ≤ later.start)
    {first second : Nat} {firstExtent secondExtent : Extent}
    (atFirst : extents[first]? = some firstExtent)
    (atSecond : extents[second]? = some secondExtent)
    (differ : first ≠ second) :
    firstExtent.Apart secondExtent := by
  obtain ⟨firstBound, rfl⟩ := List.getElem?_eq_some_iff.mp atFirst
  obtain ⟨secondBound, rfl⟩ := List.getElem?_eq_some_iff.mp atSecond
  have ordering := List.pairwise_iff_getElem.mp ordered
  rcases Nat.lt_or_gt_of_ne differ with before | after
  · exact .inl (ordering first second firstBound secondBound before)
  · exact .inr (ordering second first secondBound firstBound after)

/-- Two different elements of an array are apart. -/
theorem element_apart
    {base stride width first second : Nat}
    (fits : width ≤ stride) (differ : first ≠ second) :
    (element base stride first width).Apart
      (element base stride second width) := by
  rcases Nat.lt_or_gt_of_ne differ with before | after
  · left
    have steps := Nat.mul_le_mul_left stride before
    rw [Nat.succ_eq_add_one, Nat.mul_add, Nat.mul_one] at steps
    show base + stride * first + width ≤ base + stride * second
    omega
  · right
    have steps := Nat.mul_le_mul_left stride after
    rw [Nat.succ_eq_add_one, Nat.mul_add, Nat.mul_one] at steps
    show base + stride * second + width ≤ base + stride * first
    omega

/-- An element of an array lies in the array. -/
theorem element_within
    {base stride width count index : Nat}
    (fits : width ≤ stride) (inArray : index < count) :
    (element base stride index width).Within ⟨base, stride * count⟩ := by
  have steps := Nat.mul_le_mul_left stride inArray
  rw [Nat.succ_eq_add_one, Nat.mul_add, Nat.mul_one] at steps
  refine ⟨Nat.le_add_right _ _, ?_⟩
  show base + stride * index + width ≤ base + stride * count
  omega

end StructLayout
