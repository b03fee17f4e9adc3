import Mathlib.Data.BitVec
import Msh.Library.StructLayout

/-!
# Byte-addressed memory

Little-endian loads and stores of whole bytes.  A load returns what the last
store to its range put there, and a store elsewhere does not change it.
-/

namespace ByteMemory

open StructLayout

/-- A memory with one byte at each address. -/
abbrev Memory := Nat → BitVec 8

/-- The value whose bytes are given, the lowest first. -/
def fromBytes : (count : Nat) → (Nat → BitVec 8) → BitVec (8 * count)
  | 0, _ => 0
  | count + 1, byte => fromBytes count (fun index => byte (index + 1)) ++ byte 0

/-- The bytes of a value, the lowest first. -/
def toBytes {width : Nat} (value : BitVec width) (index : Nat) : BitVec 8 :=
  value.extractLsb' (8 * index) 8

/-- Load a value of some bytes. -/
def load (count : Nat) (memory : Memory) (address : Nat) :
    BitVec (8 * count) :=
  fromBytes count fun index => memory (address + index)

/-- Store the lowest bytes of a value. -/
def store (count : Nat) (memory : Memory) (address : Nat)
    {width : Nat} (value : BitVec width) : Memory :=
  Extent.write memory ⟨address, count⟩ (toBytes value)

/-- Two memories are the same from one address to before another. -/
def AgreeOn (start stop : Nat) (first second : Memory) : Prop :=
  ∀ address, start ≤ address → address < stop → first address = second address

/-- The bits of a value come from the bits of its bytes. -/
theorem getLsbD_fromBytes (count : Nat) (byte : Nat → BitVec 8) (bit : Nat) :
    (fromBytes count byte).getLsbD bit =
      (decide (bit < 8 * count) && (byte (bit / 8)).getLsbD (bit % 8)) := by
  induction count generalizing byte bit with
  | zero =>
      simp [fromBytes]
  | succ count inductionHypothesis =>
      have appended :
          (fromBytes (count + 1) byte).getLsbD bit =
            if bit < 8 then (byte 0).getLsbD bit
            else
              (fromBytes count fun index => byte (index + 1)).getLsbD
                (bit - 8) :=
        BitVec.getLsbD_append
      rw [appended]
      by_cases low : bit < 8
      · have isFirst : bit / 8 = 0 := Nat.div_eq_of_lt low
        have inValue : bit < 8 * (count + 1) := by omega
        rw [if_pos low, isFirst, Nat.mod_eq_of_lt low]
        simp [inValue]
      · have quotient : (bit - 8) / 8 + 1 = bit / 8 := by omega
        have remainder : (bit - 8) % 8 = bit % 8 := by omega
        have bounds : bit - 8 < 8 * count ↔ bit < 8 * (count + 1) := by omega
        rw [if_neg low, inductionHypothesis, quotient, remainder]
        simp only [bounds]

/-- A value is made of its bytes. -/
theorem fromBytes_toBytes {count : Nat} (value : BitVec (8 * count)) :
    fromBytes count (toBytes value) = value := by
  apply BitVec.eq_of_getLsbD_eq
  intro bit inValue
  have low : bit % 8 < 8 := Nat.mod_lt _ (by decide)
  have sameBit : 8 * (bit / 8) + bit % 8 = bit := Nat.div_add_mod bit 8
  rw [getLsbD_fromBytes]
  simp [toBytes, inValue, low, sameBit]

/-- Values with the same bytes are the same. -/
theorem fromBytes_congr {count : Nat} {first second : Nat → BitVec 8}
    (same : ∀ index, index < count → first index = second index) :
    fromBytes count first = fromBytes count second := by
  induction count generalizing first second with
  | zero =>
      rfl
  | succ count inductionHypothesis =>
      have rest :
          fromBytes count (fun index => first (index + 1)) =
            fromBytes count fun index => second (index + 1) :=
        inductionHypothesis fun index inRest =>
          same (index + 1) (Nat.succ_lt_succ inRest)
      have head := same 0 (Nat.succ_pos count)
      unfold fromBytes
      rw [rest, head]

/-- A load returns what was stored. -/
theorem load_store {count : Nat} (memory : Memory) (address : Nat)
    (value : BitVec (8 * count)) :
    load count (store count memory address value) address = value := by
  have bytes :
      load count (store count memory address value) address =
        fromBytes count (toBytes value) := by
    apply fromBytes_congr
    intro index inValue
    have inRange :
        address ≤ address + index ∧
          address + index < Extent.stop ⟨address, count⟩ :=
      ⟨Nat.le_add_right _ _, Nat.add_lt_add_left inValue address⟩
    have offset : address + index - address = index :=
      Nat.add_sub_cancel_left address index
    show Extent.write memory ⟨address, count⟩ (toBytes value) _ = _
    unfold Extent.write
    rw [if_pos inRange, offset]
  rw [bytes, fromBytes_toBytes]

/-- A load depends only on its own range. -/
theorem load_congr {count address : Nat} {first second : Memory}
    (same : AgreeOn address (address + count) first second) :
    load count first address = load count second address :=
  fromBytes_congr fun index inValue =>
    same (address + index) (Nat.le_add_right _ _)
      (Nat.add_lt_add_left inValue address)

/-- A store leaves the memory before and after its range. -/
theorem store_of_outside
    {count address other width : Nat} (memory : Memory)
    (value : BitVec width)
    (outside : other < address ∨ address + count ≤ other) :
    store count memory address value other = memory other := by
  have notIn :
      ¬ (address ≤ other ∧ other < Extent.stop ⟨address, count⟩) := by
    show ¬ (address ≤ other ∧ other < address + count)
    omega
  exact if_neg notIn

/-- A store outside a range keeps the range. -/
theorem agreeOn_store
    {count address start stop width : Nat} (memory : Memory)
    (value : BitVec width)
    (outside : stop ≤ address ∨ address + count ≤ start) :
    AgreeOn start stop (store count memory address value) memory :=
  fun other fromStart beforeStop =>
    store_of_outside memory value (by omega)

namespace AgreeOn

variable {start stop : Nat} {first second third : Memory}

theorem refl (memory : Memory) : AgreeOn start stop memory memory :=
  fun _ _ _ => rfl

theorem trans (same : AgreeOn start stop first second)
    (same' : AgreeOn start stop second third) :
    AgreeOn start stop first third :=
  fun address fromStart beforeStop =>
    (same address fromStart beforeStop).trans
      (same' address fromStart beforeStop)

/-- Memories that agree on a range agree on its parts. -/
theorem mono {start' stop' : Nat} (same : AgreeOn start stop first second)
    (later : start ≤ start') (earlier : stop' ≤ stop) :
    AgreeOn start' stop' first second :=
  fun address fromStart beforeStop =>
    same address (Nat.le_trans later fromStart)
      (Nat.lt_of_lt_of_le beforeStop earlier)

end AgreeOn

end ByteMemory
