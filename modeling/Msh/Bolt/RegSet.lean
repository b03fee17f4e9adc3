import Mathlib.Data.Fintype.Basic
import Mathlib.Tactic.FinCases
import Msh.Library.X86
import Msh.Runtime.Tables

namespace Msh

open StructLayout X86

/-!
# Register sets

The instrumentation saves registers to `regs[pos][idx]` of the coroutine's
primary, at an address it computes from hand-written constants; `msh.h` says
where the compiler puts these fields.  Both agree for every regset index that
the array has, but the pass hands out indices beyond it.
-/

/-- `SizeOfX86Regs` -/
abbrev sizeOfX86Regs : Nat := 192

/-- `SizeOfRegset` -/
abbrev sizeOfRegset : Nat := 2880

/-- `SizeOfYieldCtx` -/
abbrev sizeOfYieldCtx : Nat := 20

/-- `OffsetToRegSet` -/
abbrev offsetToRegSet : Nat := 35608

/-- `maximum_regset_size` -/
abbrev maximumRegsetSize : Nat := 30

/-- `offsetInRegSet`; `none` is the source's `-1`. -/
def offsetInRegSet (reg : Reg) (regSetIdx : Nat) : Option Nat :=
  let start := regSetIdx * sizeOfX86Regs
  match reg with
  | .gpr .rax => some (start + 0)
  | .gpr .rbx => some (start + 8)
  | .gpr .rcx => some (start + 16)
  | .gpr .rdx => some (start + 24)
  | .gpr .rsi => some (start + 32)
  | .gpr .rdi => some (start + 40)
  | .gpr .rbp => some (start + 48)
  | .gpr .rsp => some (start + 56)
  | .gpr .r8 => some (start + 64)
  | .gpr .r9 => some (start + 72)
  | .gpr .r10 => some (start + 80)
  | .gpr .r11 => some (start + 88)
  | .gpr .r12 => some (start + 96)
  | .gpr .r13 => some (start + 104)
  | .gpr .r14 => some (start + 112)
  | .gpr .r15 => some (start + 120)
  | .xmm 0 => some (start + 128)
  | .xmm 1 => some (start + 144)
  | .xmm 2 => some (start + 160)
  | .xmm 3 => some (start + 176)
  | _ => none

/-- The bytes that `MOV64mr` or `MOVUPSmr` store. -/
def storeWidth : Reg → Nat
  | .xmm _ => 16
  | _ => 8

/--
The base register of the emitted stores: `crt_pos` times the ratio of the two
sizes, or zero in the primary.
-/
def crtCtxValue : Option Nat → Nat
  | some crtPos => crtPos * (sizeOfRegset / sizeOfYieldCtx)
  | none => 0

/-- The `gs`-relative range that an emitted store or load of a register uses. -/
def emittedSlot (crtPos : Option Nat) (regSetIdx : Nat) (reg : Reg) :
    Option Extent :=
  (offsetInRegSet reg regSetIdx).map fun regOffset =>
    ⟨crtCtxValue crtPos + (regOffset + offsetToRegSet), storeWidth reg⟩

/-- The members of `struct x86_registers`, in order. -/
def x86Registers : List Reg :=
  [.gpr .rax, .gpr .rbx, .gpr .rcx, .gpr .rdx, .gpr .rsi, .gpr .rdi,
    .gpr .rbp, .gpr .rsp, .gpr .r8, .gpr .r9, .gpr .r10, .gpr .r11,
    .gpr .r12, .gpr .r13, .gpr .r14, .gpr .r15,
    .xmm 0, .xmm 1, .xmm 2, .xmm 3]

/-- A `void *`, or an array of two of them. -/
def x86Member : Reg → Member
  | .xmm _ => ⟨16, 8⟩
  | _ => ⟨8, 8⟩

/-- Where the compiler puts the members of `struct x86_registers`. -/
def x86Fields : List Extent :=
  place 0 (x86Registers.map x86Member)

/-- `sizeof(struct x86_registers)` -/
def sizeofX86Registers : Nat :=
  16 * 8 + 4 * 16

/-- The members of `struct primary_thread_ctx`. -/
def primaryMembers : List Member :=
  [⟨sizeofYieldCtx * (maxCrtPerThread + 1), 4⟩,
    ⟨(maxCrtPerThread + 1) * loopCounterBytes, 1⟩,
    ⟨sizeofX86Registers * ((maxCrtPerThread + 1) * maxRegSetNum), 8⟩,
    ⟨4 * (maxCrtPerThread + 1), 4⟩,
    ⟨4, 4⟩, ⟨1, 1⟩, ⟨1, 1⟩]

/-- Where the compiler puts the members of `struct primary_thread_ctx`. -/
def primaryFields : List Extent :=
  place 0 primaryMembers

/-- The place of `regs` among the members. -/
abbrev regsMember : Nat := 2

/-- The element `regs[pos][idx]`, were the array to go on. -/
def regsElement (pos regSetIdx : Nat) : Extent :=
  element offsetToRegSet sizeofX86Registers
    (pos * maxRegSetNum + regSetIdx) sizeofX86Registers

/-- The field of `regs[pos][idx]` that is a register's, as `msh.h` has it. -/
def regField (pos regSetIdx : Nat) (reg : Reg) : Option Extent :=
  if pos < maxCrtPerThread + 1 ∧ regSetIdx < maxRegSetNum then
    (x86Registers.idxOf? reg).bind fun member =>
      x86Fields[member]?.map fun field =>
        field.shift (regsElement pos regSetIdx).start
  else none

/-- What takes a regset index: a function with filtered registers, or a loop. -/
inductive RegSetUser where
  | filtered (function : Nat)
  | loop (function loop : Nat)
  deriving DecidableEq, Repr

/--
The indices that the pass hands out, in order; `none` when the assertion
`next_regset_idx < maximum_regset_size` fails.
-/
def assignRegSets (nextRegsetIdx : Nat) :
    List RegSetUser → Option (List Nat)
  | [] => some []
  | _ :: rest =>
      if nextRegsetIdx < maximumRegsetSize then
        (assignRegSets (nextRegsetIdx + 1) rest).map (nextRegsetIdx :: ·)
      else none

/-- A position of a coroutine together with the `crt_pos` its code reads. -/
inductive CrtPosOf : Nat → Option Nat → Prop where
  | primary : CrtPosOf 0 none
  | scavenger {pos : Nat} :
      pos ≤ maxCrtPerThread →
      CrtPosOf pos (some (sizeofYieldCtx * pos))

/-- An address range that the code of a coroutine uses for a register. -/
structure SaveSlot (idxs : List Nat) where
  pos : Nat
  crtPos : Option Nat
  regSetIdx : Nat
  reg : Reg
  slot : Extent
  hosted : CrtPosOf pos crtPos
  assigned : regSetIdx ∈ idxs
  emitted : emittedSlot crtPos regSetIdx reg = some slot

namespace SaveSlot

variable {idxs : List Nat}

/-- Two slots are for one coroutine, one regset and one register. -/
def SameOwner (first second : SaveSlot idxs) : Prop :=
  first.pos = second.pos ∧ first.regSetIdx = second.regSetIdx ∧
    first.reg = second.reg

end SaveSlot

/--
The code's save slots are the fields that `msh.h` declares, and a store to one
changes neither another one nor another member of `primary_thread_ctx`.
-/
structure RegSetsPrivate (idxs : List Nat) : Prop where
  distinct : idxs.Nodup
  agree :
    ∀ save : SaveSlot idxs,
      regField save.pos save.regSetIdx save.reg = some save.slot
  otherSlots :
    ∀ (first second : SaveSlot idxs), ¬ first.SameOwner second →
      ∀ (memory value : Nat → BitVec 8),
        second.slot.read (first.slot.write memory value) =
          second.slot.read memory
  otherMembers :
    ∀ (save : SaveSlot idxs) (member : Nat) (field : Extent),
      primaryFields[member]? = some field → member ≠ regsMember →
      ∀ (memory value : Nat → BitVec 8),
        field.read (save.slot.write memory value) = field.read memory

/-- The compiler's offsets in `struct primary_thread_ctx`. -/
theorem primaryFields_eq :
    primaryFields =
      [⟨0, 2580⟩, ⟨2580, 33024⟩, ⟨offsetToRegSet, 371520⟩, ⟨407128, 516⟩,
        ⟨407644, 4⟩, ⟨407648, 1⟩, ⟨407649, 1⟩] := by
  decide

/-- The compiler's offsets in `struct x86_registers`. -/
theorem x86Fields_eq :
    x86Fields =
      [⟨0, 8⟩, ⟨8, 8⟩, ⟨16, 8⟩, ⟨24, 8⟩, ⟨32, 8⟩, ⟨40, 8⟩, ⟨48, 8⟩, ⟨56, 8⟩,
        ⟨64, 8⟩, ⟨72, 8⟩, ⟨80, 8⟩, ⟨88, 8⟩, ⟨96, 8⟩, ⟨104, 8⟩, ⟨112, 8⟩,
        ⟨120, 8⟩, ⟨128, 16⟩, ⟨144, 16⟩, ⟨160, 16⟩, ⟨176, 16⟩] := by
  decide

/-- The members of `struct x86_registers` follow each other. -/
theorem x86Fields_pairwise :
    x86Fields.Pairwise fun earlier later => earlier.stop ≤ later.start := by
  apply place_pairwise
  decide

/-- The members of `struct primary_thread_ctx` follow each other. -/
theorem primaryFields_pairwise :
    primaryFields.Pairwise fun earlier later =>
      earlier.stop ≤ later.start := by
  apply place_pairwise
  decide

/-- A member of `struct x86_registers` lies in the structure. -/
theorem within_of_mem_x86Fields
    {field : Extent} (placed : field ∈ x86Fields) :
    field.Within ⟨0, sizeofX86Registers⟩ := by
  have bounded : ∀ field ∈ x86Fields, field.stop ≤ sizeofX86Registers := by
    decide
  exact ⟨Nat.zero_le _, (bounded field placed).trans (Nat.le_add_left _ 0)⟩

/-- The emitted offset of a register is that of its field. -/
theorem offsetInRegSet_eq (reg : Reg) (regSetIdx : Nat) :
    (offsetInRegSet reg regSetIdx).map
        (fun regOffset => (⟨regOffset, storeWidth reg⟩ : Extent)) =
      (x86Registers.idxOf? reg).bind fun member =>
        x86Fields[member]?.map fun field =>
          field.shift (regSetIdx * sizeOfX86Regs) := by
  rw [x86Fields_eq]
  cases reg with
  | gpr reg =>
      cases reg <;> rfl
  | xmm index =>
      fin_cases index <;> rfl
  | eflags =>
      rfl

/-- The base register of the stores of a position. -/
theorem CrtPosOf.crtCtxValue_eq
    {pos : Nat} {crtPos : Option Nat} (hosted : CrtPosOf pos crtPos) :
    crtCtxValue crtPos = sizeOfRegset * pos := by
  cases hosted with
  | primary =>
      rfl
  | scavenger _ =>
      have ratio : sizeOfRegset / sizeOfYieldCtx = 144 := rfl
      simp only [crtCtxValue, ratio, sizeofYieldCtx, sizeOfRegset]
      omega

theorem CrtPosOf.pos_lt
    {pos : Nat} {crtPos : Option Nat} (hosted : CrtPosOf pos crtPos) :
    pos < maxCrtPerThread + 1 := by
  cases hosted with
  | primary =>
      exact Nat.succ_pos _
  | scavenger bound =>
      exact Nat.lt_succ_of_le bound

theorem CrtPosOf.eq_of_some
    {pos crtPos : Nat} (hosted : CrtPosOf pos (some crtPos)) :
    crtPos = sizeofYieldCtx * pos := by
  cases hosted with
  | scavenger _ =>
      rfl

/-- The code addresses the element that the index and the position name. -/
theorem CrtPosOf.emittedSlot_eq
    {pos : Nat} {crtPos : Option Nat} (hosted : CrtPosOf pos crtPos)
    (regSetIdx : Nat) (reg : Reg) :
    emittedSlot crtPos regSetIdx reg =
      (x86Registers.idxOf? reg).bind fun member =>
        x86Fields[member]?.map fun field =>
          field.shift (regsElement pos regSetIdx).start := by
  have emitted :
      emittedSlot crtPos regSetIdx reg =
        ((offsetInRegSet reg regSetIdx).map fun regOffset =>
          (⟨regOffset, storeWidth reg⟩ : Extent)).map
            (Extent.shift · (sizeOfRegset * pos + offsetToRegSet)) := by
    unfold emittedSlot
    rw [Option.map_map, hosted.crtCtxValue_eq]
    congr 1
    funext regOffset
    simp only [Function.comp_apply, Extent.shift, Extent.mk.injEq, and_true]
    omega
  rw [emitted, offsetInRegSet_eq]
  cases x86Registers.idxOf? reg with
  | none =>
      rfl
  | some member =>
      show Option.map _ (Option.map _ _) = Option.map _ _
      rw [Option.map_map]
      congr 1
      funext field
      simp only [Function.comp_apply, Extent.shift, regsElement, element,
        Extent.mk.injEq, and_true, sizeofX86Registers, sizeOfRegset,
        sizeOfX86Regs, maxRegSetNum, offsetToRegSet]
      omega

/-- Within the array, the code's slots are the declared fields. -/
theorem CrtPosOf.regField_eq
    {pos : Nat} {crtPos : Option Nat} (hosted : CrtPosOf pos crtPos)
    {regSetIdx : Nat} (inArray : regSetIdx < maxRegSetNum) (reg : Reg) :
    regField pos regSetIdx reg = emittedSlot crtPos regSetIdx reg := by
  have bounds : pos < maxCrtPerThread + 1 ∧ regSetIdx < maxRegSetNum :=
    ⟨hosted.pos_lt, inArray⟩
  rw [hosted.emittedSlot_eq]
  exact if_pos bounds

namespace SaveSlot

variable {idxs : List Nat}

/-- A save slot is the register's field of the element that it names. -/
theorem exists_field (save : SaveSlot idxs) :
    ∃ (member : Nat) (field : Extent),
      x86Registers[member]? = some save.reg ∧
        x86Fields[member]? = some field ∧
        save.slot =
          field.shift (regsElement save.pos save.regSetIdx).start := by
  have emitted := save.emitted
  rw [save.hosted.emittedSlot_eq] at emitted
  obtain ⟨member, order, mapped⟩ := Option.bind_eq_some_iff.mp emitted
  obtain ⟨field, placed, isSlot⟩ := Option.map_eq_some_iff.mp mapped
  obtain ⟨bound, isReg, _⟩ := List.idxOf?_eq_some_iff.mp order
  exact ⟨member, field, List.getElem?_eq_some_iff.mpr ⟨bound, isReg⟩, placed,
    isSlot.symm⟩

/-- A save slot lies in the element that it names. -/
theorem within_element (save : SaveSlot idxs) :
    save.slot.Within (regsElement save.pos save.regSetIdx) := by
  obtain ⟨member, field, _, placed, isSlot⟩ := save.exists_field
  have inStruct :=
    (within_of_mem_x86Fields (List.mem_of_getElem? placed)).shift
      (regsElement save.pos save.regSetIdx).start
  rw [isSlot]
  exact inStruct

/-- Slots of two registers in one element are apart. -/
theorem apart_of_reg_ne
    {first second : SaveSlot idxs}
    (samePos : first.pos = second.pos)
    (sameIdx : first.regSetIdx = second.regSetIdx)
    (differ : first.reg ≠ second.reg) :
    first.slot.Apart second.slot := by
  obtain ⟨member, field, isReg, placed, isSlot⟩ := first.exists_field
  obtain ⟨member', field', isReg', placed', isSlot'⟩ := second.exists_field
  have membersDiffer : member ≠ member' := by
    intro same
    subst same
    exact differ (Option.some.inj (isReg.symm.trans isReg'))
  rw [isSlot, isSlot', samePos, sameIdx]
  exact (apart_of_getElem? x86Fields_pairwise placed placed'
    membersDiffer).shift _

/-- Slots of two owners are apart while the indices stay in the array. -/
theorem apart
    (inArray : ∀ idx ∈ idxs, idx < maxRegSetNum)
    {first second : SaveSlot idxs}
    (differ : ¬ first.SameOwner second) :
    first.slot.Apart second.slot := by
  have firstBound := inArray _ first.assigned
  have secondBound := inArray _ second.assigned
  by_cases sameElement :
      first.pos * maxRegSetNum + first.regSetIdx =
        second.pos * maxRegSetNum + second.regSetIdx
  · have samePlace :
        first.pos = second.pos ∧ first.regSetIdx = second.regSetIdx := by
      simp only [maxRegSetNum] at sameElement firstBound secondBound
      omega
    refine apart_of_reg_ne samePlace.1 samePlace.2 fun sameReg => ?_
    exact differ ⟨samePlace.1, samePlace.2, sameReg⟩
  · exact (element_apart (Nat.le_refl _) sameElement).mono
      first.within_element second.within_element

/-- A save slot lies in the array while the indices do. -/
theorem within_regs
    (inArray : ∀ idx ∈ idxs, idx < maxRegSetNum) (save : SaveSlot idxs) :
    save.slot.Within ⟨offsetToRegSet, 371520⟩ := by
  have idxBound := inArray _ save.assigned
  have posBound := save.hosted.pos_lt
  have inCount :
      save.pos * maxRegSetNum + save.regSetIdx <
        (maxCrtPerThread + 1) * maxRegSetNum := by
    simp only [maxRegSetNum, maxCrtPerThread] at *
    omega
  exact save.within_element.trans
    (element_within (Nat.le_refl _) inCount)

end SaveSlot

/-- The pass numbers its users in order. -/
theorem assignRegSets_eq
    {users : List RegSetUser} {next : Nat} {idxs : List Nat}
    (assigned : assignRegSets next users = some idxs) :
    idxs = List.range' next users.length := by
  induction users generalizing next idxs with
  | nil =>
      exact (Option.some.inj assigned).symm
  | cons user rest inductionHypothesis =>
      unfold assignRegSets at assigned
      split at assigned
      · obtain ⟨restIdxs, restAssigned, isCons⟩ :=
          Option.map_eq_some_iff.mp assigned
        rw [← isCons, inductionHypothesis restAssigned]
        rfl
      · cases assigned

/-- Indices within the array keep the register sets private. -/
theorem regSetsPrivate_of_lt
    {idxs : List Nat} (distinct : idxs.Nodup)
    (inArray : ∀ idx ∈ idxs, idx < maxRegSetNum) :
    RegSetsPrivate idxs where
  distinct := distinct
  agree save := by
    rw [save.hosted.regField_eq (inArray _ save.assigned)]
    exact save.emitted
  otherSlots first second differ memory value :=
    Extent.read_write_of_apart memory value
      (SaveSlot.apart inArray differ)
  otherMembers save member field placed isOther memory value := by
    have regsPlaced :
        primaryFields[regsMember]? =
          some (⟨offsetToRegSet, 371520⟩ : Extent) := by
      rw [primaryFields_eq]
      rfl
    have membersApart :=
      apart_of_getElem? primaryFields_pairwise regsPlaced placed
        (Ne.symm isOther)
    exact Extent.read_write_of_apart memory value
      (membersApart.mono (save.within_regs inArray) (.refl field))

/-- An index beyond the array makes the primary write a scavenger's slot. -/
theorem not_regSetsPrivate_of_mem
    {idxs : List Nat}
    (first : 0 ∈ idxs) (beyond : maxRegSetNum ∈ idxs) :
    ¬ RegSetsPrivate idxs := by
  intro isPrivate
  let primary : SaveSlot idxs :=
    { pos := 0, crtPos := none, regSetIdx := maxRegSetNum, reg := .gpr .rax
      slot := ⟨38488, 8⟩, hosted := .primary, assigned := beyond
      emitted := by decide }
  let scavenger : SaveSlot idxs :=
    { pos := 1, crtPos := some (sizeofYieldCtx * 1), regSetIdx := 0
      reg := .gpr .rax, slot := ⟨38488, 8⟩
      hosted := .scavenger (by decide), assigned := first
      emitted := by decide }
  have overwritten :
      Extent.read (Extent.write (fun _ => 0) ⟨38488, 8⟩ fun _ => 1)
          ⟨38488, 8⟩ ≠
        Extent.read (fun _ => (0 : BitVec 8)) ⟨38488, 8⟩ := by
    decide
  apply overwritten
  exact isPrivate.otherSlots primary scavenger
    (fun same => Nat.zero_ne_one same.1) (fun _ => 0) (fun _ => 1)

/--
The register sets are private exactly when the pass hands out no more indices
than `regs` has, which its own assertion does not see to.
-/
theorem regSetsPrivate_iff
    {users : List RegSetUser} {idxs : List Nat}
    (assigned : assignRegSets 0 users = some idxs) :
    RegSetsPrivate idxs ↔ users.length ≤ maxRegSetNum := by
  have numbered := assignRegSets_eq assigned
  constructor
  · intro isPrivate
    by_contra tooMany
    have beyond := Nat.lt_of_not_le tooMany
    refine not_regSetsPrivate_of_mem ?_ ?_ isPrivate
    · rw [numbered, List.mem_range'_1]
      omega
    · rw [numbered, List.mem_range'_1]
      omega
  · intro bounded
    refine regSetsPrivate_of_lt ?_ fun idx isIdx => ?_
    · rw [numbered]
      exact List.nodup_range'
    · rw [numbered, List.mem_range'_1] at isIdx
      omega

/-- Two users, a function and a loop in it. -/
theorem regSetsPrivate_two :
    assignRegSets 0 [.filtered 0, .loop 0 0] = some [0, 1] ∧
      RegSetsPrivate [0, 1] :=
  ⟨by decide, (@regSetsPrivate_iff [.filtered 0, .loop 0 0] _
    (by decide)).mpr (by decide)⟩

/-- Sixteen functions pass the assertion and share a slot. -/
theorem sixteenUsers_shared :
    ∃ idxs,
      assignRegSets 0 ((List.range 16).map .filtered) = some idxs ∧
        ¬ RegSetsPrivate idxs :=
  ⟨List.range 16, by decide,
    not_regSetsPrivate_of_mem (by decide) (by decide)⟩

end Msh
