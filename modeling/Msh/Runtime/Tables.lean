import Mathlib.Algebra.GroupWithZero.Nat
import Mathlib.Logic.Function.Basic
import Msh.Library.BoundedSearch

namespace Msh

open Function BoundedSearch

/-!
# The runtime's tables

The data model of `libmsh`: `PRIM_TABLE`, one `primary_thread_ctx` for each
primary thread, `SCAV_TABLE`, one `coroutine_ctx` for each scavenger of the
pool, and the symbols that each scavenger library exports to the runtime.
An array of the source is a function of its index, read only at the indices
that the source's loops use.
-/

/-- `MAX_THREAD_NUM` -/
abbrev maxThreadNum : Nat := 128

/-- `MAX_ACTIVE_CRT_NUM_PER_APPLICATION` -/
abbrev maxActiveCrtNum : Nat := 512

/-- `MAX_CRT_PER_THREAD` -/
abbrev maxCrtPerThread : Nat := 128

/-- `MAX_REG_SET_NUM` -/
abbrev maxRegSetNum : Nat := 15

/-- `NUM_OF_LINES_FOR_LOOP_COUNTER * 64`, the bytes of one counter area. -/
abbrev loopCounterBytes : Nat := 4 * 64

/-- `sizeof(struct yield_ctx)` -/
abbrev sizeofYieldCtx : Nat := 20

/-- `offsetof(struct primary_thread_ctx, loop_counter)` -/
abbrev offsetofLoopCounter : Nat := sizeofYieldCtx * (maxCrtPerThread + 1)

/-- Index of a primary thread in `PRIM_TABLE`. -/
abbrev Tid := Fin maxThreadNum

instance neZeroMaxThreadNum : NeZero maxThreadNum := ⟨by decide⟩

instance neZeroLoopCounterBytes : NeZero loopCounterBytes := ⟨by decide⟩

/-- A handle returned by `dlopen`; one library always has one handle. -/
abbrev Handle := Nat

/-- `struct yield_ctx` -/
structure YieldCtx where
  sp : BitVec 64
  ip : BitVec 64
  specialNext : Int
  normalNext : Int
  deriving DecidableEq, Repr

/-- `struct x86_registers` -/
structure X86Registers where
  gpr : Fin 16 → BitVec 64
  xmm : Fin 4 → BitVec 128

/-- `struct coroutine_ctx`, without the bytes of its stack. -/
structure CoroutineCtx where
  libHandle : Option Handle
  entry : BitVec 64
  /-- Address of the `ret_to_sched` field, the initial top of the stack. -/
  retToSched : BitVec 64
  argc : Int
  argv : List String
  /-- The slot `ycs[pos]` of a primary thread that this coroutine runs in. -/
  yc : Option (Tid × Nat)
  finished : Bool
  init : Option (BitVec 64)
  inited : Bool
  deriving DecidableEq, Repr

/-- `struct primary_thread_ctx` -/
structure PrimaryThreadCtx where
  ycs : Nat → YieldCtx
  loopCounter : Nat → Nat → BitVec 8
  regs : Nat → Nat → X86Registers
  idxList : Nat → Int
  scavNum : Int
  reallocatable : Bool
  reallocated : Bool

/-- The symbols of a scavenger library that the runtime looks up. -/
structure LibSymbols where
  argc : Int
  argv : List String
  crtPos : Int
  /-- Only instrumented scavengers with memory counters export this one. -/
  loopCounterLoc : Option Int
  deriving DecidableEq, Repr

/--
Everything the runtime's operations read and write.  `scavTable` is indexed by
the source's `int`, so that the write through index `-1` in `tl_swap_crts` has
a place to go outside the entries `0, …, 511` of the table.
-/
@[ext] structure Tables where
  primTable : Tid → PrimaryThreadCtx
  scavTable : Int → CoroutineCtx
  libs : Handle → LibSymbols

namespace PrimaryThreadCtx

/--
`tl_get_crt_idx_at(pos)`.  The member after `idx_list` is the `int` field
`scav_num`, which is what a read one past the end of the list returns.
-/
def tlGetCrtIdxAt (ctx : PrimaryThreadCtx) (pos : Nat) : Int :=
  if pos ≤ maxCrtPerThread then ctx.idxList pos else ctx.scavNum

/-- `tl_set_crt_id_at(pos, val)` -/
def tlSetCrtIdAt
    (ctx : PrimaryThreadCtx) (pos : Nat) (val : Int) : PrimaryThreadCtx :=
  { ctx with idxList := update ctx.idxList pos val }

/-- Rewrite the yield context at one position. -/
def updateYc
    (ctx : PrimaryThreadCtx) (pos : Nat) (f : YieldCtx → YieldCtx) :
    PrimaryThreadCtx :=
  { ctx with ycs := update ctx.ycs pos (f (ctx.ycs pos)) }

/-- Where `push_back_to_list` puts an item: the first free position. -/
def firstFree (idxList : Nat → Int) : Option Nat :=
  findUp 1 maxCrtPerThread fun pos => idxList pos = -1

/-- Where `pop_back_from_list` takes an item: the last occupied position. -/
def lastOccupied (idxList : Nat → Int) : Option Nat :=
  findDown 1 maxCrtPerThread fun pos => idxList pos ≠ -1

/-- `init_prim_table`, for one entry. -/
def initPrimTableEntry (ctx : PrimaryThreadCtx) : PrimaryThreadCtx :=
  { ctx with
    ycs := fun pos =>
      if pos ≤ maxCrtPerThread then
        { ctx.ycs pos with normalNext := -1 }
      else ctx.ycs pos
    idxList := fun pos =>
      if pos ≤ maxCrtPerThread then -1 else ctx.idxList pos
    reallocatable := false
    reallocated := false
    scavNum := 0 }

/-- `init_primary_ctx` -/
def initPrimaryCtx (ctx : PrimaryThreadCtx) (counts : Nat) :
    PrimaryThreadCtx :=
  { ctx with
    ycs := update ctx.ycs 0
      { ctx.ycs 0 with
        normalNext := if 0 < counts then sizeofYieldCtx else 0 }
    scavNum := counts
    reallocatable := false
    reallocated := false }

end PrimaryThreadCtx

/-- One line of the scavenger pool, after `dlopen` and `dlsym`. -/
structure PoolEntry where
  handle : Handle
  entry : BitVec 64
  argc : Int
  argv : List String
  init : Option (BitVec 64)
  deriving DecidableEq, Repr

/-- `init_scav_table_entry` -/
def CoroutineCtx.initScavTableEntry
    (ctx : CoroutineCtx) (loaded : PoolEntry) : CoroutineCtx :=
  { ctx with
    libHandle := some loaded.handle
    entry := loaded.entry
    argc := loaded.argc
    argv := loaded.argv
    yc := none
    finished := false
    init := loaded.init
    inited := false }

namespace Tables

/-- Rewrite one entry of `PRIM_TABLE`. -/
def updatePrim
    (tables : Tables) (tid : Tid)
    (f : PrimaryThreadCtx → PrimaryThreadCtx) : Tables :=
  { tables with
    primTable := update tables.primTable tid (f (tables.primTable tid)) }

/-- Rewrite one entry of `SCAV_TABLE`. -/
def updateScav
    (tables : Tables) (idx : Int)
    (f : CoroutineCtx → CoroutineCtx) : Tables :=
  { tables with
    scavTable := update tables.scavTable idx (f (tables.scavTable idx)) }

/-- Write through the symbols of one loaded library. -/
def updateLib
    (tables : Tables) (handle : Handle)
    (f : LibSymbols → LibSymbols) : Tables :=
  { tables with
    libs := update tables.libs handle (f (tables.libs handle)) }

section Updates

variable (tables : Tables) (tid : Tid) (idx : Int) (handle : Handle)

@[simp] theorem updatePrim_self (f : PrimaryThreadCtx → PrimaryThreadCtx) :
    (tables.updatePrim tid f).primTable tid = f (tables.primTable tid) := by
  simp [updatePrim]

theorem updatePrim_of_ne
    {other : Tid}
    (different : other ≠ tid)
    (f : PrimaryThreadCtx → PrimaryThreadCtx) :
    (tables.updatePrim tid f).primTable other = tables.primTable other := by
  simp [updatePrim, different]

@[simp] theorem updatePrim_scavTable
    (f : PrimaryThreadCtx → PrimaryThreadCtx) :
    (tables.updatePrim tid f).scavTable = tables.scavTable :=
  rfl

@[simp] theorem updatePrim_libs
    (f : PrimaryThreadCtx → PrimaryThreadCtx) :
    (tables.updatePrim tid f).libs = tables.libs :=
  rfl

@[simp] theorem updateScav_self (f : CoroutineCtx → CoroutineCtx) :
    (tables.updateScav idx f).scavTable idx = f (tables.scavTable idx) := by
  simp [updateScav]

theorem updateScav_of_ne
    {other : Int}
    (different : other ≠ idx)
    (f : CoroutineCtx → CoroutineCtx) :
    (tables.updateScav idx f).scavTable other = tables.scavTable other := by
  simp [updateScav, different]

@[simp] theorem updateScav_primTable (f : CoroutineCtx → CoroutineCtx) :
    (tables.updateScav idx f).primTable = tables.primTable :=
  rfl

@[simp] theorem updateLib_self (f : LibSymbols → LibSymbols) :
    (tables.updateLib handle f).libs handle = f (tables.libs handle) := by
  simp [updateLib]

theorem updateLib_of_ne
    {other : Handle}
    (different : other ≠ handle)
    (f : LibSymbols → LibSymbols) :
    (tables.updateLib handle f).libs other = tables.libs other := by
  simp [updateLib, different]

@[simp] theorem updateLib_primTable (f : LibSymbols → LibSymbols) :
    (tables.updateLib handle f).primTable = tables.primTable :=
  rfl

end Updates

/-- Statically allocated memory before `msh_init`: all pointers are null. -/
structure Static (tables : Tables) : Prop where
  libHandle : ∀ idx, (tables.scavTable idx).libHandle = none
  yc : ∀ idx, (tables.scavTable idx).yc = none
  finished : ∀ idx, (tables.scavTable idx).finished = false

/-- Zeroed memory; every library exports a `loop_counter_loc`. -/
def zeroed : Tables where
  primTable _ :=
    { ycs := fun _ => ⟨0, 0, 0, 0⟩
      loopCounter := fun _ _ => 0
      regs := fun _ _ => ⟨fun _ => 0, fun _ => 0⟩
      idxList := fun _ => 0
      scavNum := 0
      reallocatable := false
      reallocated := false }
  scavTable _ :=
    { libHandle := none
      entry := 0
      retToSched := 0
      argc := 0
      argv := []
      yc := none
      finished := false
      init := none
      inited := false }
  libs _ := ⟨0, [], 0, some 0⟩

theorem zeroed_static : Static zeroed :=
  ⟨fun _ => rfl, fun _ => rfl, fun _ => rfl⟩

/--
`init_prim_table` and `init_scav_table` for a pool file whose non-comment
lines load the given entries, in file order.
-/
def mshInit (tables : Tables) (pool : List PoolEntry) : Tables :=
  { tables with
    primTable := fun tid => (tables.primTable tid).initPrimTableEntry
    scavTable := fun idx =>
      if idx < 0 then tables.scavTable idx
      else
        match pool[idx.toNat]? with
        | some loaded =>
            (tables.scavTable idx).initScavTableEntry loaded
        | none => { tables.scavTable idx with libHandle := none } }

end Tables

end Msh
