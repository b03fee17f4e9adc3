import Mathlib.Data.List.FinRange
import Msh.Runtime.Tables

namespace Msh

open Function BoundedSearch

/-!
# The runtime's operations

The functions of `msh.c` that read or write the tables, each as a function on
`Tables`.  A function whose name starts with `tl_` in the source works on the
calling thread's entry of `PRIM_TABLE`; here that thread is the argument
`tid`.  Each `spin_lock`/`spin_unlock` section of the source is contained in
one of these functions.
-/

namespace PrimaryThreadCtx

/-- `tl_next_available_crt` -/
def tlNextAvailableCrt (ctx : PrimaryThreadCtx) : Nat :=
  (findUp 1 maxCrtPerThread fun pos =>
    (ctx.ycs pos).normalNext ≠ -1).getD 0

/-- `tl_update_next_map` -/
def tlUpdateNextMap (ctx : PrimaryThreadCtx) : PrimaryThreadCtx :=
  if (ctx.ycs 0).normalNext = -1 then ctx
  else
    ctx.updateYc 0 fun yc =>
      { yc with normalNext := sizeofYieldCtx * ctx.tlNextAvailableCrt }

/-- Setting the primary's link right after `tl_update_next_map` undoes it. -/
theorem updateYc_tlUpdateNextMap (ctx : PrimaryThreadCtx) (next : Int) :
    (ctx.tlUpdateNextMap.updateYc 0 fun yc =>
        { yc with normalNext := next }) =
      ctx.updateYc 0 fun yc => { yc with normalNext := next } := by
  unfold tlUpdateNextMap
  split
  · rfl
  · simp [updateYc]

/-- `tl_find_unfinished_crt` -/
def tlFindUnfinishedCrt (ctx : PrimaryThreadCtx) : Nat :=
  (findUp 1 maxCrtPerThread fun pos =>
    ctx.tlGetCrtIdxAt pos ≠ -1).getD 0

/-- The body of the loop in `set_special_next`, at one position. -/
def specialNextAt
    (ctx : PrimaryThreadCtx) (pos : Nat) (yc : YieldCtx) : YieldCtx :=
  let ended :=
    if pos = maxCrtPerThread then { yc with specialNext := 0 } else yc
  -- the source falls through to the read of `idx_list[pos + 1]`
  if ctx.tlGetCrtIdxAt (pos + 1) = -1 then
    { ended with specialNext := 0 }
  else
    { ended with specialNext := (pos + 1 : Nat) * sizeofYieldCtx }

/-- `set_special_next` -/
def setSpecialNext (ctx : PrimaryThreadCtx) : PrimaryThreadCtx :=
  { ctx with
    ycs := fun pos =>
      if 1 ≤ pos ∧ pos < maxCrtPerThread + 1 then
        ctx.specialNextAt pos (ctx.ycs pos)
      else ctx.ycs pos }

/-- The number of scavengers that a primary hosts. -/
def hostedCount (ctx : PrimaryThreadCtx) : Nat :=
  (List.range' 1 maxCrtPerThread).countP fun pos => ctx.idxList pos ≠ -1

/-- `need_more_scav` -/
def needMoreScav
    (maxScavPerThread : Int) (ctx : PrimaryThreadCtx) : Int :=
  if (ctx.hostedCount : Int) < maxScavPerThread then
    maxScavPerThread - ctx.hostedCount
  else 0

/-- The `next_pos` loop of `tl_pack_crts`. -/
def nextOccupied (ctx : PrimaryThreadCtx) (pos : Nat) : Option Nat :=
  findUp (pos + 1) (maxCrtPerThread - pos) fun nextPos =>
    ctx.tlGetCrtIdxAt nextPos ≠ -1

end PrimaryThreadCtx

namespace Tables

/-- `set_scav_symbol` -/
def setScavSymbol
    (tables : Tables) (tid : Tid) (scavIdx : Int) (crtPos : Nat) :
    Tables :=
  let ctx := tables.scavTable scavIdx
  match ctx.libHandle with
  | none => tables
  | some handle =>
      let written :=
        tables.updateLib handle fun lib =>
          { lib with
            argc := ctx.argc
            argv := ctx.argv
            crtPos := (crtPos * sizeofYieldCtx : Nat) }
      if (tables.libs handle).loopCounterLoc = none then
        -- "This scavenger doesn't have loop counter"
        written
      else
        let located :=
          written.updateLib handle fun lib =>
            { lib with
              loopCounterLoc :=
                some (offsetofLoopCounter + loopCounterBytes * crtPos : Nat) }
        located.updatePrim tid fun ctx =>
          { ctx with
            loopCounter := update ctx.loopCounter crtPos fun _ => 0 }

/-- Write a library's exported `crt_pos`. -/
def writeCrtPos (tables : Tables) (scavIdx : Int) (val : Nat) : Tables :=
  match (tables.scavTable scavIdx).libHandle with
  | none => tables
  | some handle =>
      tables.updateLib handle fun lib => { lib with crtPos := val }

@[simp] theorem writeCrtPos_primTable
    (tables : Tables) (idx : Int) (val : Nat) :
    (tables.writeCrtPos idx val).primTable = tables.primTable := by
  unfold writeCrtPos
  split <;> rfl

@[simp] theorem writeCrtPos_scavTable
    (tables : Tables) (idx : Int) (val : Nat) :
    (tables.writeCrtPos idx val).scavTable = tables.scavTable := by
  unfold writeCrtPos
  split <;> rfl

/-- The libraries after writing `crt_pos` depend only on two fields. -/
theorem writeCrtPos_libs_congr
    {first second : Tables}
    (libs : first.libs = second.libs)
    (scavTable : first.scavTable = second.scavTable)
    (idx : Int) (val : Nat) :
    (first.writeCrtPos idx val).libs =
      (second.writeCrtPos idx val).libs := by
  unfold writeCrtPos
  rw [scavTable]
  split
  · exact libs
  · simp only [updateLib, libs]

/-- The renaming that `tl_swap_crts` applies to every `normal_next`. -/
def renameNext (aPos bPos : Nat) (next : Int) : Int :=
  if next = aPos then bPos else if next = bPos then aPos else next

/-- The part of `tl_swap_crts` that works on the thread's own entry. -/
def swapSlots (ctx : PrimaryThreadCtx) (aPos bPos : Nat) :
    PrimaryThreadCtx :=
  let aIdx := ctx.tlGetCrtIdxAt aPos
  let bIdx := ctx.tlGetCrtIdxAt bPos
  let listed := (ctx.tlSetCrtIdAt aPos bIdx).tlSetCrtIdAt bPos aIdx
  let swapped :=
    update (update ctx.ycs aPos (ctx.ycs bPos)) bPos (ctx.ycs aPos)
  { listed with
    ycs := fun pos =>
      if pos < maxCrtPerThread + 1 then
        { swapped pos with
          normalNext := renameNext aPos bPos (swapped pos).normalNext }
      else swapped pos
    regs :=
      update (update ctx.regs aPos (ctx.regs bPos)) bPos (ctx.regs aPos) }

/-- `tl_swap_crts` -/
def tlSwapCrts (tables : Tables) (tid : Tid) (aPos bPos : Nat) : Tables :=
  let ctx := tables.primTable tid
  let aIdx := ctx.tlGetCrtIdxAt aPos
  let bIdx := ctx.tlGetCrtIdxAt bPos
  let swapped := tables.updatePrim tid fun ctx => swapSlots ctx aPos bPos
  -- neither write is guarded against the sentinel `-1`
  let pointed :=
    (swapped.updateScav aIdx fun crt => { crt with yc := some (tid, bPos) })
      |>.updateScav bIdx fun crt => { crt with yc := some (tid, aPos) }
  let aNamed :=
    if aIdx ≠ -1 then pointed.writeCrtPos aIdx bPos else pointed
  if bIdx ≠ -1 then aNamed.writeCrtPos bIdx aPos else aNamed

/-- `tl_finish_crt` -/
def tlFinishCrt (tables : Tables) (tid : Tid) (crtPos : Nat) : Tables :=
  let crtIdx := (tables.primTable tid).tlGetCrtIdxAt crtPos
  let ended :=
    tables.updatePrim tid fun ctx =>
      ctx.updateYc crtPos fun yc => { yc with normalNext := -1 }
  if crtIdx = -1 then ended
  else
    (ended.updatePrim tid fun ctx => ctx.tlSetCrtIdAt crtPos (-1))
      |>.updateScav crtIdx fun crt =>
        { crt with yc := none, finished := true }

/-- One iteration of the outer loop of `tl_pack_crts`. -/
def packAt (tables : Tables) (tid : Tid) (pos : Nat) : Tables :=
  let ctx := tables.primTable tid
  if ctx.tlGetCrtIdxAt pos = -1 then
    match ctx.nextOccupied pos with
    | some nextPos => tables.tlSwapCrts tid pos nextPos
    | none => tables
  else tables

/-- `tl_pack_crts` -/
def tlPackCrts (tables : Tables) (tid : Tid) : Tables :=
  if ((tables.primTable tid).ycs 0).normalNext = -1 then tables
  else
    ((List.range' 1 maxCrtPerThread).foldl
        (fun packed pos => packed.packAt tid pos) tables).updatePrim
      tid PrimaryThreadCtx.setSpecialNext

/--
One iteration of the loop of `realloc_scav`.  The flag says whether the loop
goes on: it stops when `from` has no scavenger left, and, after rolling back,
when `to` has no free position.
-/
def reallocOne (tables : Tables) (source target : Tid) : Tables × Bool :=
  match PrimaryThreadCtx.lastOccupied
      (tables.primTable source).idxList with
  | none => (tables, false)
  | some fromPos =>
      let crtIdx := (tables.primTable source).idxList fromPos
      let popped :=
        tables.updatePrim source fun ctx => ctx.tlSetCrtIdAt fromPos (-1)
      match PrimaryThreadCtx.firstFree
          (popped.primTable target).idxList with
      | none =>
          let rolledBack :=
            match PrimaryThreadCtx.firstFree
                (popped.primTable source).idxList with
            | none => popped
            | some backPos =>
                popped.updatePrim source fun ctx =>
                  ctx.tlSetCrtIdAt backPos crtIdx
          (rolledBack, false)
      | some toPos =>
          let pushed :=
            popped.updatePrim target fun ctx =>
              ctx.tlSetCrtIdAt toPos crtIdx
          let fromYc := (pushed.primTable source).ycs fromPos
          let received :=
            pushed.updatePrim target fun ctx =>
              ctx.updateYc toPos fun yc =>
                { yc with
                  sp := fromYc.sp, ip := fromYc.ip, normalNext := 0 }
          let vacated :=
            received.updatePrim source fun ctx =>
              ctx.updateYc fromPos fun yc => { yc with normalNext := -1 }
          -- the calling thread is `to`
          let linked :=
            vacated.updatePrim target fun ctx =>
              ctx.tlUpdateNextMap.updateYc 0 fun yc =>
                { yc with normalNext := sizeofYieldCtx }
          let fromRegs := (linked.primTable source).regs fromPos
          let copied :=
            linked.updatePrim target fun ctx =>
              { ctx with regs := update ctx.regs toPos fromRegs }
          let named := copied.writeCrtPos crtIdx toPos
          let pointed :=
            named.updateScav crtIdx fun crt =>
              { crt with yc := some (target, toPos) }
          (pointed.updatePrim source fun ctx =>
            { ctx with reallocated := true }, true)

/-- `realloc_scav`, with the number of scavengers it moved. -/
def reallocScav (tables : Tables) (source target : Tid) :
    Nat → Tables × Nat
  | 0 => (tables, 0)
  | demands + 1 =>
      match tables.reallocOne source target with
      | (moved, true) =>
          let rest := moved.reallocScav source target demands
          (rest.1, rest.2 + 1)
      | (stopped, false) => (stopped, 0)

/--
The first loop of `_allocate_scav`.  A thread whose flag the CAS takes has its
flag set again once its scavengers have been taken.  The last component says
whether the function returned from inside the loop.
-/
def stealScavs (tables : Tables) (target : Tid) (demands : Nat) :
    List Tid → Nat → Tables × Nat × Bool
  | [], retCounts => (tables, retCounts, false)
  | tid :: rest, retCounts =>
      if (tables.primTable tid).reallocatable then
        let taken :=
          tables.updatePrim tid fun ctx => { ctx with reallocatable := false }
        -- the whole demand is passed on, whatever was already taken
        let moved := taken.reallocScav tid target demands
        let unlocked :=
          moved.1.updatePrim tid fun ctx => { ctx with reallocatable := true }
        if demands ≤ retCounts + moved.2 then
          (unlocked, retCounts + moved.2, true)
        else
          unlocked.stealScavs target demands rest (retCounts + moved.2)
      else tables.stealScavs target demands rest retCounts

/-- The pool entry at `idx` is loaded and neither hosted nor finished. -/
def Idle (tables : Tables) (idx : Int) : Bool :=
  (tables.scavTable idx).libHandle.isSome &&
    (tables.scavTable idx).yc.isNone &&
      !(tables.scavTable idx).finished

/-- The body of the pool loop, once a free position has been found. -/
def hostScav
    (tables : Tables) (target : Tid) (idx : Int) (pos : Nat) : Tables :=
  let crt := tables.scavTable idx
  let placed :=
    tables.updatePrim target fun ctx =>
      (ctx.tlSetCrtIdAt pos idx).updateYc pos fun yc =>
        { yc with
          sp := crt.retToSched, ip := crt.entry, normalNext := 0 }
  (placed.setScavSymbol target idx pos).updateScav idx fun crt =>
    { crt with yc := some (target, pos) }

/-- The second loop of `_allocate_scav`, over the scavenger pool. -/
def takeFromPool (tables : Tables) (target : Tid) (demands : Nat) :
    List Nat → Nat → Tables × Nat
  | [], retCounts => (tables, retCounts)
  | idx :: rest, retCounts =>
      if tables.Idle idx then
        match PrimaryThreadCtx.firstFree
            (tables.primTable target).idxList with
        | none => (tables, retCounts)
        | some pos =>
            let hosted := tables.hostScav target idx pos
            if demands ≤ retCounts + 1 then (hosted, retCounts + 1)
            else hosted.takeFromPool target demands rest (retCounts + 1)
      else tables.takeFromPool target demands rest retCounts

/-- `_allocate_scav`: runs with the scavenger table locked. -/
def allocateScavLocked
    (tables : Tables) (target : Tid) (demands : Nat) : Tables × Nat :=
  let stolen :=
    tables.stealScavs target demands (List.finRange maxThreadNum) 0
  if stolen.2.2 then (stolen.1, stolen.2.1)
  else
    stolen.1.takeFromPool target demands
      (List.range maxActiveCrtNum) stolen.2.1

/--
`call_init_for_new_scav`.  The links of a scavenger's slot point to the slot
itself while its `init` runs and are restored afterwards, so that what remains
of the call is the `inited` mark.
-/
def callInitForNewScav (tables : Tables) (tid : Tid) : Tables :=
  (List.range' 1 maxCrtPerThread).foldl
    (fun called pos =>
      let crtIdx := (called.primTable tid).tlGetCrtIdxAt pos
      let crt := called.scavTable crtIdx
      if crtIdx = -1 ∨ crt.inited ∨ crt.init = none then called
      else called.updateScav crtIdx fun crt => { crt with inited := true })
    tables

/-- The part of `allocate_scav` that runs once the table is unlocked. -/
def initNewScavs (tables : Tables) (tid : Tid) : Tables :=
  (tables.callInitForNewScav tid).updatePrim
    tid PrimaryThreadCtx.setSpecialNext

/-- `allocate_scav` -/
def allocateScav
    (maxScavPerThread : Int) (tables : Tables) (tid : Tid) :
    Tables × Nat :=
  let counts :=
    (tables.primTable tid).needMoreScav maxScavPerThread
  if counts = 0 then (tables, 0)
  else
    let allocated := tables.allocateScavLocked tid counts.toNat
    (allocated.1.initNewScavs tid, allocated.2)

end Tables

end Msh
