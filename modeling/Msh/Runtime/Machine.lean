import Msh.Library.TransitionSystem
import Msh.Runtime.Operations

namespace Msh

open Function

/-!
# Primary threads as a state machine

Each primary thread follows the calls of `msh.c`: it is registered by
`msh_alloc_ctx`, runs application code, enters and leaves blockable calls,
passes through `tl_sched_next_crt` whenever one of its scavengers returns, and
may clean up.  A step of one thread contains at most one locked section of the
scavenger table, so that runs interleave the threads at exactly these
sections; the phase of a thread records how far it is in its current call.
That a thread is in `msh_cleanup` is recorded apart from its phase, and apart
from the `-1` in its primary's link: a scavenger may return an offset that
finishes the primary's slot in a thread that never called `msh_cleanup`, and
the scavengers that `msh_cleanup` runs may make blockable calls.
-/

/-- What a thread does after `allocate_scav` returns. -/
inductive Resume where
  /-- the rest of `msh_alloc_ctx` -/
  | initPrimary
  /-- the rest of `tl_sched_next_crt` -/
  | sched
  /-- the rest of `msh_exit_blockable_call` -/
  | exitCall
  deriving DecidableEq, Repr

/-- Where a primary thread is in its code. -/
inductive Phase where
  /-- `msh_alloc_ctx` has not been called. -/
  | idle
  /-- Application code of the primary or of one of its scavengers. -/
  | app
  /-- Between `msh_enter_blockable_call` and the CAS that leaves the call. -/
  | blocked
  /-- In the outer loop of `tl_pack_crts`, at position `pos`. -/
  | packing (pos : Nat)
  /-- About to call `allocate_scav`. -/
  | allocating (resume : Resume)
  /-- `_allocate_scav` has returned `ret` and the table is unlocked. -/
  | allocated (resume : Resume) (ret : Nat)
  deriving DecidableEq, Repr

/-- The steps of the machine; each is taken by one primary thread. -/
inductive Action where
  /-- `msh_alloc_ctx` up to its call of `allocate_scav` -/
  | allocCtx (tid : Tid)
  /-- `tl_sched_next_crt(ret_crt_pos)`, up to the loop of `tl_pack_crts` -/
  | schedNextCrt (tid : Tid) (retCrtPos : Nat)
  /-- one iteration of `tl_pack_crts`, or its final `set_special_next` -/
  | packCrts (tid : Tid)
  /-- `need_more_scav` and the locked section of `allocate_scav` -/
  | allocateScav (tid : Tid)
  /-- the rest of `allocate_scav`, and of its caller -/
  | initScavs (tid : Tid)
  /-- `msh_enter_blockable_call` -/
  | enterBlockableCall (tid : Tid)
  /-- the successful CAS of `msh_exit_blockable_call` and the test after it -/
  | exitBlockableCall (tid : Tid)
  /-- `msh_cleanup` up to the first scavenger it runs -/
  | cleanup (tid : Tid)
  /-- instrumented code of the scavenger at `pos` writes a byte of a counter -/
  | countLoop (tid : Tid) (pos : Nat) (byte : Fin loopCounterBytes)
      (val : BitVec 8)
  deriving DecidableEq, Repr

/-- The tables together with where every thread is. -/
structure Config where
  tables : Tables
  phase : Tid → Phase
  /-- Has the thread called `msh_cleanup`, which has not returned yet? -/
  inCleanup : Tid → Bool

/-- `tl_sched_next_crt`: "change to idx (from pointer)". -/
def retCrtIdx (retCrtPos : Nat) : Nat :=
  retCrtPos / sizeofYieldCtx

namespace PrimaryThreadCtx

/-- The loop at the start of `msh_cleanup`. -/
def linkToSelf (ctx : PrimaryThreadCtx) : PrimaryThreadCtx :=
  { ctx with
    ycs := fun pos =>
      let yc := ctx.ycs pos
      if 1 ≤ pos ∧ pos < maxCrtPerThread + 1 ∧ yc.normalNext ≠ -1 then
        { yc with
          normalNext := pos * sizeofYieldCtx
          specialNext := pos * sizeofYieldCtx }
      else yc }

/-- The end of `msh_cleanup`: "reset yc[0].next = 0 to avoid error". -/
def resetPrimaryNext (ctx : PrimaryThreadCtx) : PrimaryThreadCtx :=
  ctx.updateYc 0 fun yc => { yc with normalNext := 0 }

end PrimaryThreadCtx

namespace Tables

/-- The rest of the function that called `allocate_scav`. -/
def resumeWith (tables : Tables) (tid : Tid) (ret : Nat) :
    Resume → Tables
  | .initPrimary => tables.updatePrim tid (·.initPrimaryCtx ret)
  | .sched => tables.updatePrim tid (·.tlUpdateNextMap)
  | .exitCall =>
      tables.updatePrim tid fun ctx =>
        { ctx.tlUpdateNextMap with reallocated := false }

end Tables

namespace Tables

/-- The `loop_counter_loc` of a scavenger's library, if it exports one. -/
def loopCounterLoc (tables : Tables) (idx : Int) : Option Int :=
  (tables.scavTable idx).libHandle.bind fun handle =>
    (tables.libs handle).loopCounterLoc

/-- The element of `loop_counter` that a `gs`-relative address falls in. -/
def counterArea (loc : Int) : Nat :=
  ((loc - offsetofLoopCounter) / loopCounterBytes).toNat

/-- Write one byte of an element of a thread's `loop_counter`. -/
def writeCounter
    (tables : Tables) (tid : Tid) (area : Nat)
    (byte : Fin loopCounterBytes) (val : BitVec 8) : Tables :=
  tables.updatePrim tid fun ctx =>
    { ctx with
      loopCounter :=
        update ctx.loopCounter area (update (ctx.loopCounter area) byte val) }

end Tables

namespace Config

/-- One thread moves to a new phase. -/
def goto (config : Config) (tid : Tid) (tables : Tables)
    (phase : Phase) : Config :=
  { config with
    tables := tables
    phase := update config.phase tid phase }

/-- One thread enters `msh_cleanup` or leaves it. -/
def setCleanup (config : Config) (tid : Tid) (flag : Bool) : Config :=
  { config with inCleanup := update config.inCleanup tid flag }

/-- Is a position one that a scavenger can be hosted at? -/
def ScavPos (pos : Nat) : Prop :=
  1 ≤ pos ∧ pos ≤ maxCrtPerThread

instance (pos : Nat) : Decidable (ScavPos pos) :=
  inferInstanceAs (Decidable (_ ∧ _))

/-- The step function; `none` when the action is not enabled. -/
def step? (maxScavPerThread : Int) (config : Config) :
    Action → Option Config
  | .allocCtx tid =>
      match config.phase tid with
      | .idle =>
          some (config.goto tid config.tables (.allocating .initPrimary))
      | _ => none
  | .schedNextCrt tid retCrtPos =>
      if config.phase tid = .app ∧
          retCrtIdx retCrtPos ≤ maxCrtPerThread then
        let finished :=
          config.tables.tlFinishCrt tid (retCrtIdx retCrtPos)
        let mapped := finished.updatePrim tid (·.tlUpdateNextMap)
        if ((mapped.primTable tid).ycs 0).normalNext = -1 then
          if (mapped.primTable tid).tlFindUnfinishedCrt = 0 then
            -- the `longjmp` leads into the `msh_cleanup` under way; without
            -- one its buffer holds no live frame
            if config.inCleanup tid then
              some ((config.goto tid
                (mapped.updatePrim tid (·.resetPrimaryNext))
                .app).setCleanup tid false)
            else none
          else some (config.goto tid mapped .app)
        else some (config.goto tid mapped (.packing 1))
      else none
  | .packCrts tid =>
      match config.phase tid with
      | .packing pos =>
          if pos < maxCrtPerThread + 1 then
            some (config.goto tid
              (config.tables.packAt tid pos) (.packing (pos + 1)))
          else
            some (config.goto tid
              (config.tables.updatePrim tid (·.setSpecialNext))
              (.allocating .sched))
      | _ => none
  | .allocateScav tid =>
      match config.phase tid with
      | .allocating resume =>
          let counts :=
            (config.tables.primTable tid).needMoreScav maxScavPerThread
          if counts = 0 then
            some (config.goto tid
              (config.tables.resumeWith tid 0 resume) .app)
          else
            let allocated :=
              config.tables.allocateScavLocked tid counts.toNat
            some (config.goto tid
              allocated.1 (.allocated resume allocated.2))
      | _ => none
  | .initScavs tid =>
      match config.phase tid with
      | .allocated resume ret =>
          some (config.goto tid
            ((config.tables.initNewScavs tid).resumeWith tid ret resume)
            .app)
      | _ => none
  | .enterBlockableCall tid =>
      match config.phase tid with
      | .app =>
          some (config.goto tid
            (config.tables.updatePrim tid fun ctx =>
              { ctx with reallocatable := true })
            .blocked)
      | _ => none
  | .exitBlockableCall tid =>
      match config.phase tid with
      | .blocked =>
          if (config.tables.primTable tid).reallocatable then
            let left :=
              config.tables.updatePrim tid fun ctx =>
                { ctx with reallocatable := false }
            if (config.tables.primTable tid).reallocated then
              some (config.goto tid left (.allocating .exitCall))
            else some (config.goto tid left .app)
          else none
      | _ => none
  | .cleanup tid =>
      match config.phase tid with
      | .app =>
          let linked := config.tables.updatePrim tid (·.linkToSelf)
          if (linked.primTable tid).tlFindUnfinishedCrt = 0 then
            some ((config.goto tid
              (linked.updatePrim tid (·.resetPrimaryNext))
              .app).setCleanup tid false)
          else
            -- `tl_sched_next_crt(0)` marks the primary as finished
            some ((config.goto tid
              (linked.tlFinishCrt tid 0) .app).setCleanup tid true)
      | _ => none
  | .countLoop tid pos byte val =>
      if config.phase tid = .app then
        match config.tables.loopCounterLoc
            ((config.tables.primTable tid).tlGetCrtIdxAt pos) with
        | none => none
        | some loc =>
            some (config.goto tid
              (config.tables.writeCounter tid
                (Tables.counterArea loc) byte val)
              .app)
      else none

/-- The machine's step relation. -/
def Step (maxScavPerThread : Int) (config : Config) (action : Action)
    (next : Config) : Prop :=
  config.step? maxScavPerThread action = some next

/-- `msh_init` has run and no thread is registered yet. -/
def Initial (pool : List PoolEntry) (config : Config) : Prop :=
  ∃ tables : Tables,
    tables.Static ∧
      config = ⟨tables.mshInit pool, fun _ => .idle, fun _ => false⟩

/-- Configurations reachable for a pool and a value of `MAX_SCAV_PER_THREAD`. -/
abbrev Reachable (maxScavPerThread : Int) (pool : List PoolEntry) :
    Config → Prop :=
  TransitionSystem.Reachable (Initial pool) (Step maxScavPerThread)

/-- Take the given steps one after the other, up to one not enabled. -/
def trace (maxScavPerThread : Int) (config : Config) :
    List Action → List (Action × Config)
  | [] => []
  | action :: rest =>
      match config.step? maxScavPerThread action with
      | none => []
      | some next => (action, next) :: next.trace maxScavPerThread rest

/-- An executed trace is a run. -/
theorem trace_valid
    (maxScavPerThread : Int) (config : Config) (actions : List Action) :
    TransitionSystem.FiniteRun (Step maxScavPerThread) config
      (config.trace maxScavPerThread actions) := by
  induction actions generalizing config with
  | nil =>
      exact .nil config
  | cons action rest inductionHypothesis =>
      unfold trace
      cases taken : config.step? maxScavPerThread action with
      | none =>
          exact .nil config
      | some next =>
          exact .cons taken (inductionHypothesis next)

/-- The configuration after `msh_init` on zeroed static memory. -/
def started (pool : List PoolEntry) : Config where
  tables := Tables.zeroed.mshInit pool
  phase _ := .idle
  inCleanup _ := false

theorem started_initial (pool : List PoolEntry) :
    Initial pool (started pool) :=
  ⟨Tables.zeroed, Tables.zeroed_static, rfl⟩

/-- Where the given steps lead to from `started`. -/
def startedRun (maxScavPerThread : Int) (pool : List PoolEntry)
    (actions : List Action) : Config :=
  match ((started pool).trace maxScavPerThread actions).getLast? with
  | none => started pool
  | some entry => entry.2

theorem startedRun_reachable
    (maxScavPerThread : Int) (pool : List PoolEntry)
    (actions : List Action) :
    Config.Reachable maxScavPerThread pool
      (startedRun maxScavPerThread pool actions) := by
  have isStart : Config.Reachable maxScavPerThread pool (started pool) :=
    .start (started_initial pool)
  unfold startedRun
  split
  · exact isStart
  · next entry isLast =>
      exact isStart.of_finiteRun
        (trace_valid maxScavPerThread (started pool) actions) entry
        (List.mem_of_getLast? isLast)

end Config

end Msh
