import Msh.Runtime.Machine

namespace Msh

open Function Config

/-!
# The handshake around blockable calls

The accesses to the two flags as single atomic steps, for any number of
threads.  A thread announces a blockable call by setting the flag that
`msh_reallocatable` points to and takes it back with a CAS; a thread in
`_allocate_scav` takes the same flag with a CAS while it moves scavengers
away.  Before `init_primary_ctx` both pointers of a thread point to `dummy`.
-/

/-- A thread of the process, known to the runtime or not. -/
abbrev Thread := Nat

/-- Where a thread is with respect to the flags and the table lock. -/
inductive Spot where
  /-- Application code, or the parts of the scheduler without flags. -/
  | outside
  /-- Between `msh_enter_blockable_call` and the CAS that succeeds -/
  | entered
  /-- After that CAS, before the read of `*msh_reallocated` -/
  | left
  /-- Calling `allocate_scav` -/
  | allocating (resume : Resume)
  /-- At `spin_lock(&scav_table_lock)` -/
  | waiting (resume : Resume) (demands : Nat)
  /-- Before the CAS on the flag of the next thread in the loop -/
  | scanning (resume : Resume) (demands retCounts : Nat) (rest : List Tid)
  /-- Calling `realloc_scav` for a thread whose flag it took -/
  | holding (resume : Resume) (demands retCounts : Nat) (rest : List Tid)
      (source : Tid)
  /-- Before the flag is set again -/
  | stolen (resume : Resume) (demands retCounts : Nat) (rest : List Tid)
      (source : Tid) (cnt : Nat)
  /-- Before the loop over the scavenger pool -/
  | pooling (resume : Resume) (demands retCounts : Nat)
  /-- At `spin_unlock(&scav_table_lock)` -/
  | unlocking (resume : Resume) (ret : Nat)
  /-- The rest of `allocate_scav` and of its caller -/
  | finishing (resume : Resume) (ret : Nat)
  /-- Working on `PRIM_TABLE[-1]` -/
  | wild
  deriving DecidableEq, Repr

/-- The steps of one thread. -/
inductive HandshakeAction where
  /-- `msh_alloc_ctx` with a thread id, up to `allocate_scav` -/
  | allocCtx (thread : Thread) (tid : Tid)
  /-- The scheduler calls `allocate_scav`. -/
  | schedule (thread : Thread)
  /-- `msh_enter_blockable_call` -/
  | enter (thread : Thread)
  /-- The CAS of `msh_exit_blockable_call` succeeds. -/
  | exitCas (thread : Thread)
  /-- `msh_exit_blockable_call` reads `*msh_reallocated`. -/
  | readReallocated (thread : Thread)
  /-- The next step of `allocate_scav` -/
  | advance (thread : Thread)
  /-- Code without flags changes the thread's entry and the other tables. -/
  | work (thread : Thread) (ctx : PrimaryThreadCtx)
      (scavTable : Int → CoroutineCtx) (libs : Handle → LibSymbols)

/-- The threads, what they share, and what was taken from whom. -/
structure Handshake where
  tables : Tables
  dummy : Bool
  /-- The holder of `scav_table_lock`. -/
  lock : Option Thread
  /-- The thread that was given an entry of `PRIM_TABLE`. -/
  owner : Tid → Option Thread
  /-- `msh_tid`, or `none` while it is `-1` -/
  mshTid : Thread → Option Tid
  /-- The entry that `msh_reallocatable` and `msh_reallocated` point into. -/
  pointers : Thread → Option Tid
  spot : Thread → Spot
  /-- Has a scavenger been taken since the last exit from a call? -/
  taken : Tid → Bool

/-- What code that writes no flag may make of the tables. -/
def Tables.workOn
    (tables : Tables) (tid : Tid) (ctx : PrimaryThreadCtx)
    (scavTable : Int → CoroutineCtx) (libs : Handle → LibSymbols) : Tables :=
  let worked :=
    tables.updatePrim tid fun own =>
      { ctx with
        reallocatable := own.reallocatable
        reallocated := own.reallocated }
  { worked with scavTable := scavTable, libs := libs }

namespace Handshake

/-- One thread moves on, with new tables. -/
def goto (state : Handshake) (thread : Thread) (tables : Tables)
    (spot : Spot) : Handshake :=
  { state with tables := tables, spot := update state.spot thread spot }

/-- `*msh_reallocatable` -/
def reallocatable (state : Handshake) (thread : Thread) : Bool :=
  match state.pointers thread with
  | some tid => (state.tables.primTable tid).reallocatable
  | none => state.dummy

/-- `*msh_reallocated` -/
def reallocated (state : Handshake) (thread : Thread) : Bool :=
  match state.pointers thread with
  | some tid => (state.tables.primTable tid).reallocated
  | none => state.dummy

/-- Was a scavenger of the thread taken since its last exit from a call? -/
def takenFrom (state : Handshake) (thread : Thread) : Bool :=
  match state.pointers thread with
  | some tid => state.taken tid
  | none => false

/-- Write one thread's flag in `PRIM_TABLE`. -/
def setFlag (tables : Tables) (tid : Tid) (flag : Bool) : Tables :=
  tables.updatePrim tid fun ctx => { ctx with reallocatable := flag }

/-- `*msh_reallocatable = flag` -/
def setReallocatable
    (state : Handshake) (thread : Thread) (flag : Bool) : Handshake :=
  match state.pointers thread with
  | some tid => { state with tables := setFlag state.tables tid flag }
  | none => { state with dummy := flag }

/-- Return from `allocate_scav` to its caller and run the rest of that. -/
def resumeWith
    (state : Handshake) (thread : Thread) (tid : Tid) (tables : Tables)
    (ret : Nat) (resume : Resume) : Handshake :=
  let resumed := state.goto thread (tables.resumeWith tid ret resume) .outside
  match resume with
  | .initPrimary =>
      { resumed with pointers := update state.pointers thread (some tid) }
  | .sched => resumed
  | .exitCall => resumed

/-- The next step of `allocate_scav`, called on the entry of `tid`. -/
def advance?
    (maxScavPerThread : Int) (state : Handshake) (thread : Thread)
    (tid : Tid) : Option Handshake :=
  let tables := state.tables
  match state.spot thread with
  | .allocating resume =>
      let counts := (tables.primTable tid).needMoreScav maxScavPerThread
      if counts = 0 then some (state.resumeWith thread tid tables 0 resume)
      else some (state.goto thread tables (.waiting resume counts.toNat))
  | .waiting resume demands =>
      if state.lock = none then
        some
          { state.goto thread tables
              (.scanning resume demands 0 (List.finRange maxThreadNum)) with
            lock := some thread }
      else none
  | .scanning resume demands retCounts (source :: rest) =>
      if (tables.primTable source).reallocatable then
        some (state.goto thread (setFlag tables source false)
          (.holding resume demands retCounts rest source))
      else
        some (state.goto thread tables
          (.scanning resume demands retCounts rest))
  | .scanning resume demands retCounts [] =>
      some (state.goto thread tables (.pooling resume demands retCounts))
  | .holding resume demands retCounts rest source =>
      let moved := tables.reallocScav source tid demands
      some
        { state.goto thread moved.1
            (.stolen resume demands retCounts rest source moved.2) with
          taken :=
            update state.taken source
              (state.taken source || decide (0 < moved.2)) }
  | .stolen resume demands retCounts rest source cnt =>
      let spot :=
        if demands ≤ retCounts + cnt then
          Spot.unlocking resume (retCounts + cnt)
        else .scanning resume demands (retCounts + cnt) rest
      some (state.goto thread (setFlag tables source true) spot)
  | .pooling resume demands retCounts =>
      let hosted :=
        tables.takeFromPool tid demands (List.range maxActiveCrtNum)
          retCounts
      some (state.goto thread hosted.1 (.unlocking resume hosted.2))
  | .unlocking resume ret =>
      some
        { state.goto thread tables (.finishing resume ret) with
          lock := none }
  | .finishing resume ret =>
      some (state.resumeWith thread tid (tables.initNewScavs tid) ret resume)
  | _ => none

/-- The step function; `none` when the action is not enabled. -/
def step? (maxScavPerThread : Int) (state : Handshake) :
    HandshakeAction → Option Handshake
  | .allocCtx thread tid =>
      if state.spot thread = .outside ∧ state.mshTid thread = none ∧
          state.owner tid = none then
        some
          { state.goto thread state.tables (.allocating .initPrimary) with
            owner := update state.owner tid (some thread)
            mshTid := update state.mshTid thread (some tid) }
      else none
  | .schedule thread =>
      if state.spot thread = .outside ∧ state.mshTid thread ≠ none then
        some (state.goto thread state.tables (.allocating .sched))
      else none
  | .enter thread =>
      if state.spot thread = .outside then
        let set := state.setReallocatable thread true
        some (set.goto thread set.tables .entered)
      else none
  | .exitCas thread =>
      if state.spot thread = .entered ∧ state.reallocatable thread then
        let set := state.setReallocatable thread false
        some (set.goto thread set.tables .left)
      else none
  | .readReallocated thread =>
      if state.spot thread = .left then
        match state.pointers thread with
        | some tid =>
            let next :=
              if state.reallocated thread then
                state.goto thread state.tables (.allocating .exitCall)
              else state.goto thread state.tables .outside
            some { next with taken := update state.taken tid false }
        | none =>
            if state.reallocated thread then
              -- the slow path works on `PRIM_TABLE[msh_tid]`
              some (state.goto thread state.tables .wild)
            else some (state.goto thread state.tables .outside)
      else none
  | .advance thread =>
      match state.mshTid thread with
      | some tid => state.advance? maxScavPerThread thread tid
      | none => none
  | .work thread ctx scavTable libs =>
      match state.mshTid thread with
      | some tid =>
          if state.spot thread = .outside then
            some
              { state with
                tables := state.tables.workOn tid ctx scavTable libs }
          else none
      | none => none

/-- The machine's step relation. -/
def Step (maxScavPerThread : Int) (state : Handshake)
    (action : HandshakeAction) (next : Handshake) : Prop :=
  state.step? maxScavPerThread action = some next

/-- No thread has called the runtime yet. -/
structure Initial (state : Handshake) : Prop where
  dummy : state.dummy = false
  lock : state.lock = none
  owner : ∀ tid, state.owner tid = none
  mshTid : ∀ thread, state.mshTid thread = none
  pointers : ∀ thread, state.pointers thread = none
  spot : ∀ thread, state.spot thread = .outside
  taken : ∀ tid, state.taken tid = false
  reallocatable :
    ∀ tid, (state.tables.primTable tid).reallocatable = false
  reallocated : ∀ tid, (state.tables.primTable tid).reallocated = false

end Handshake

namespace Spot

/-- The caller of the `allocate_scav` that the thread is in. -/
def resume? : Spot → Option Resume
  | .allocating resume => some resume
  | .waiting resume _ => some resume
  | .scanning resume _ _ _ => some resume
  | .holding resume _ _ _ _ => some resume
  | .stolen resume _ _ _ _ _ => some resume
  | .pooling resume _ _ => some resume
  | .unlocking resume _ => some resume
  | .finishing resume _ => some resume
  | _ => none

/-- The thread whose flag is taken. -/
def source? : Spot → Option Tid
  | .holding _ _ _ _ source => some source
  | .stolen _ _ _ _ source _ => some source
  | _ => none

/-- Does the thread hold the lock of the scavenger table? -/
def locked : Spot → Bool
  | .scanning _ _ _ _ => true
  | .holding _ _ _ _ _ => true
  | .stolen _ _ _ _ _ _ => true
  | .pooling _ _ _ => true
  | .unlocking _ _ => true
  | _ => false

theorem locked_of_source {spot : Spot} {tid : Tid}
    (source : spot.source? = some tid) :
    spot.locked = true := by
  cases spot <;> first | rfl | cases source

theorem ne_entered_of_resume {spot : Spot} {resume : Resume}
    (resumes : spot.resume? = some resume) :
    spot ≠ .entered := by
  rintro rfl
  cases resumes

end Spot

end Msh
