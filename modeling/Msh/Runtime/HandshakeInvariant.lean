import Msh.Runtime.Flags
import Msh.Runtime.Handshake

namespace Msh

open Function Spot

/-!
# The invariant of the handshake

A thread's flag is set, or held by one stealer, exactly while the thread is
in a blockable call, and the donor's mark says whether something was taken.
Each step keeps the invariant, as long as at most one of the threads that
share `dummy` is in a call at a time.
-/

namespace Handshake

/-- Which threads have entries, point into them, and hold the lock. -/
structure Control (state : Handshake) : Prop where
  owned :
    ∀ {thread tid}, state.mshTid thread = some tid →
      state.owner tid = some thread
  pointed :
    ∀ {thread}, (state.spot thread).resume? ≠ some .initPrimary →
      state.pointers thread = state.mshTid thread
  unpointed :
    ∀ {thread}, (state.spot thread).resume? = some .initPrimary →
      state.pointers thread = none
  locked :
    ∀ {thread}, (state.spot thread).locked = true →
      state.lock = some thread

/-- The marks agree with what was taken. -/
structure Marks (state : Handshake) : Prop where
  marked :
    ∀ tid,
      (∀ thread, state.pointers thread = some tid →
        (state.spot thread).resume? ≠ some .exitCall) →
      (state.tables.primTable tid).reallocated = state.taken tid
  /-- The slow path starts by taking note of the mark. -/
  slowPath :
    ∀ {thread tid}, state.pointers thread = some tid →
      (state.spot thread).resume? = some .exitCall →
        state.taken tid = false
  unused :
    ∀ tid, (∀ thread, state.pointers thread ≠ some tid) →
      state.taken tid = false

/-- The flags of entries stand for the threads in blockable calls. -/
structure Flags (state : Handshake) : Prop where
  flagged :
    ∀ {tid}, (state.tables.primTable tid).reallocatable = true →
      ∃ thread, state.pointers thread = some tid ∧
        state.spot thread = .entered
  held :
    ∀ {stealer tid}, (state.spot stealer).source? = some tid →
      (state.tables.primTable tid).reallocatable = false ∧
        ∃ thread, state.pointers thread = some tid ∧
          state.spot thread = .entered
  available :
    ∀ {thread tid}, state.pointers thread = some tid →
      state.spot thread = .entered →
        (state.tables.primTable tid).reallocatable = true ∨
          ∃ stealer, (state.spot stealer).source? = some tid

/-- The invariant of the machine. -/
structure Inv (state : Handshake) : Prop
    extends Control state, Marks state, Flags state where
  /-- `dummy` stands for the one thread without an entry in a call. -/
  dummy :
    state.dummy = true ↔
      ∃ thread, state.pointers thread = none ∧
        state.spot thread = .entered

section Moves

variable {state next : Handshake} {thread : Thread}

theorem Control.moves
    (control : state.Control)
    (owner : next.owner = state.owner)
    (mshTid : next.mshTid = state.mshTid)
    (pointers : next.pointers = state.pointers)
    (others :
      ∀ other, other ≠ thread → next.spot other = state.spot other)
    (locked :
      ∀ other, (next.spot other).locked = true →
        next.lock = some other)
    (registering :
      (next.spot thread).resume? = some .initPrimary ↔
        (state.spot thread).resume? = some .initPrimary) :
    next.Control := by
  have registers (other : Thread) :
      (next.spot other).resume? = some .initPrimary ↔
        (state.spot other).resume? = some .initPrimary := by
    by_cases here : other = thread
    · subst other
      exact registering
    · rw [others other here]
  constructor
  · simpa only [owner, mshTid] using @control.owned
  · simpa only [pointers, mshTid, ne_eq, registers] using @control.pointed
  · simpa only [pointers, registers] using @control.unpointed
  · exact fun {other} => locked other

/-- A thread that keeps the lock, or does not have it, moves on. -/
theorem Control.stays
    (control : state.Control) {spot : Spot}
    (owner : next.owner = state.owner)
    (mshTid : next.mshTid = state.mshTid)
    (pointers : next.pointers = state.pointers)
    (lock : next.lock = state.lock)
    (moved : next.spot = update state.spot thread spot)
    (locked : spot.locked = true → (state.spot thread).locked = true)
    (registering :
      spot.resume? = some .initPrimary ↔
        (state.spot thread).resume? = some .initPrimary) :
    next.Control := by
  have others (other : Thread) (different : other ≠ thread) :
      next.spot other = state.spot other := by
    rw [moved, update_of_ne different]
  refine control.moves owner mshTid pointers others ?_ ?_
  · intro other isLocked
    rw [lock]
    by_cases here : other = thread
    · subst other
      rw [moved, update_self] at isLocked
      exact control.locked (locked isLocked)
    · rw [moved, update_of_ne here] at isLocked
      exact control.locked isLocked
  · rw [moved, update_self]
    exact registering

theorem Marks.moves
    (marks : state.Marks)
    (pointers : next.pointers = state.pointers)
    (taken : next.taken = state.taken)
    (reallocated :
      ∀ tid, (next.tables.primTable tid).reallocated =
        (state.tables.primTable tid).reallocated)
    (others :
      ∀ other, other ≠ thread → next.spot other = state.spot other)
    (exiting :
      (next.spot thread).resume? = some .exitCall ↔
        (state.spot thread).resume? = some .exitCall) :
    next.Marks := by
  have exits (other : Thread) :
      (next.spot other).resume? = some .exitCall ↔
        (state.spot other).resume? = some .exitCall := by
    by_cases here : other = thread
    · subst other
      exact exiting
    · rw [others other here]
  constructor
  · simpa only [reallocated, pointers, taken, ne_eq, exits] using
      marks.marked
  · simpa only [pointers, taken, exits] using @marks.slowPath
  · simpa only [pointers, taken] using marks.unused

/-- The marks do not depend on what happens outside the slow path. -/
theorem Marks.stays
    (marks : state.Marks) {spot : Spot}
    (pointers : next.pointers = state.pointers)
    (taken : next.taken = state.taken)
    (reallocated :
      ∀ tid, (next.tables.primTable tid).reallocated =
        (state.tables.primTable tid).reallocated)
    (moved : next.spot = update state.spot thread spot)
    (exiting :
      spot.resume? = some .exitCall ↔
        (state.spot thread).resume? = some .exitCall) :
    next.Marks := by
  have others (other : Thread) (different : other ≠ thread) :
      next.spot other = state.spot other := by
    rw [moved, update_of_ne different]
  refine marks.moves pointers taken reallocated others ?_
  rw [moved, update_self]
  exact exiting

end Moves

namespace Inv

variable
  {state next : Handshake} {thread : Thread} {tid : Tid}

/-- The pointers of a thread point into its own entry. -/
theorem mshTid_of_pointers
    (inv : state.Inv) (points : state.pointers thread = some tid) :
    state.mshTid thread = some tid := by
  by_cases registering :
      (state.spot thread).resume? = some .initPrimary
  · rw [inv.unpointed registering] at points
    cases points
  · rw [← inv.pointed registering]
    exact points

/-- No two threads point into one entry. -/
theorem pointers_unique
    (inv : state.Inv) {other : Thread}
    (first : state.pointers thread = some tid)
    (second : state.pointers other = some tid) :
    thread = other :=
  Option.some.inj
    ((inv.owned (inv.mshTid_of_pointers first)).symm.trans
      (inv.owned (inv.mshTid_of_pointers second)))

/-- Only the thread that holds the lock holds a flag. -/
theorem stealer_unique
    (inv : state.Inv) {other : Thread}
    (isLocked : (state.spot thread).locked = true)
    (source : (state.spot other).source? = some tid) :
    other = thread :=
  Option.some.inj
    ((inv.locked (locked_of_source source)).symm.trans
      (inv.locked isLocked))

/-- A thread moves between two spots outside the handshake. -/
theorem quiet
    (inv : state.Inv)
    (owner : next.owner = state.owner)
    (mshTid : next.mshTid = state.mshTid)
    (pointers : next.pointers = state.pointers)
    (dummy : next.dummy = state.dummy)
    (taken : next.taken = state.taken)
    (reallocatable :
      ∀ tid, (next.tables.primTable tid).reallocatable =
        (state.tables.primTable tid).reallocatable)
    (reallocated :
      ∀ tid, (next.tables.primTable tid).reallocated =
        (state.tables.primTable tid).reallocated)
    (others :
      ∀ other, other ≠ thread → next.spot other = state.spot other)
    (locked :
      ∀ other, (next.spot other).locked = true →
        next.lock = some other)
    (notEntered :
      state.spot thread ≠ .entered ∧ next.spot thread ≠ .entered)
    (source :
      (next.spot thread).source? = (state.spot thread).source?)
    (registering :
      (next.spot thread).resume? = some .initPrimary ↔
        (state.spot thread).resume? = some .initPrimary)
    (exiting :
      (next.spot thread).resume? = some .exitCall ↔
        (state.spot thread).resume? = some .exitCall) :
    next.Inv := by
  have entered (other : Thread) :
      next.spot other = .entered ↔ state.spot other = .entered := by
    by_cases here : other = thread
    · subst other
      exact iff_of_false notEntered.2 notEntered.1
    · rw [others other here]
  have sources (other : Thread) :
      (next.spot other).source? = (state.spot other).source? := by
    by_cases here : other = thread
    · subst other
      exact source
    · rw [others other here]
  refine
    ⟨inv.toControl.moves owner mshTid pointers others locked registering,
      inv.toMarks.moves pointers taken reallocated others exiting,
      ⟨?_, ?_, ?_⟩, ?_⟩
  · simpa only [reallocatable, pointers, entered] using @inv.flagged
  · simpa only [reallocatable, pointers, entered, sources] using @inv.held
  · simpa only [reallocatable, pointers, entered, sources] using
      @inv.available
  · simpa only [dummy, pointers, entered] using inv.dummy

@[simp] theorem goto_tables (tables : Tables) (spot : Spot) :
    (state.goto thread tables spot).tables = tables :=
  rfl

@[simp] theorem goto_spot_self (tables : Tables) (spot : Spot) :
    (state.goto thread tables spot).spot thread = spot :=
  update_self _ _ _

theorem goto_spot_of_ne
    {other : Thread} (different : other ≠ thread)
    (tables : Tables) (spot : Spot) :
    (state.goto thread tables spot).spot other = state.spot other :=
  update_of_ne different _ _

@[simp] theorem setFlag_reallocatable (tables : Tables) (flag : Bool) :
    ((setFlag tables tid flag).primTable tid).reallocatable = flag := by
  simp [setFlag]

theorem setFlag_of_ne
    {tables : Tables} {query : Tid} (different : query ≠ tid) (flag : Bool) :
    (setFlag tables tid flag).primTable query = tables.primTable query :=
  Tables.updatePrim_of_ne _ _ different _

@[simp] theorem setFlag_reallocated
    (tables : Tables) (flag : Bool) (query : Tid) :
    ((setFlag tables tid flag).primTable query).reallocated =
      (tables.primTable query).reallocated := by
  by_cases here : query = tid
  · subst query
    simp [setFlag]
  · rw [setFlag_of_ne here]

/-- `msh_alloc_ctx` gives an unused entry to a thread that has none. -/
theorem allocCtx
    (inv : state.Inv)
    (isOutside : state.spot thread = .outside)
    (noTid : state.mshTid thread = none)
    (noOwner : state.owner tid = none) :
    Inv { state.goto thread state.tables (.allocating .initPrimary) with
      owner := update state.owner tid (some thread)
      mshTid := update state.mshTid thread (some tid) } where
  owned := by
    intro other query
    simp only [update_apply]
    grind [inv.owned]
  pointed := by
    intro other
    simp only [goto, update_apply]
    grind [inv.pointed, Spot.resume?]
  unpointed := by
    intro other
    simp only [goto, update_apply]
    grind [inv.pointed, inv.unpointed, Spot.resume?]
  locked := by
    intro other
    simp only [goto, update_apply]
    grind [inv.locked, Spot.locked]
  flagged := by
    intro query
    simp only [goto, update_apply]
    grind [inv.flagged]
  held := by
    intro other query
    simp only [goto, update_apply]
    grind [inv.held, Spot.source?]
  available := by
    intro other query
    simp only [goto, update_apply]
    grind [inv.available, Spot.source?]
  marked := by
    intro query
    simp only [goto, update_apply]
    grind [inv.marked, Spot.resume?]
  slowPath := by
    intro other query
    simp only [goto, update_apply]
    grind [inv.slowPath, Spot.resume?]
  unused := inv.unused
  dummy := by
    simp only [goto, update_apply]
    grind [inv.dummy]

/-- `msh_enter_blockable_call` of a thread that has an entry -/
theorem enterOwn
    (inv : state.Inv)
    (isOutside : state.spot thread = .outside)
    (points : state.pointers thread = some tid) :
    Inv (state.goto thread (setFlag state.tables tid true) .entered) := by
  -- a stealer that held the flag would have taken it from a call
  have noStealer (other : Thread) :
      (state.spot other).source? ≠ some tid := by
    intro source
    obtain ⟨_, owner, ownerPoints, isEntered⟩ := inv.held source
    rw [inv.pointers_unique ownerPoints points, isOutside] at isEntered
    cases isEntered
  refine
    ⟨inv.toControl.stays rfl rfl rfl rfl rfl (by simp [isOutside, Spot.locked])
        (by simp [isOutside, Spot.resume?]),
      inv.toMarks.stays rfl rfl (setFlag_reallocated _ _) rfl
        (by simp [isOutside, Spot.resume?]),
      ⟨?_, ?_, ?_⟩, ?_⟩
  · intro query
    simp only [goto, update_apply]
    grind [inv.flagged, setFlag_of_ne]
  · intro other query
    simp only [goto, update_apply]
    grind [inv.held, Spot.source?, setFlag_of_ne]
  · intro other query
    simp only [goto, update_apply]
    grind [inv.available, Spot.source?, setFlag_of_ne,
      setFlag_reallocatable, inv.pointers_unique]
  · simp only [goto, update_apply]
    grind [inv.dummy]

/-- `msh_enter_blockable_call` of a thread that has none -/
theorem enterDummy
    (inv : state.Inv)
    (isOutside : state.spot thread = .outside)
    (points : state.pointers thread = none) :
    Inv { state.goto thread state.tables .entered with dummy := true } := by
  refine
    ⟨inv.toControl.stays rfl rfl rfl rfl rfl (by simp [isOutside, Spot.locked])
        (by simp [isOutside, Spot.resume?]),
      inv.toMarks.stays rfl rfl (fun _ => rfl) rfl
        (by simp [isOutside, Spot.resume?]),
      ⟨?_, ?_, ?_⟩, ?_⟩
  · intro query
    simp only [goto, update_apply]
    grind [inv.flagged]
  · intro other query
    simp only [goto, update_apply]
    grind [inv.held, Spot.source?]
  · intro other query
    simp only [goto, update_apply]
    grind [inv.available, Spot.source?]
  · simp only [goto, update_apply]
    grind

/-- The CAS of a thread that has an entry succeeds. -/
theorem exitOwn
    (inv : state.Inv)
    (isEntered : state.spot thread = .entered)
    (points : state.pointers thread = some tid)
    (flagged : (state.tables.primTable tid).reallocatable = true) :
    Inv (state.goto thread (setFlag state.tables tid false) .left) := by
  have noStealer (other : Thread) :
      (state.spot other).source? ≠ some tid := by
    intro source
    rw [(inv.held source).1] at flagged
    cases flagged
  refine
    ⟨inv.toControl.stays rfl rfl rfl rfl rfl (by simp [isEntered, Spot.locked])
        (by simp [isEntered, Spot.resume?]),
      inv.toMarks.stays rfl rfl (setFlag_reallocated _ _) rfl
        (by simp [isEntered, Spot.resume?]),
      ⟨?_, ?_, ?_⟩, ?_⟩
  · intro query
    simp only [goto, update_apply]
    grind [inv.flagged, setFlag_of_ne, setFlag_reallocatable]
  · intro other query
    simp only [goto, update_apply]
    grind [inv.held, Spot.source?, setFlag_of_ne]
  · intro other query
    simp only [goto, update_apply]
    grind [inv.available, Spot.source?, setFlag_of_ne,
      inv.pointers_unique]
  · simp only [goto, update_apply]
    grind [inv.dummy]

/-- The CAS of the one thread without an entry in a call succeeds. -/
theorem exitDummy
    (inv : state.Inv)
    (isEntered : state.spot thread = .entered)
    (points : state.pointers thread = none)
    (alone :
      ∀ other, other ≠ thread → state.pointers other = none →
        state.spot other ≠ .entered) :
    Inv { state.goto thread state.tables .left with dummy := false } := by
  refine
    ⟨inv.toControl.stays rfl rfl rfl rfl rfl (by simp [isEntered, Spot.locked])
        (by simp [isEntered, Spot.resume?]),
      inv.toMarks.stays rfl rfl (fun _ => rfl) rfl
        (by simp [isEntered, Spot.resume?]),
      ⟨?_, ?_, ?_⟩, ?_⟩
  · intro query
    simp only [goto, update_apply]
    grind [inv.flagged]
  · intro other query
    simp only [goto, update_apply]
    grind [inv.held, Spot.source?]
  · intro other query
    simp only [goto, update_apply]
    grind [inv.available, Spot.source?]
  · simp only [goto, update_apply]
    grind

/-- Reading the mark of an entry: both ways on start a new period. -/
theorem readOwn
    (inv : state.Inv)
    (isLeft : state.spot thread = .left)
    (points : state.pointers thread = some tid)
    {spot : Spot}
    (onward :
      spot = .allocating .exitCall ∨
        spot = .outside ∧
          (state.tables.primTable tid).reallocated = false) :
    Inv { state.goto thread state.tables spot with
      taken := update state.taken tid false } := by
  have marked := inv.marked tid
  refine
    ⟨inv.toControl.stays rfl rfl rfl rfl rfl ?_ ?_,
      ⟨?_, ?_, ?_⟩, ⟨?_, ?_, ?_⟩, ?_⟩
  · rcases onward with rfl | ⟨rfl, _⟩ <;> simp [Spot.locked]
  · rcases onward with rfl | ⟨rfl, _⟩ <;> simp [isLeft, Spot.resume?]
  · intro query
    simp only [goto, update_apply]
    grind [inv.marked, Spot.resume?]
  · intro other query
    simp only [goto, update_apply]
    grind [inv.slowPath, Spot.resume?, inv.pointers_unique]
  · intro query
    simp only [goto, update_apply]
    grind [inv.unused]
  · intro query
    simp only [goto, update_apply]
    grind [inv.flagged]
  · intro other query
    simp only [goto, update_apply]
    grind [inv.held, Spot.source?]
  · intro other query
    simp only [goto, update_apply]
    grind [inv.available, Spot.source?]
  · simp only [goto, update_apply]
    grind [inv.dummy]

/-- The CAS in the loop of `_allocate_scav` takes a flag. -/
theorem takeFlag
    (inv : state.Inv) {resume : Resume} {demands retCounts : Nat}
    {source : Tid} {rest : List Tid}
    (isScanning :
      state.spot thread =
        .scanning resume demands retCounts (source :: rest))
    (flagged : (state.tables.primTable source).reallocatable = true) :
    Inv (state.goto thread (setFlag state.tables source false)
      (.holding resume demands retCounts rest source)) := by
  have isLocked : (state.spot thread).locked = true := by
    rw [isScanning]
    rfl
  -- nobody else holds a flag, since this thread holds the lock
  have noStealer (other : Thread) (query : Tid) :
      (state.spot other).source? ≠ some query := by
    intro isSource
    have same := inv.stealer_unique isLocked isSource
    rw [same, isScanning] at isSource
    cases isSource
  have blocked := inv.flagged flagged
  refine
    ⟨inv.toControl.stays rfl rfl rfl rfl rfl (by simp [isScanning, Spot.locked])
        (by simp [isScanning, Spot.resume?]),
      inv.toMarks.stays rfl rfl (setFlag_reallocated _ _) rfl
        (by simp [isScanning, Spot.resume?]),
      ⟨?_, ?_, ?_⟩, ?_⟩
  · intro query
    simp only [goto, update_apply]
    grind [inv.flagged, setFlag_of_ne, setFlag_reallocatable]
  · intro other query
    simp only [goto, update_apply]
    grind [Spot.source?, setFlag_reallocatable]
  · intro other query
    simp only [goto, update_apply]
    grind [inv.available, Spot.source?, setFlag_of_ne]
  · simp only [goto, update_apply]
    grind [inv.dummy]

/-- `realloc_scav` marks the donor exactly when it takes something. -/
theorem steal
    (inv : state.Inv) {resume : Resume} {demands retCounts : Nat}
    {source : Tid} {rest : List Tid}
    (isHolding :
      state.spot thread = .holding resume demands retCounts rest source)
    {tables : Tables} {cnt : Nat} {among : Tid → Prop}
    (keeps :
      Tables.KeepsFlags among
        (if 0 < cnt then state.tables.markReallocated source
        else state.tables)
        tables) :
    Inv { state.goto thread tables
        (.stolen resume demands retCounts rest source cnt) with
      taken :=
        update state.taken source
          (state.taken source || decide (0 < cnt)) } := by
  have isSource : (state.spot thread).source? = some source := by
    rw [isHolding]
    rfl
  obtain ⟨_, owner, points, isEntered⟩ := inv.held isSource
  have reallocatable (query : Tid) :
      (tables.primTable query).reallocatable =
        (state.tables.primTable query).reallocatable := by
    rw [keeps.reallocatable query]
    split
    · by_cases here : query = source
      · subst query
        simp [Tables.markReallocated]
      · simp [Tables.markReallocated, Tables.updatePrim_of_ne _ _ here]
    · rfl
  have reallocated (query : Tid) :
      (tables.primTable query).reallocated =
        if query = source ∧ 0 < cnt then true
        else (state.tables.primTable query).reallocated := by
    rw [keeps.reallocated query]
    by_cases moved : 0 < cnt
    · by_cases here : query = source
      · subst query
        simp [Tables.markReallocated, moved]
      · simp [Tables.markReallocated, moved, here,
          Tables.updatePrim_of_ne _ _ here]
    · simp [moved]
  refine
    ⟨inv.toControl.stays rfl rfl rfl rfl rfl (by simp [isHolding, Spot.locked])
        (by simp [isHolding, Spot.resume?]),
      ⟨?_, ?_, ?_⟩, ⟨?_, ?_, ?_⟩, ?_⟩
  · intro query
    simp only [goto, update_apply]
    grind [inv.marked, Spot.resume?]
  · intro other query
    simp only [goto, update_apply]
    grind [inv.slowPath, Spot.resume?, inv.pointers_unique]
  · intro query
    simp only [goto, update_apply]
    grind [inv.unused]
  · intro query
    simp only [goto, update_apply]
    grind [inv.flagged]
  · intro other query
    simp only [goto, update_apply]
    grind [inv.held, Spot.source?]
  · intro other query
    simp only [goto, update_apply]
    grind [inv.available, Spot.source?]
  · simp only [goto, update_apply]
    grind [inv.dummy]

/-- The flag is set again; its owner is still in the call. -/
theorem giveBack
    (inv : state.Inv) {resume : Resume} {demands retCounts cnt : Nat}
    {source : Tid} {rest : List Tid}
    (isStolen :
      state.spot thread = .stolen resume demands retCounts rest source cnt)
    {spot : Spot}
    (onward :
      spot = .unlocking resume (retCounts + cnt) ∨
        spot = .scanning resume demands (retCounts + cnt) rest) :
    Inv (state.goto thread (setFlag state.tables source true) spot) := by
  have isSource : (state.spot thread).source? = some source := by
    rw [isStolen]
    rfl
  have blocked := (inv.held isSource).2
  have noOther (other : Thread) (different : other ≠ thread) (query : Tid) :
      (state.spot other).source? ≠ some query := by
    intro otherSource
    exact different
      (inv.stealer_unique (locked_of_source isSource) otherSource)
  refine
    ⟨inv.toControl.stays rfl rfl rfl rfl rfl ?_ ?_,
      inv.toMarks.stays rfl rfl (setFlag_reallocated _ _) rfl ?_,
      ⟨?_, ?_, ?_⟩, ?_⟩
  · rcases onward with rfl | rfl <;> simp [isStolen, Spot.locked]
  · rcases onward with rfl | rfl <;> simp [isStolen, Spot.resume?]
  · rcases onward with rfl | rfl <;> simp [isStolen, Spot.resume?]
  · intro query
    simp only [goto, update_apply]
    grind [inv.flagged, setFlag_of_ne]
  · intro other query
    simp only [goto, update_apply]
    grind [Spot.source?]
  · intro other query
    simp only [goto, update_apply]
    grind [inv.available, Spot.source?, setFlag_of_ne,
      setFlag_reallocatable]
  · simp only [goto, update_apply]
    grind [inv.dummy]

/-- The end of `msh_alloc_ctx` points the thread to its entry. -/
theorem initPrimary
    (inv : state.Inv)
    (registering : (state.spot thread).resume? = some .initPrimary)
    (noSource : (state.spot thread).source? = none)
    (isOwn : state.mshTid thread = some tid)
    {tables : Tables} (keeps : Tables.KeepsFlags (· = tid) state.tables tables)
    (ret : Nat) :
    Inv (state.resumeWith thread tid tables ret .initPrimary) := by
  have noPointer := inv.unpointed registering
  -- no thread uses the entry yet
  have unusedEntry (other : Thread) : state.pointers other ≠ some tid := by
    intro points
    have same : other = thread :=
      Option.some.inj
        ((inv.owned (inv.mshTid_of_pointers points)).symm.trans
          (inv.owned isOwn))
    rw [same, noPointer] at points
    cases points
  have notTaken := inv.unused tid unusedEntry
  have own :
      ((tables.resumeWith tid ret .initPrimary).primTable
          tid).reallocatable = false ∧
        ((tables.resumeWith tid ret .initPrimary).primTable
          tid).reallocated = false := by
    simp [Tables.resumeWith, PrimaryThreadCtx.initPrimaryCtx]
  have others (query : Tid) (different : query ≠ tid) :
      (tables.resumeWith tid ret .initPrimary).primTable query =
        state.tables.primTable query :=
    (Tables.resumeWith_other tables ret .initPrimary different).trans
      (keeps.other query different)
  have notEntered := ne_entered_of_resume registering
  unfold Handshake.resumeWith
  refine ⟨⟨?_, ?_, ?_, ?_⟩, ⟨?_, ?_, ?_⟩, ⟨?_, ?_, ?_⟩, ?_⟩
  · exact inv.owned
  · intro other
    simp only [goto, update_apply]
    grind [inv.pointed, Spot.resume?]
  · intro other
    simp only [goto, update_apply]
    grind [inv.unpointed, Spot.resume?]
  · intro other
    simp only [goto, update_apply]
    grind [inv.locked, Spot.locked]
  · intro query
    simp only [goto, update_apply]
    grind [inv.marked, Spot.resume?]
  · intro other query
    simp only [goto, update_apply]
    grind [inv.slowPath, Spot.resume?]
  · intro query
    simp only [goto, update_apply]
    grind [inv.unused]
  · intro query
    simp only [goto, update_apply]
    grind [inv.flagged]
  · intro other query
    simp only [goto, update_apply]
    grind [inv.held, Spot.source?]
  · intro other query
    simp only [goto, update_apply]
    grind [inv.available, Spot.source?]
  · simp only [goto, update_apply]
    grind [inv.dummy]

/-- The end of the slow path clears the mark. -/
theorem exitCall
    (inv : state.Inv)
    (exiting : (state.spot thread).resume? = some .exitCall)
    (noSource : (state.spot thread).source? = none)
    (isOwn : state.mshTid thread = some tid)
    {tables : Tables} (keeps : Tables.KeepsFlags (· = tid) state.tables tables)
    (ret : Nat) :
    Inv (state.resumeWith thread tid tables ret .exitCall) := by
  have points : state.pointers thread = some tid := by
    rw [inv.pointed (by simp [exiting]), isOwn]
  have notTaken := inv.slowPath points exiting
  have own :
      ((tables.resumeWith tid ret .exitCall).primTable tid).reallocatable =
          (state.tables.primTable tid).reallocatable ∧
        ((tables.resumeWith tid ret .exitCall).primTable tid).reallocated =
          false := by
    have mapped := (tables.primTable tid).tlUpdateNextMap_flags
    simp [Tables.resumeWith, mapped.1, keeps.reallocatable tid]
  have others (query : Tid) (different : query ≠ tid) :
      (tables.resumeWith tid ret .exitCall).primTable query =
        state.tables.primTable query :=
    (Tables.resumeWith_other tables ret .exitCall different).trans
      (keeps.other query different)
  have notEntered := ne_entered_of_resume exiting
  unfold Handshake.resumeWith
  refine
    ⟨inv.toControl.stays rfl rfl rfl rfl rfl (by simp [Spot.locked])
        (by rw [exiting]; decide),
      ⟨?_, ?_, ?_⟩, ⟨?_, ?_, ?_⟩, ?_⟩
  · intro query
    simp only [goto, update_apply]
    grind [inv.marked, Spot.resume?]
  · intro other query
    simp only [goto, update_apply]
    grind [inv.slowPath, Spot.resume?]
  · exact inv.unused
  · intro query
    simp only [goto, update_apply]
    grind [inv.flagged]
  · intro other query
    simp only [goto, update_apply]
    grind [inv.held, Spot.source?]
  · intro other query
    simp only [goto, update_apply]
    grind [inv.available, Spot.source?]
  · simp only [goto, update_apply]
    grind [inv.dummy]

/-- The rest of the scheduler writes no flag. -/
theorem sched
    (inv : state.Inv)
    (scheduling : (state.spot thread).resume? = some .sched)
    (noSource : (state.spot thread).source? = none)
    {tables : Tables} (keeps : Tables.KeepsFlags (· = tid) state.tables tables)
    (ret : Nat) :
    Inv (state.resumeWith thread tid tables ret .sched) := by
  have mapped :
      Tables.KeepsFlags (· = tid) tables (tables.resumeWith tid ret .sched) :=
    .updateOwn tables (fun ctx => ctx.tlUpdateNextMap_flags.1)
      (fun ctx => ctx.tlUpdateNextMap_flags.2)
  have kept := keeps.trans mapped
  have notEntered := ne_entered_of_resume scheduling
  refine
    ⟨inv.toControl.stays rfl rfl rfl rfl rfl (by simp [Spot.locked])
        (by rw [scheduling]; decide),
      inv.toMarks.stays rfl rfl kept.reallocated rfl
        (by rw [scheduling]; decide),
      ⟨?_, ?_, ?_⟩, ?_⟩
  · intro query
    simp only [Handshake.resumeWith, goto, update_apply]
    grind [inv.flagged, kept.reallocatable]
  · intro other query
    simp only [Handshake.resumeWith, goto, update_apply]
    grind [inv.held, kept.reallocatable, Spot.source?]
  · intro other query
    simp only [Handshake.resumeWith, goto, update_apply]
    grind [inv.available, kept.reallocatable, Spot.source?]
  · simp only [Handshake.resumeWith, goto, update_apply]
    grind [inv.dummy]

/-- `allocate_scav` returns to whichever function called it. -/
theorem resumeWith
    (inv : state.Inv) {resume : Resume}
    (resumes : (state.spot thread).resume? = some resume)
    (noSource : (state.spot thread).source? = none)
    (isOwn : state.mshTid thread = some tid)
    {tables : Tables} (keeps : Tables.KeepsFlags (· = tid) state.tables tables)
    (ret : Nat) :
    Inv (state.resumeWith thread tid tables ret resume) := by
  cases resume with
  | initPrimary =>
      exact inv.initPrimary resumes noSource isOwn keeps ret
  | sched =>
      exact inv.sched resumes noSource keeps ret
  | exitCall =>
      exact inv.exitCall resumes noSource isOwn keeps ret

/-- A step of `allocate_scav` that takes no flag and returns nowhere. -/
theorem quietly
    (inv : state.Inv) {spot : Spot} {lock : Option Thread}
    {tables : Tables} {among : Tid → Prop}
    (keeps : Tables.KeepsFlags among state.tables tables)
    (locked :
      ∀ other, ((state.goto thread tables spot).spot other).locked = true →
        lock = some other)
    (notEntered : state.spot thread ≠ .entered ∧ spot ≠ .entered)
    (source : spot.source? = (state.spot thread).source?)
    (resumes :
      spot.resume? = (state.spot thread).resume? ∨
        state.spot thread = .outside ∧ spot.resume? = some .sched ∨
        spot.resume? = none ∧ (state.spot thread).resume? = none) :
    Inv { state.goto thread tables spot with lock := lock } := by
  refine inv.quiet rfl rfl rfl rfl rfl keeps.reallocatable
    keeps.reallocated
    (fun _ different => goto_spot_of_ne different tables spot)
    locked ?_ ?_ ?_ ?_
  · exact ⟨notEntered.1, by simpa using notEntered.2⟩
  · simpa using source
  · rcases resumes with same | ⟨isOutside, isSched⟩ | ⟨after, before⟩
    · simp [same]
    · have before : (state.spot thread).resume? = none := by
        rw [isOutside]
        rfl
      simp [isSched, before]
    · simp [after, before]
  · rcases resumes with same | ⟨isOutside, isSched⟩ | ⟨after, before⟩
    · simp [same]
    · have before : (state.spot thread).resume? = none := by
        rw [isOutside]
        rfl
      simp [isSched, before]
    · simp [after, before]

/-- A quiet step that leaves the lock as it is. -/
theorem quietly_sameLock
    (inv : state.Inv) {spot : Spot}
    {tables : Tables} {among : Tid → Prop}
    (keeps : Tables.KeepsFlags among state.tables tables)
    (locked : spot.locked = true → (state.spot thread).locked = true)
    (notEntered : state.spot thread ≠ .entered ∧ spot ≠ .entered)
    (source : spot.source? = (state.spot thread).source?)
    (resumes :
      spot.resume? = (state.spot thread).resume? ∨
        state.spot thread = .outside ∧ spot.resume? = some .sched ∨
        spot.resume? = none ∧ (state.spot thread).resume? = none) :
    Inv (state.goto thread tables spot) := by
  refine inv.quietly keeps ?_ notEntered source resumes
  intro other isLocked
  by_cases here : other = thread
  · subst other
    rw [goto_spot_self] at isLocked
    exact inv.locked (locked isLocked)
  · rw [goto_spot_of_ne here] at isLocked
    exact inv.locked isLocked

/-- The steps of `allocate_scav` keep the invariant. -/
theorem advance
    (inv : state.Inv) {maxScavPerThread : Int}
    (isOwn : state.mshTid thread = some tid)
    (taken : state.advance? maxScavPerThread thread tid = some next) :
    next.Inv := by
  have unchanged :
      Tables.KeepsFlags (· = tid) state.tables state.tables :=
    .of_primTable rfl
  cases spotEq : state.spot thread with
  | outside => simp [advance?, spotEq] at taken
  | entered => simp [advance?, spotEq] at taken
  | left => simp [advance?, spotEq] at taken
  | wild => simp [advance?, spotEq] at taken
  | allocating resume =>
      simp only [advance?, spotEq] at taken
      split at taken
      · cases taken
        exact inv.resumeWith (by rw [spotEq]; rfl) (by rw [spotEq]; rfl)
          isOwn unchanged 0
      · cases taken
        exact inv.quietly_sameLock unchanged (by simp [Spot.locked])
          (by simp [spotEq]) (by rw [spotEq]; rfl)
          (.inl (by rw [spotEq]; rfl))
  | waiting resume demands =>
      simp only [advance?, spotEq] at taken
      split at taken
      · next free =>
          cases taken
          refine inv.quietly unchanged ?_ (by simp [spotEq])
            (by rw [spotEq]; rfl) (.inl (by rw [spotEq]; rfl))
          intro other isLocked
          by_cases here : other = thread
          · rw [here]
          · rw [goto_spot_of_ne here] at isLocked
            rw [inv.locked isLocked] at free
            cases free
      · cases taken
  | scanning resume demands retCounts rest =>
      cases rest with
      | nil =>
          simp only [advance?, spotEq] at taken
          cases taken
          exact inv.quietly_sameLock unchanged (by simp [spotEq, Spot.locked])
            (by simp [spotEq]) (by rw [spotEq]; rfl)
            (.inl (by rw [spotEq]; rfl))
      | cons source rest =>
          simp only [advance?, spotEq] at taken
          split at taken
          · next flagged =>
              cases taken
              exact inv.takeFlag spotEq flagged
          · cases taken
            exact inv.quietly_sameLock unchanged
              (by simp [spotEq, Spot.locked]) (by simp [spotEq])
              (by rw [spotEq]; rfl) (.inl (by rw [spotEq]; rfl))
  | holding resume demands retCounts rest source =>
      simp only [advance?, spotEq] at taken
      cases taken
      exact inv.steal spotEq
        (Tables.reallocScav_keepsFlags state.tables source tid demands)
  | stolen resume demands retCounts rest source cnt =>
      simp only [advance?, spotEq] at taken
      cases taken
      refine inv.giveBack spotEq ?_
      split
      · exact .inl rfl
      · exact .inr rfl
  | pooling resume demands retCounts =>
      simp only [advance?, spotEq, Option.some.injEq] at taken
      rw [← taken]
      exact inv.quietly_sameLock
        (Tables.takeFromPool_keepsFlags state.tables tid demands _ retCounts)
        (by simp [spotEq, Spot.locked]) (by simp [spotEq])
        (by rw [spotEq]; rfl) (.inl (by rw [spotEq]; rfl))
  | unlocking resume ret =>
      simp only [advance?, spotEq] at taken
      cases taken
      have isLocked : (state.spot thread).locked = true := by
        rw [spotEq]
        rfl
      refine inv.quietly unchanged ?_ (by simp [spotEq])
        (by rw [spotEq]; rfl) (.inl (by rw [spotEq]; rfl))
      intro other otherLocked
      by_cases here : other = thread
      · subst other
        simp [Spot.locked] at otherLocked
      · rw [goto_spot_of_ne here] at otherLocked
        have same :=
          (inv.locked otherLocked).symm.trans (inv.locked isLocked)
        exact absurd (Option.some.inj same) here
  | finishing resume ret =>
      simp only [advance?, spotEq] at taken
      cases taken
      exact inv.resumeWith (by rw [spotEq]; rfl) (by rw [spotEq]; rfl)
        isOwn (Tables.initNewScavs_keepsFlags state.tables tid) ret

end Inv

end Handshake

end Msh
