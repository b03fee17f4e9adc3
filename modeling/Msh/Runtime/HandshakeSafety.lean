import Msh.Runtime.HandshakeInvariant

namespace Msh

open Function TransitionSystem Spot

/-!
# What the handshake guarantees

A thread in a call can always leave it, other threads touch its entry only
meanwhile, and it takes the slow path exactly when it was robbed.  All three
hold in a run exactly when no two threads without entries, which share one
location for both flags, get in each other's way.
-/

namespace Handshake

/--
A thread without an entry takes `dummy` back, or reads it as its mark, while
another such thread is in a blockable call.
-/
def Overlapping (state : Handshake) : HandshakeAction → Prop
  | .exitCas thread =>
      state.pointers thread = none ∧
        ∃ other, other ≠ thread ∧ state.pointers other = none ∧
          state.spot other = .entered
  | .readReallocated thread =>
      state.pointers thread = none ∧
        ∃ other, other ≠ thread ∧ state.pointers other = none ∧
          state.spot other = .entered
  | _ => False

theorem workOn_keepsFlags
    (tables : Tables) (tid : Tid) (ctx : PrimaryThreadCtx)
    (scavTable : Int → CoroutineCtx) (libs : Handle → LibSymbols) :
    Tables.KeepsFlags (· = tid) tables
      (tables.workOn tid ctx scavTable libs) where
  reallocatable query := by
    by_cases here : query = tid
    · subst query
      simp [Tables.workOn]
    · simp [Tables.workOn, Tables.updatePrim_of_ne _ _ here]
  reallocated query := by
    by_cases here : query = tid
    · subst query
      simp [Tables.workOn]
    · simp [Tables.workOn, Tables.updatePrim_of_ne _ _ here]
  other query different := by
    simp [Tables.workOn, Tables.updatePrim_of_ne _ _ different]

/-- Every step that is not such a one keeps the invariant. -/
theorem Inv.step
    {maxScavPerThread : Int} {state next : Handshake}
    {action : HandshakeAction}
    (inv : state.Inv) (taken : Step maxScavPerThread state action next)
    (notOverlapping : ¬ state.Overlapping action) :
    next.Inv := by
  have unchanged :
      Tables.KeepsFlags (fun _ => False) state.tables state.tables :=
    .of_primTable rfl
  unfold Step at taken
  cases action with
  | allocCtx thread tid =>
      simp only [step?] at taken
      split at taken
      · next enabled =>
          cases taken
          exact inv.allocCtx enabled.1 enabled.2.1 enabled.2.2
      · cases taken
  | schedule thread =>
      simp only [step?] at taken
      split at taken
      · next enabled =>
          cases taken
          exact inv.quietly_sameLock unchanged (by simp [Spot.locked])
            (by simp [enabled.1]) (by rw [enabled.1]; rfl)
            (.inr (.inl ⟨enabled.1, rfl⟩))
      · cases taken
  | enter thread =>
      simp only [step?] at taken
      split at taken
      · next isOutside =>
          cases taken
          cases points : state.pointers thread with
          | some tid =>
              simp only [setReallocatable, points]
              exact inv.enterOwn isOutside points
          | none =>
              simp only [setReallocatable, points]
              exact inv.enterDummy isOutside points
      · cases taken
  | exitCas thread =>
      simp only [step?] at taken
      split at taken
      · next enabled =>
          cases taken
          cases points : state.pointers thread with
          | some tid =>
              have flagged := enabled.2
              simp only [reallocatable, points] at flagged
              simp only [setReallocatable, points]
              exact inv.exitOwn enabled.1 points flagged
          | none =>
              have alone (other : Thread) (different : other ≠ thread)
                  (noPointer : state.pointers other = none) :
                  state.spot other ≠ .entered := by
                intro isEntered
                exact notOverlapping
                  ⟨points, other, different, noPointer, isEntered⟩
              simp only [setReallocatable, points]
              exact inv.exitDummy enabled.1 points alone
      · cases taken
  | readReallocated thread =>
      simp only [step?] at taken
      split at taken
      · next isLeft =>
          split at taken
          · next tid points =>
              cases taken
              split
              · exact inv.readOwn isLeft points (.inl rfl)
              · next notMarked =>
                  simp only [reallocated, points, Bool.not_eq_true]
                    at notMarked
                  exact inv.readOwn isLeft points (.inr ⟨rfl, notMarked⟩)
          · split at taken
            · cases taken
              exact inv.quietly_sameLock unchanged (by simp [Spot.locked])
                (by simp [isLeft]) (by rw [isLeft]; rfl)
                (.inl (by rw [isLeft]; rfl))
            · cases taken
              exact inv.quietly_sameLock unchanged (by simp [Spot.locked])
                (by simp [isLeft]) (by rw [isLeft]; rfl)
                (.inl (by rw [isLeft]; rfl))
      · cases taken
  | advance thread =>
      simp only [step?] at taken
      split at taken
      · next tid isOwn =>
          exact inv.advance isOwn taken
      · cases taken
  | work thread ctx scavTable libs =>
      simp only [step?] at taken
      split at taken
      · next tid isOwn =>
          split at taken
          · next isOutside =>
              cases taken
              have worked := workOn_keepsFlags state.tables tid ctx
                scavTable libs
              have notEntered : state.spot thread ≠ .entered := by
                simp [isOutside]
              exact inv.quiet rfl rfl rfl rfl rfl
                worked.reallocatable worked.reallocated
                (fun _ _ => rfl) (fun _ => inv.locked)
                ⟨notEntered, notEntered⟩ rfl Iff.rfl Iff.rfl
          · cases taken
      · cases taken

/-- The invariant holds before any thread has called the runtime. -/
theorem Initial.inv {state : Handshake} (initial : Initial state) :
    state.Inv where
  owned owned := by
    rw [initial.mshTid] at owned
    cases owned
  pointed _ := by rw [initial.pointers, initial.mshTid]
  unpointed _ := initial.pointers _
  locked isLocked := by
    rw [initial.spot] at isLocked
    cases isLocked
  marked tid _ := by rw [initial.reallocated, initial.taken]
  slowPath points := by
    rw [initial.pointers] at points
    cases points
  unused tid _ := initial.taken tid
  flagged flagged := by
    rw [initial.reallocatable] at flagged
    cases flagged
  held source := by
    rw [initial.spot] at source
    cases source
  available points := by
    rw [initial.pointers] at points
    cases points
  dummy := by
    simp [initial.dummy, initial.spot]

/-- Every thread in a call has its flag set, or a stealer holds it. -/
def FlagOrHeld (state : Handshake) : Prop :=
  ∀ thread, state.spot thread = .entered →
    state.reallocatable thread = true ∨
      ∃ tid stealer, state.pointers thread = some tid ∧
        (state.spot stealer).source? = some tid

/-- The thread that takes a step. -/
def actor : HandshakeAction → Thread
  | .allocCtx thread _ => thread
  | .schedule thread => thread
  | .enter thread => thread
  | .exitCas thread => thread
  | .readReallocated thread => thread
  | .advance thread => thread
  | .work thread _ _ _ => thread

/-- What the handshake promises of a step. -/
structure SoundStep (before : Handshake) (action : HandshakeAction)
    (after : Handshake) : Prop where
  flagOrHeld : after.FlagOrHeld
  /-- Only threads in a call have their entries touched by others. -/
  untouched :
    ∀ tid, before.mshTid (actor action) ≠ some tid →
      (∀ thread, before.mshTid thread = some tid →
        before.spot thread ≠ .entered) →
      after.tables.primTable tid = before.tables.primTable tid
  /-- The slow path is taken by the threads that were robbed. -/
  slowPath :
    ∀ thread, action = .readReallocated thread →
      (after.spot thread ≠ .outside ↔ before.takenFrom thread = true)

theorem Inv.flagOrHeld {state : Handshake} (inv : state.Inv) :
    state.FlagOrHeld := by
  intro thread isEntered
  cases points : state.pointers thread with
  | none =>
      refine .inl ?_
      simp only [reallocatable, points]
      exact inv.dummy.mpr ⟨thread, points, isEntered⟩
  | some tid =>
      rcases inv.available points isEntered with flagged | ⟨stealer, held⟩
      · refine .inl ?_
        simpa only [reallocatable, points] using flagged
      · exact .inr ⟨tid, stealer, rfl, held⟩

theorem resumeWith_tables
    (state : Handshake) (thread : Thread) (tid : Tid) (tables : Tables)
    (ret : Nat) (resume : Resume) :
    (state.resumeWith thread tid tables ret resume).tables =
      tables.resumeWith tid ret resume := by
  cases resume <;> rfl

/-- The steps of `allocate_scav` touch only threads in calls. -/
theorem Inv.advance_untouched
    {maxScavPerThread : Int} {state next : Handshake} {thread : Thread}
    {tid : Tid} (inv : state.Inv)
    (taken : state.advance? maxScavPerThread thread tid = some next)
    {query : Tid} (different : query ≠ tid)
    (notInCall :
      ∀ other, state.mshTid other = some query →
        state.spot other ≠ .entered) :
    next.tables.primTable query = state.tables.primTable query := by
  have notSource {source : Tid}
      (blocked :
        ∃ other, state.pointers other = some source ∧
          state.spot other = .entered) :
      query ≠ source := by
    rintro rfl
    obtain ⟨other, points, isEntered⟩ := blocked
    exact notInCall other (inv.mshTid_of_pointers points) isEntered
  cases spotEq : state.spot thread with
  | outside => simp [advance?, spotEq] at taken
  | entered => simp [advance?, spotEq] at taken
  | left => simp [advance?, spotEq] at taken
  | wild => simp [advance?, spotEq] at taken
  | allocating resume =>
      simp only [advance?, spotEq] at taken
      split at taken
      · cases taken
        rw [resumeWith_tables]
        exact Tables.resumeWith_other _ _ _ different
      · cases taken
        rfl
  | waiting resume demands =>
      simp only [advance?, spotEq] at taken
      split at taken
      · cases taken
        rfl
      · cases taken
  | scanning resume demands retCounts rest =>
      cases rest with
      | nil =>
          simp only [advance?, spotEq] at taken
          cases taken
          rfl
      | cons source rest =>
          simp only [advance?, spotEq] at taken
          split at taken
          · next flagged =>
              cases taken
              exact setFlag_of_ne (notSource (inv.flagged flagged)) _
          · cases taken
            rfl
  | holding resume demands retCounts rest source =>
      have isSource : (state.spot thread).source? = some source := by
        rw [spotEq]
        rfl
      have notDonor := notSource (inv.held isSource).2
      have moved :=
        Tables.reallocScav_keepsFlags state.tables source tid demands
      simp only [advance?, spotEq] at taken
      cases taken
      rw [goto_tables, moved.other query (by simp [notDonor, different])]
      split
      · exact Tables.updatePrim_of_ne _ _ notDonor _
      · rfl
  | stolen resume demands retCounts rest source cnt =>
      have isSource : (state.spot thread).source? = some source := by
        rw [spotEq]
        rfl
      simp only [advance?, spotEq] at taken
      cases taken
      exact setFlag_of_ne (notSource (inv.held isSource).2) _
  | pooling resume demands retCounts =>
      simp only [advance?, spotEq, Option.some.injEq] at taken
      have hosted :=
        Tables.takeFromPool_keepsFlags state.tables tid demands
          (List.range maxActiveCrtNum) retCounts
      rw [← taken, goto_tables]
      exact hosted.other query different
  | unlocking resume ret =>
      simp only [advance?, spotEq] at taken
      cases taken
      rfl
  | finishing resume ret =>
      simp only [advance?, spotEq] at taken
      cases taken
      rw [resumeWith_tables]
      exact
        (Tables.resumeWith_other _ _ _ different).trans
          ((Tables.initNewScavs_keepsFlags state.tables tid).other query
            different)

/-- Outside `allocate_scav` a thread touches its own entry. -/
theorem Inv.untouched
    {maxScavPerThread : Int} {state next : Handshake}
    {action : HandshakeAction} (inv : state.Inv)
    (taken : Step maxScavPerThread state action next)
    {query : Tid} (notOwn : state.mshTid (actor action) ≠ some query)
    (notInCall :
      ∀ other, state.mshTid other = some query →
        state.spot other ≠ .entered) :
    next.tables.primTable query = state.tables.primTable query := by
  have setOther (thread : Thread) (flag : Bool)
      (notOwn : state.mshTid thread ≠ some query) :
      (state.setReallocatable thread flag).tables.primTable query =
        state.tables.primTable query := by
    unfold setReallocatable
    split
    · next tid points =>
        refine setFlag_of_ne ?_ flag
        rintro rfl
        exact notOwn (inv.mshTid_of_pointers points)
    · rfl
  unfold Step at taken
  cases action with
  | allocCtx thread tid =>
      simp only [step?] at taken
      split at taken
      · cases taken
        rfl
      · cases taken
  | schedule thread =>
      simp only [step?] at taken
      split at taken
      · cases taken
        rfl
      · cases taken
  | enter thread =>
      simp only [step?] at taken
      split at taken
      · cases taken
        exact setOther thread true notOwn
      · cases taken
  | exitCas thread =>
      simp only [step?] at taken
      split at taken
      · cases taken
        exact setOther thread false notOwn
      · cases taken
  | readReallocated thread =>
      simp only [step?] at taken
      split at taken
      · split at taken
        · cases taken
          split <;> rfl
        · split at taken
          · cases taken
            rfl
          · cases taken
            rfl
      · cases taken
  | advance thread =>
      simp only [step?] at taken
      split at taken
      · next tid isOwn =>
          refine inv.advance_untouched taken ?_ notInCall
          rintro rfl
          exact notOwn isOwn
      · cases taken
  | work thread ctx scavTable libs =>
      simp only [step?] at taken
      split at taken
      · next tid isOwn =>
          split at taken
          · cases taken
            refine (workOn_keepsFlags state.tables tid ctx scavTable
              libs).other query ?_
            rintro rfl
            exact notOwn isOwn
          · cases taken
      · cases taken

/-- Which way a thread goes after reading its mark. -/
theorem slowPath_iff
    {maxScavPerThread : Int} {state next : Handshake} {thread : Thread}
    (taken :
      Step maxScavPerThread state (.readReallocated thread) next) :
    state.spot thread = .left ∧
      (next.spot thread ≠ .outside ↔ state.reallocated thread = true) := by
  simp only [Step, step?] at taken
  split at taken
  · next isLeft =>
      refine ⟨isLeft, ?_⟩
      split at taken
      · cases taken
        by_cases marked : state.reallocated thread = true
        · simp [marked]
        · simp [marked]
      · by_cases marked : state.reallocated thread = true
        · simp only [marked, ↓reduceIte] at taken
          cases taken
          simp [marked]
        · simp only [marked, Bool.false_eq_true, ↓reduceIte] at taken
          cases taken
          simp [marked]
  · cases taken

/-- A thread reads exactly whether it was robbed, if it has an entry. -/
theorem Inv.reallocated_eq
    {state : Handshake} (inv : state.Inv) {thread : Thread} {tid : Tid}
    (points : state.pointers thread = some tid)
    (isLeft : state.spot thread = .left) :
    state.reallocated thread = state.takenFrom thread := by
  simp only [reallocated, takenFrom, points]
  refine inv.marked tid ?_
  intro other otherPoints
  rw [inv.pointers_unique otherPoints points, isLeft]
  nofun

/-- Without an entry it reads whether some other such thread is in a call. -/
theorem Inv.reallocated_dummy_iff
    {state : Handshake} (inv : state.Inv) {thread : Thread}
    (points : state.pointers thread = none)
    (isLeft : state.spot thread = .left) :
    state.reallocated thread = true ↔
      ∃ other, other ≠ thread ∧ state.pointers other = none ∧
        state.spot other = .entered := by
  simp only [reallocated, points, inv.dummy]
  constructor
  · rintro ⟨other, noPointer, isEntered⟩
    refine ⟨other, ?_, noPointer, isEntered⟩
    rintro rfl
    rw [isLeft] at isEntered
    cases isEntered
  · rintro ⟨other, _, noPointer, isEntered⟩
    exact ⟨other, noPointer, isEntered⟩

/-- The first of two threads to leave takes the other's flag with it. -/
theorem exitCas_breaks
    {maxScavPerThread : Int} {state next : Handshake}
    {thread other : Thread}
    (taken : Step maxScavPerThread state (.exitCas thread) next)
    (noPointer : state.pointers thread = none)
    (different : other ≠ thread)
    (otherPointer : state.pointers other = none)
    (isEntered : state.spot other = .entered) :
    ¬ next.FlagOrHeld := by
  intro flagOrHeld
  simp only [Step, step?, setReallocatable, noPointer] at taken
  split at taken
  · cases taken
    have stillEntered :
        update state.spot thread .left other = .entered := by
      rw [update_of_ne different, isEntered]
    rcases flagOrHeld other stillEntered with flagged | ⟨_, _, points, _⟩
    · simp [reallocatable, goto, otherPointer] at flagged
    · simp [goto, otherPointer] at points
  · cases taken

/-- The promise fails in exactly the overlapping steps. -/
theorem Inv.soundStep_iff
    {maxScavPerThread : Int} {state next : Handshake}
    {action : HandshakeAction} (inv : state.Inv)
    (taken : Step maxScavPerThread state action next) :
    SoundStep state action next ↔ ¬ state.Overlapping action := by
  constructor
  · intro sound overlapping
    cases action with
    | exitCas thread =>
        obtain ⟨noPointer, other, different, otherPointer, isEntered⟩ :=
          overlapping
        exact exitCas_breaks taken noPointer different otherPointer isEntered
          sound.flagOrHeld
    | readReallocated thread =>
        obtain ⟨noPointer, others⟩ := overlapping
        obtain ⟨isLeft, slow⟩ := slowPath_iff taken
        have marked :=
          (inv.reallocated_dummy_iff noPointer isLeft).mpr others
        have robbed := (sound.slowPath thread rfl).mp (slow.mpr marked)
        simp [takenFrom, noPointer] at robbed
    | allocCtx _ _ => exact overlapping
    | schedule _ => exact overlapping
    | enter _ => exact overlapping
    | advance _ => exact overlapping
    | work _ _ _ _ => exact overlapping
  · intro notOverlapping
    refine ⟨(inv.step taken notOverlapping).flagOrHeld,
      fun _ notOwn => inv.untouched taken notOwn, ?_⟩
    rintro thread rfl
    obtain ⟨isLeft, slow⟩ := slowPath_iff taken
    rw [slow]
    cases points : state.pointers thread with
    | some tid =>
        rw [inv.reallocated_eq points isLeft]
    | none =>
        have notMarked : ¬ state.reallocated thread = true := by
          rw [inv.reallocated_dummy_iff points isLeft]
          exact fun others => notOverlapping ⟨points, others⟩
        simp [notMarked, takenFrom, points]

/--
In every run of any number of threads, all steps keep the promise exactly
when no thread without an entry takes `dummy` back, or reads it, while
another one is in a blockable call.
-/
theorem soundSteps_iff
    {maxScavPerThread : Int} {state : Handshake} (initial : Initial state)
    {run : List (HandshakeAction × Handshake)}
    (valid : FiniteRun (Step maxScavPerThread) state run) :
    EveryStep
        (fun before action =>
          ∀ after, Step maxScavPerThread before action after →
            SoundStep before action after)
        state run ↔
      EveryStep (fun before action => ¬ before.Overlapping action)
        state run := by
  refine FiniteRun.everyStep_iff_everyStep Inv ?_ ?_ valid initial.inv
  · intro before action after inv notOverlapping taken
    exact inv.step taken notOverlapping
  · intro before action after inv taken
    rw [← inv.soundStep_iff taken]
    constructor
    · exact fun sound => sound after taken
    · intro sound other otherTaken
      have same : other = after :=
        Option.some.inj (otherTaken.symm.trans taken)
      rw [same]
      exact sound

/-- The process before its threads call the runtime. -/
def start : Handshake where
  tables := Tables.zeroed
  dummy := false
  lock := none
  owner _ := none
  mshTid _ := none
  pointers _ := none
  spot _ := .outside
  taken _ := false

theorem start_initial : start.Initial :=
  ⟨rfl, rfl, fun _ => rfl, fun _ => rfl, fun _ => rfl, fun _ => rfl,
    fun _ => rfl, fun _ => rfl, fun _ => rfl⟩

/-- A thread without an entry is in a call together with one that has one. -/
def twoCalls : List (HandshakeAction × Handshake) :=
  execute (step? 0) start
    [.allocCtx 1 0, .advance 1, .enter 1, .enter 0, .exitCas 0,
      .readReallocated 0, .exitCas 1, .readReallocated 1]

theorem soundSteps_twoCalls :
    EveryStep
      (fun before action =>
        ∀ after, Step 0 before action after →
          SoundStep before action after)
      start twoCalls := by
  have valid : FiniteRun (Step 0) start twoCalls :=
    execute_valid (step? 0) start _
  have noNeed : (Tables.zeroed.primTable 0).needMoreScav 0 = 0 := by
    decide +kernel
  refine (soundSteps_iff start_initial valid).mpr ?_
  simp [twoCalls, execute, step?, start, goto, setReallocatable, setFlag,
    reallocatable, reallocated, EveryStep, Overlapping, advance?, noNeed,
    Handshake.resumeWith, Tables.resumeWith,
    PrimaryThreadCtx.initPrimaryCtx, update_apply]

/-- Take the given steps from the start. -/
def startRun (actions : List HandshakeAction) : Handshake :=
  match (execute (step? 1) start actions).getLast? with
  | none => start
  | some entry => entry.2

theorem startRun_reachable (actions : List HandshakeAction) :
    Reachable Initial (Step 1) (startRun actions) := by
  have isStart : Reachable Initial (Step 1) start := .start start_initial
  unfold startRun
  split
  · exact isStart
  · next entry isLast =>
      exact isStart.of_finiteRun (execute_valid (step? 1) start actions)
        entry (List.mem_of_getLast? isLast)

/-- Two threads without entries are in calls, and the first one leaves. -/
def hung : Handshake :=
  startRun [.enter 0, .enter 1, .exitCas 0]

/-- The second one enters before the first one has read its mark. -/
def lost : Handshake :=
  startRun [.enter 0, .exitCas 0, .enter 1, .readReallocated 0]

/--
The second thread can never leave its call: its flag is gone, and no stealer
will set it again.  A thread that was never robbed takes the slow path.
-/
theorem twoOutsiders_unsound :
    (Reachable Initial (Step 1) hung ∧ ¬ hung.FlagOrHeld) ∧
      Reachable Initial (Step 1) lost ∧ lost.spot 0 = .wild ∧
        lost.takenFrom 0 = false := by
  refine ⟨⟨startRun_reachable _, ?_⟩, startRun_reachable _, ?_, rfl⟩
  · intro flagOrHeld
    have isEntered : hung.spot 1 = .entered := by
      decide +kernel
    have notFlagged : hung.reallocatable 1 = false := by
      decide +kernel
    have noPointer : hung.pointers 1 = none := by
      decide +kernel
    rcases flagOrHeld 1 isEntered with flagged | ⟨_, _, points, _⟩
    · rw [notFlagged] at flagged
      cases flagged
    · rw [noPointer] at points
      cases points
  · decide +kernel

end Handshake

end Msh
