import Mathlib.Logic.Relation
import Msh.Runtime.HandshakeInvariant

namespace Msh

open Function Config

/-!
# The steps of `allocate_scav` in one go

The machine of primary threads takes the locked section of `allocate_scav` in
one step.  The steps of the handshake, taken without an interruption, do to
the tables what that step does.
-/

namespace Handshake

/-- Steps of `allocate_scav` taken by one thread. -/
abbrev AdvanceRun (maxScavPerThread : Int) (thread : Thread) (tid : Tid) :
    Handshake → Handshake → Prop :=
  Relation.ReflTransGen fun before after =>
    before.advance? maxScavPerThread thread tid = some after

variable
  {maxScavPerThread : Int} {thread : Thread} {tid : Tid}
  {resume : Resume} {demands : Nat}

/-- The loop over the other threads is `stealScavs`. -/
theorem scanning_run
    {rest : List Tid} {retCounts : Nat} {state : Handshake}
    (isScanning :
      state.spot thread = .scanning resume demands retCounts rest) :
    ∃ after, AdvanceRun maxScavPerThread thread tid state after ∧
      after.tables =
        (state.tables.stealScavs tid demands rest retCounts).1 ∧
      after.spot thread =
        if (state.tables.stealScavs tid demands rest retCounts).2.2 then
          .unlocking resume
            (state.tables.stealScavs tid demands rest retCounts).2.1
        else
          .pooling resume demands
            (state.tables.stealScavs tid demands rest retCounts).2.1 := by
  induction rest generalizing state retCounts with
  | nil =>
      have pools :
          state.advance? maxScavPerThread thread tid =
            some (state.goto thread state.tables
              (.pooling resume demands retCounts)) := by
        simp only [advance?, isScanning]
      exact ⟨_, .single pools, rfl, by simp [Tables.stealScavs, goto]⟩
  | cons source rest inductionHypothesis =>
      by_cases flagged :
          (state.tables.primTable source).reallocatable = true
      · have takes :
            state.advance? maxScavPerThread thread tid =
              some (state.goto thread (setFlag state.tables source false)
                (.holding resume demands retCounts rest source)) := by
          simp only [advance?, isScanning, flagged, ↓reduceIte]
        generalize heldEq :
          state.goto thread (setFlag state.tables source false)
            (.holding resume demands retCounts rest source) = held at takes
        have isHolding :
            held.spot thread =
              .holding resume demands retCounts rest source := by
          rw [← heldEq]
          exact Inv.goto_spot_self _ _
        have heldTables : held.tables = setFlag state.tables source false := by
          rw [← heldEq]
          rfl
        generalize movedEq :
          held.tables.reallocScav source tid demands = moved
        have robs :
            held.advance? maxScavPerThread thread tid =
              some { held.goto thread moved.1
                  (.stolen resume demands retCounts rest source moved.2) with
                taken :=
                  update held.taken source
                    (held.taken source || decide (0 < moved.2)) } := by
          simp only [advance?, isHolding, movedEq]
        generalize robbedEq :
          { held.goto thread moved.1
              (.stolen resume demands retCounts rest source moved.2) with
            taken :=
              update held.taken source
                (held.taken source || decide (0 < moved.2)) } = robbed at robs
        have isStolen :
            robbed.spot thread =
              .stolen resume demands retCounts rest source moved.2 := by
          rw [← robbedEq]
          exact update_self thread _ held.spot
        have robbedTables : robbed.tables = moved.1 := by
          rw [← robbedEq]
          rfl
        have returns :
            robbed.advance? maxScavPerThread thread tid =
              some (robbed.goto thread (setFlag moved.1 source true)
                (if demands ≤ retCounts + moved.2 then
                  .unlocking resume (retCounts + moved.2)
                else .scanning resume demands (retCounts + moved.2) rest)) := by
          simp only [advance?, isStolen, robbedTables]
        have three :
            AdvanceRun maxScavPerThread thread tid state
              (robbed.goto thread (setFlag moved.1 source true)
                (if demands ≤ retCounts + moved.2 then
                  .unlocking resume (retCounts + moved.2)
                else .scanning resume demands (retCounts + moved.2) rest)) :=
          .head takes (.head robs (.single returns))
        rw [heldTables] at movedEq
        simp only [setFlag] at movedEq three
        simp only [Tables.stealScavs, flagged, ↓reduceIte, movedEq]
        by_cases enough : demands ≤ retCounts + moved.2
        · simp only [enough, ↓reduceIte] at three ⊢
          exact ⟨_, three, rfl, Inv.goto_spot_self _ _⟩
        · simp only [enough, ↓reduceIte] at three ⊢
          obtain ⟨after, run, tables, spot⟩ :=
            inductionHypothesis (Inv.goto_spot_self _ _)
          exact ⟨after, three.trans run, tables, spot⟩
      · have passes :
            state.advance? maxScavPerThread thread tid =
              some (state.goto thread state.tables
                (.scanning resume demands retCounts rest)) := by
          simp only [advance?, isScanning, flagged, Bool.false_eq_true,
            ↓reduceIte]
        obtain ⟨after, run, tables, spot⟩ :=
          inductionHypothesis
            (Inv.goto_spot_self state.tables
              (.scanning resume demands retCounts rest))
        simp only [Tables.stealScavs, flagged, Bool.false_eq_true,
          ↓reduceIte]
        exact ⟨after, .head passes run, tables, spot⟩

/-- From the lock to its release, the steps are `_allocate_scav`. -/
theorem lockedSection_run
    {state : Handshake}
    (isWaiting : state.spot thread = .waiting resume demands)
    (free : state.lock = none) :
    ∃ after, AdvanceRun maxScavPerThread thread tid state after ∧
      after.tables = (state.tables.allocateScavLocked tid demands).1 ∧
      after.spot thread =
        .finishing resume (state.tables.allocateScavLocked tid demands).2 := by
  have locks :
      state.advance? maxScavPerThread thread tid =
        some
          { state.goto thread state.tables
              (.scanning resume demands 0 (List.finRange maxThreadNum)) with
            lock := some thread } := by
    simp only [advance?, isWaiting, free, ↓reduceIte]
  generalize enteredEq :
    { state.goto thread state.tables
        (.scanning resume demands 0 (List.finRange maxThreadNum)) with
      lock := some thread } = entered at locks
  have isScanning :
      entered.spot thread =
        .scanning resume demands 0 (List.finRange maxThreadNum) := by
    rw [← enteredEq]
    exact update_self thread _ state.spot
  have enteredTables : entered.tables = state.tables := by
    rw [← enteredEq]
    rfl
  obtain ⟨scanned, run, tables, spot⟩ :=
    @scanning_run maxScavPerThread thread tid resume demands _ _ entered
      isScanning
  rw [enteredTables] at tables spot
  unfold Tables.allocateScavLocked
  generalize
    state.tables.stealScavs tid demands (List.finRange maxThreadNum) 0 =
      stolen at tables spot ⊢
  have releases {last : Handshake} {ret : Nat}
      (isUnlocking : last.spot thread = .unlocking resume ret) :
      last.advance? maxScavPerThread thread tid =
        some { last.goto thread last.tables (.finishing resume ret) with
          lock := none } := by
    simp only [advance?, isUnlocking]
  by_cases returned : stolen.2.2 = true
  · simp only [returned, ↓reduceIte] at spot ⊢
    exact ⟨_, .head locks (run.tail (releases spot)), tables,
      update_self thread _ scanned.spot⟩
  · simp only [returned, Bool.false_eq_true, ↓reduceIte] at spot ⊢
    generalize hostedEq :
      stolen.1.takeFromPool tid demands (List.range maxActiveCrtNum)
        stolen.2.1 = hosted
    have hosts :
        scanned.advance? maxScavPerThread thread tid =
          some (scanned.goto thread hosted.1 (.unlocking resume hosted.2)) := by
      simp only [advance?, spot, tables, hostedEq]
    have isUnlocking :
        (scanned.goto thread hosted.1 (.unlocking resume hosted.2)).spot
          thread = .unlocking resume hosted.2 :=
      Inv.goto_spot_self _ _
    exact ⟨_, .head locks ((run.tail hosts).tail (releases isUnlocking)),
      rfl, update_self thread _ _⟩

end Handshake

end Msh
