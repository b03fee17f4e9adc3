import Msh.Runtime.StepCases

namespace Msh

/-!
# The flags of a primary thread

`reallocatable` and `reallocated` are written in few places.  `KeepsFlags`
says of an operation that it writes neither and changes only the entries of
the given threads; `realloc_scav` besides sets the donor's `reallocated`, and
does so exactly when it moved a scavenger.
-/

namespace Tables

/-- `after` has the flags of `before`, and all but the given entries. -/
structure KeepsFlags (among : Tid → Prop) (before after : Tables) : Prop where
  reallocatable :
    ∀ tid, (after.primTable tid).reallocatable =
      (before.primTable tid).reallocatable
  reallocated :
    ∀ tid, (after.primTable tid).reallocated =
      (before.primTable tid).reallocated
  other :
    ∀ tid, ¬ among tid → after.primTable tid = before.primTable tid

namespace KeepsFlags

variable {among : Tid → Prop} {first second third : Tables}

theorem of_primTable (same : second.primTable = first.primTable) :
    KeepsFlags among first second where
  reallocatable _ := by rw [same]
  reallocated _ := by rw [same]
  other _ _ := by rw [same]

theorem trans
    (earlier : KeepsFlags among first second)
    (later : KeepsFlags among second third) :
    KeepsFlags among first third where
  reallocatable tid :=
    (later.reallocatable tid).trans (earlier.reallocatable tid)
  reallocated tid := (later.reallocated tid).trans (earlier.reallocated tid)
  other tid notAmong :=
    (later.other tid notAmong).trans (earlier.other tid notAmong)

/-- Rewriting one of the entries in its other fields. -/
theorem updatePrim
    (tables : Tables) {tid : Tid} (isAmong : among tid)
    {f : PrimaryThreadCtx → PrimaryThreadCtx}
    (reallocatable :
      ∀ ctx, (f ctx).reallocatable = ctx.reallocatable)
    (reallocated : ∀ ctx, (f ctx).reallocated = ctx.reallocated) :
    KeepsFlags among tables (tables.updatePrim tid f) where
  reallocatable query := by
    by_cases here : query = tid
    · rw [here, updatePrim_self, reallocatable]
    · rw [updatePrim_of_ne _ _ here]
  reallocated query := by
    by_cases here : query = tid
    · rw [here, updatePrim_self, reallocated]
    · rw [updatePrim_of_ne _ _ here]
  other query notAmong := by
    refine updatePrim_of_ne _ _ ?_ _
    rintro rfl
    exact notAmong isAmong

theorem updateOwn
    (tables : Tables) {tid : Tid}
    {f : PrimaryThreadCtx → PrimaryThreadCtx}
    (reallocatable :
      ∀ ctx, (f ctx).reallocatable = ctx.reallocatable)
    (reallocated : ∀ ctx, (f ctx).reallocated = ctx.reallocated) :
    KeepsFlags (· = tid) tables (tables.updatePrim tid f) :=
  @updatePrim (· = tid) tables tid rfl f reallocatable reallocated

end KeepsFlags

end Tables

namespace PrimaryThreadCtx

theorem tlUpdateNextMap_flags (ctx : PrimaryThreadCtx) :
    ctx.tlUpdateNextMap.reallocatable = ctx.reallocatable ∧
      ctx.tlUpdateNextMap.reallocated = ctx.reallocated := by
  unfold tlUpdateNextMap
  split <;> exact ⟨rfl, rfl⟩

end PrimaryThreadCtx

namespace Tables

/-- Set the mark that scavengers of a thread have been moved away. -/
def markReallocated (tables : Tables) (source : Tid) : Tables :=
  tables.updatePrim source fun ctx => { ctx with reallocated := true }

theorem KeepsFlags.markReallocated
    {among : Tid → Prop} {before after : Tables} {source : Tid}
    (keeps : KeepsFlags among before after) :
    KeepsFlags among (before.markReallocated source)
      (after.markReallocated source) where
  reallocatable tid := by
    by_cases here : tid = source
    · subst tid
      simpa [Tables.markReallocated] using keeps.reallocatable source
    · simpa [Tables.markReallocated, updatePrim_of_ne _ _ here] using
        keeps.reallocatable tid
  reallocated tid := by
    by_cases here : tid = source
    · subst tid
      simp [Tables.markReallocated]
    · simpa [Tables.markReallocated, updatePrim_of_ne _ _ here] using
        keeps.reallocated tid
  other tid notAmong := by
    by_cases here : tid = source
    · subst tid
      simp [Tables.markReallocated, keeps.other source notAmong]
    · simpa [Tables.markReallocated, updatePrim_of_ne _ _ here] using
        keeps.other tid notAmong

section Realloc

variable {tables after : Tables} {source target : Tid}

/-- An iteration of `realloc_scav` that ends the loop writes no flag. -/
theorem reallocOne_stopped
    (stopped : tables.reallocOne source target = (after, false)) :
    KeepsFlags (fun tid => tid = source ∨ tid = target) tables after := by
  simp only [reallocOne] at stopped
  split at stopped
  · cases stopped
    exact .of_primTable rfl
  · split at stopped
    · simp only [Prod.mk.injEq, and_true] at stopped
      subst stopped
      split
      · exact .updatePrim tables (.inl rfl) (fun _ => rfl) (fun _ => rfl)
      · refine .trans ?_
          (.updatePrim _ (.inl rfl) (fun _ => rfl) (fun _ => rfl))
        exact .updatePrim tables (.inl rfl) (fun _ => rfl) (fun _ => rfl)
    · simp at stopped

/-- One that moves a scavenger marks the donor and writes no other flag. -/
theorem reallocOne_moved
    (moved : tables.reallocOne source target = (after, true)) :
    KeepsFlags (fun tid => tid = source ∨ tid = target)
      (tables.markReallocated source) after := by
  simp only [reallocOne] at moved
  split at moved
  · simp at moved
  · split at moved
    · simp at moved
    · simp only [Prod.mk.injEq, and_true] at moved
      subst moved
      apply KeepsFlags.markReallocated
      refine .trans ?_ (.of_primTable (updateScav_primTable _ _ _))
      refine .trans ?_ (.of_primTable (writeCrtPos_primTable _ _ _))
      refine .trans ?_
        (.updatePrim _ (.inr rfl) (fun _ => rfl) (fun _ => rfl))
      refine .trans ?_
        (.updatePrim _ (.inr rfl)
          (fun ctx => ctx.tlUpdateNextMap_flags.1)
          (fun ctx => ctx.tlUpdateNextMap_flags.2))
      refine .trans ?_
        (.updatePrim _ (.inl rfl) (fun _ => rfl) (fun _ => rfl))
      refine .trans ?_
        (.updatePrim _ (.inr rfl) (fun _ => rfl) (fun _ => rfl))
      refine .trans ?_
        (.updatePrim _ (.inr rfl) (fun _ => rfl) (fun _ => rfl))
      exact .updatePrim tables (.inl rfl) (fun _ => rfl) (fun _ => rfl)

theorem markReallocated_markReallocated (tables : Tables) (source : Tid) :
    (tables.markReallocated source).markReallocated source =
      tables.markReallocated source := by
  simp [markReallocated, updatePrim]

/-- `realloc_scav` marks the donor exactly when it moved a scavenger. -/
theorem reallocScav_keepsFlags
    (tables : Tables) (source target : Tid) (demands : Nat) :
    KeepsFlags (fun tid => tid = source ∨ tid = target)
      (if 0 < (tables.reallocScav source target demands).2 then
        tables.markReallocated source
      else tables)
      (tables.reallocScav source target demands).1 := by
  induction demands generalizing tables with
  | zero =>
      exact .of_primTable rfl
  | succ demands inductionHypothesis =>
      rw [reallocScav]
      rcases one : tables.reallocOne source target with ⟨after, _ | _⟩
      · exact reallocOne_stopped one
      · have marked := reallocOne_moved one
        have rest := inductionHypothesis after
        simp only [Nat.zero_lt_succ, ↓reduceIte]
        split at rest
        · have again := @KeepsFlags.markReallocated _ _ _ source marked
          rw [markReallocated_markReallocated] at again
          exact again.trans rest
        · exact marked.trans rest

end Realloc

/-- Writing a scavenger's symbols writes no flag. -/
theorem setScavSymbol_keepsFlags
    (tables : Tables) (target : Tid) (idx : Int) (pos : Nat) :
    KeepsFlags (· = target) tables
      (tables.setScavSymbol target idx pos) := by
  simp only [setScavSymbol]
  split
  · exact .of_primTable rfl
  · split
    · exact .of_primTable rfl
    · refine .trans (.of_primTable ?_)
        (.updateOwn _ (fun _ => rfl) (fun _ => rfl))
      rfl

/-- Hosting a scavenger of the pool writes no flag. -/
theorem hostScav_keepsFlags
    (tables : Tables) (target : Tid) (idx : Int) (pos : Nat) :
    KeepsFlags (· = target) tables (tables.hostScav target idx pos) := by
  simp only [hostScav]
  refine .trans ?_ (.of_primTable (updateScav_primTable _ _ _))
  refine .trans ?_ (setScavSymbol_keepsFlags _ _ _ _)
  exact .updateOwn tables (fun _ => rfl) (fun _ => rfl)

/-- The loop over the scavenger pool writes no flag. -/
theorem takeFromPool_keepsFlags
    (tables : Tables) (target : Tid) (demands : Nat) (idxs : List Nat)
    (retCounts : Nat) :
    KeepsFlags (· = target) tables
      (tables.takeFromPool target demands idxs retCounts).1 := by
  induction idxs generalizing tables retCounts with
  | nil =>
      exact .of_primTable rfl
  | cons idx rest inductionHypothesis =>
      unfold takeFromPool
      split
      · split
        · exact .of_primTable rfl
        · next pos _ =>
            have hosted := hostScav_keepsFlags tables target idx pos
            simp only
            split
            · exact hosted
            · exact hosted.trans (inductionHypothesis _ _)
      · exact inductionHypothesis tables retCounts

/-- `call_init_for_new_scav` and `set_special_next` write no flag. -/
theorem initNewScavs_keepsFlags (tables : Tables) (tid : Tid) :
    KeepsFlags (· = tid) tables (tables.initNewScavs tid) := by
  have called : KeepsFlags (· = tid) tables
      (tables.callInitForNewScav tid) :=
    .of_primTable (Local.callInitForNewScav tables)
  have linked : KeepsFlags (· = tid) (tables.callInitForNewScav tid)
      (tables.initNewScavs tid) :=
    .updateOwn _ (fun _ => rfl) (fun _ => rfl)
  exact called.trans linked

end Tables

end Msh
