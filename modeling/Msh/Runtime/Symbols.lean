import Msh.Runtime.Ownership

namespace Msh

open Function BoundedSearch SlotAssignment Config

/-!
# The symbols of hosted scavengers

Three operations write the symbols through which a scavenger's library knows
its slot: `set_scav_symbol` when it is first hosted, `tl_swap_crts` and
`realloc_scav` when it is moved.  `Everywhere` is a property of the symbols of
all hosted scavengers and their positions, and the lemmas say what each
operation needs in order to keep it, provided no two entries of `SCAV_TABLE`
share a library.
-/

namespace Tables

/-- The symbols that the library of an entry of `SCAV_TABLE` exports. -/
def symbols (tables : Tables) (idx : Int) : Option LibSymbols :=
  (tables.scavTable idx).libHandle.map tables.libs

/-- No library is loaded for two entries of `SCAV_TABLE`. -/
def Distinct (tables : Tables) : Prop :=
  ∀ first second handle, ScavIdx first → ScavIdx second →
    (tables.scavTable first).libHandle = some handle →
    (tables.scavTable second).libHandle = some handle →
    first = second

/-- A property of positions and symbols, for every hosted scavenger. -/
def Everywhere
    (P : Nat → Option LibSymbols → Prop) (tables : Tables) : Prop :=
  ∀ tid pos idx, tables.occupant (tid, pos) = some idx →
    P pos (tables.symbols idx)

/-- `after` has the loaded libraries and the symbols of `before`. -/
structure SameSymbols (before after : Tables) : Prop where
  libHandle :
    ∀ idx,
      (after.scavTable idx).libHandle = (before.scavTable idx).libHandle
  libs : after.libs = before.libs

/-- Nothing was moved or placed and no symbol written. -/
structure Quiet (before after : Tables) : Prop where
  symbols : SameSymbols before after
  occupant :
    ∀ slot idx, after.occupant slot = some idx →
      before.occupant slot = some idx

/-- `after` differs from `before` in the symbols of one library. -/
structure Rewritten
    (before after : Tables) (idx : Int)
    (f : LibSymbols → LibSymbols) : Prop where
  libHandle :
    ∀ item,
      (after.scavTable item).libHandle = (before.scavTable item).libHandle
  self : after.symbols idx = (before.symbols idx).map f
  other :
    ∀ item handle, (before.scavTable item).libHandle = some handle →
      (before.scavTable idx).libHandle ≠ some handle →
      after.symbols item = before.symbols item

/-- What `set_scav_symbol` writes. -/
def namedAt (ctx : CoroutineCtx) (pos : Nat) (lib : LibSymbols) :
    LibSymbols where
  argc := ctx.argc
  argv := ctx.argv
  crtPos := (pos * sizeofYieldCtx : Nat)
  loopCounterLoc :=
    lib.loopCounterLoc.map fun _ =>
      ((offsetofLoopCounter + loopCounterBytes * pos : Nat) : Int)

/-- What `tl_swap_crts` and `realloc_scav` write. -/
def renamedTo (pos : Nat) (lib : LibSymbols) : LibSymbols :=
  { lib with crtPos := pos }

/-- A hosted scavenger was moved to a free slot and renamed. -/
structure SlotMoved
    (before after : Tables) (idx : Int)
    (source : Tid) (fromPos : Nat) (target : Tid) (toPos : Nat) :
    Prop where
  slots : Moved before after source fromPos target toPos idx
  held : before.occupant (source, fromPos) = some idx
  isPos : ScavPos toPos
  free : (before.primTable target).idxList toPos = -1
  symbols : Rewritten before after idx (renamedTo toPos)

namespace SameSymbols

variable {first second third : Tables}

theorem refl (tables : Tables) : SameSymbols tables tables :=
  ⟨fun _ => rfl, rfl⟩

theorem trans
    (earlier : SameSymbols first second)
    (later : SameSymbols second third) :
    SameSymbols first third where
  libHandle idx := (later.libHandle idx).trans (earlier.libHandle idx)
  libs := later.libs.trans earlier.libs

theorem symbols_eq (same : SameSymbols first second) (idx : Int) :
    second.symbols idx = first.symbols idx := by
  simp only [symbols, same.libHandle, same.libs]

theorem updatePrim
    (tables : Tables) (tid : Tid)
    (f : PrimaryThreadCtx → PrimaryThreadCtx) :
    SameSymbols tables (tables.updatePrim tid f) :=
  ⟨fun _ => rfl, rfl⟩

theorem updateScav
    (tables : Tables) (idx : Int) {f : CoroutineCtx → CoroutineCtx}
    (libHandle :
      (f (tables.scavTable idx)).libHandle =
        (tables.scavTable idx).libHandle) :
    SameSymbols tables (tables.updateScav idx f) where
  libHandle other := by
    by_cases same : other = idx
    · subst other
      simpa using libHandle
    · rw [updateScav_of_ne _ _ same]
  libs := rfl

theorem tlFinishCrt (tables : Tables) (tid : Tid) (pos : Nat) :
    SameSymbols tables (tables.tlFinishCrt tid pos) := by
  simp only [Tables.tlFinishCrt]
  split
  · exact .updatePrim _ _ _
  · exact
      ((SameSymbols.updatePrim _ _ _).trans (.updatePrim _ _ _)).trans
        (.updateScav _ _ rfl)

theorem afterReturn (tables : Tables) (tid : Tid) (pos : Nat) :
    SameSymbols tables (tables.afterReturn tid pos) :=
  (SameSymbols.tlFinishCrt tables tid pos).trans (.updatePrim _ _ _)

theorem resumeWith
    (tables : Tables) (tid : Tid) (ret : Nat) (resume : Resume) :
    SameSymbols tables (tables.resumeWith tid ret resume) := by
  cases resume <;> exact ⟨fun _ => rfl, rfl⟩

theorem callInitForNewScav (tables : Tables) (tid : Tid) :
    SameSymbols tables (tables.callInitForNewScav tid) := by
  unfold Tables.callInitForNewScav
  generalize List.range' 1 maxCrtPerThread = positions
  induction positions generalizing tables with
  | nil =>
      exact .refl tables
  | cons pos rest inductionHypothesis =>
      rw [List.foldl_cons]
      refine SameSymbols.trans ?_ (inductionHypothesis _)
      simp only
      split
      · exact .refl tables
      · exact .updateScav tables _ rfl

theorem initNewScavs (tables : Tables) (tid : Tid) :
    SameSymbols tables (tables.initNewScavs tid) :=
  (SameSymbols.callInitForNewScav tables tid).trans (.updatePrim _ _ _)

end SameSymbols

section Writes

variable (tables : Tables)

/-- Writing `crt_pos` rewrites the symbols of one library. -/
theorem writeCrtPos_rewritten (idx : Int) (pos : Nat) :
    Rewritten tables (tables.writeCrtPos idx pos) idx (renamedTo pos) where
  libHandle item := by rw [writeCrtPos_scavTable]
  self := by
    simp only [symbols, writeCrtPos_scavTable]
    unfold writeCrtPos
    cases loaded : (tables.scavTable idx).libHandle with
    | none =>
        rfl
    | some handle =>
        simp [renamedTo]
  other := by
    intro item handle itemLoaded differs
    simp only [symbols, writeCrtPos_scavTable, itemLoaded, Option.map_some]
    unfold writeCrtPos
    split
    · rfl
    · next loaded isLoaded =>
        have notSame : handle ≠ loaded := by
          rintro rfl
          exact differs isLoaded
        rw [updateLib_of_ne _ _ notSame]

/-- `set_scav_symbol` rewrites the symbols of one library. -/
theorem setScavSymbol_rewritten (tid : Tid) (idx : Int) (pos : Nat) :
    Rewritten tables (tables.setScavSymbol tid idx pos) idx
      (namedAt (tables.scavTable idx) pos) where
  libHandle item := by rw [setScavSymbol_scavTable]
  self := by
    simp only [symbols, setScavSymbol_scavTable]
    simp only [setScavSymbol]
    cases loaded : (tables.scavTable idx).libHandle with
    | none =>
        rfl
    | some handle =>
        simp only [Option.map_some, Option.some.injEq, namedAt]
        cases located : (tables.libs handle).loopCounterLoc with
        | none =>
            simp [located]
        | some loc =>
            simp
  other := by
    intro item handle itemLoaded differs
    simp only [symbols, setScavSymbol_scavTable, itemLoaded,
      Option.map_some]
    simp only [setScavSymbol]
    split
    · rfl
    · next loaded isLoaded =>
        have notSame : handle ≠ loaded := by
          rintro rfl
          exact differs isLoaded
        split
        · rw [updateLib_of_ne _ _ notSame]
        · rw [updatePrim_libs, updateLib_of_ne _ _ notSame,
            updateLib_of_ne _ _ notSame]

end Writes

namespace Rewritten

variable
  {before after : Tables} {idx : Int} {f : LibSymbols → LibSymbols}

/-- Rewriting does not depend on what the two frames let differ. -/
theorem of_same
    {first last : Tables}
    (earlier : SameSymbols first before)
    (rewritten : Rewritten before after idx f)
    (later : SameSymbols after last) :
    Rewritten first last idx f where
  libHandle item := by
    rw [later.libHandle, rewritten.libHandle, earlier.libHandle]
  self := by
    rw [later.symbols_eq, rewritten.self, earlier.symbols_eq]
  other := by
    intro item handle itemLoaded differs
    rw [later.symbols_eq, ← earlier.symbols_eq]
    refine rewritten.other item handle ?_ ?_
    · rw [earlier.libHandle, itemLoaded]
    · rw [earlier.libHandle]
      exact differs

/-- The symbols of an entry are as before, or rewritten with its library. -/
theorem symbols_cases
    (rewritten : Rewritten before after idx f) (item : Int) :
    after.symbols item = before.symbols item ∨
      (before.scavTable item).libHandle = (before.scavTable idx).libHandle ∧
        after.symbols item = (before.symbols item).map f := by
  cases loaded : (before.scavTable item).libHandle with
  | none =>
      left
      simp [symbols, rewritten.libHandle, loaded]
  | some handle =>
      by_cases shared : (before.scavTable idx).libHandle = some handle
      · have sameAfter : after.symbols item = after.symbols idx := by
          rw [symbols, symbols, rewritten.libHandle, rewritten.libHandle,
            loaded, shared]
        have sameBefore : before.symbols item = before.symbols idx := by
          rw [symbols, symbols, loaded, shared]
        exact .inr ⟨shared.symm, by
          rw [sameAfter, rewritten.self, sameBefore]⟩
      · exact .inl (rewritten.other item handle loaded shared)

/-- With distinct libraries, no other entry's symbols change. -/
theorem other_of_distinct
    (rewritten : Rewritten before after idx f)
    (distinct : before.Distinct)
    (inTable : ScavIdx idx)
    {item : Int} (itemInTable : ScavIdx item)
    (differs : item ≠ idx) :
    after.symbols item = before.symbols item := by
  cases loaded : (before.scavTable item).libHandle with
  | none =>
      simp [symbols, rewritten.libHandle, loaded]
  | some handle =>
      refine rewritten.other item handle loaded ?_
      intro shared
      exact differs
        (distinct item idx handle itemInTable inTable loaded shared)

end Rewritten

/-- Distinctness is a matter of the loaded libraries only. -/
theorem Distinct.congr
    {before after : Tables} (distinct : before.Distinct)
    (libHandle :
      ∀ idx,
        (after.scavTable idx).libHandle =
          (before.scavTable idx).libHandle) :
    after.Distinct := by
  intro first second handle firstInTable secondInTable
  rw [libHandle, libHandle]
  exact distinct first second handle firstInTable secondInTable

/-- A swap with a free slot moves the occupant and renames it. -/
theorem tlSwapCrts_slotMoved
    {tables : Tables} (tid : Tid) {aPos bPos : Nat} {idx : Int}
    (isA : ScavPos aPos)
    (free : (tables.primTable tid).idxList aPos = -1)
    (held : tables.occupant (tid, bPos) = some idx) :
    SlotMoved tables (tables.tlSwapCrts tid aPos bPos) idx
      tid bPos tid aPos where
  slots := tlSwapCrts_moved tid isA free held
  held := held
  isPos := isA
  free := free
  symbols := by
    obtain ⟨isB, atB, notSentinel⟩ := occupant_eq_some_iff.mp held
    simp only [tlSwapCrts, tlGetCrtIdxAt_of_le _ isA.2,
      tlGetCrtIdxAt_of_le _ isB.2, free, atB, ne_eq, not_true_eq_false,
      notSentinel, ↓reduceIte, not_false_eq_true]
    refine Rewritten.of_same ?_ (writeCrtPos_rewritten _ idx aPos)
      (.refl _)
    exact
      ((SameSymbols.updatePrim _ _ _).trans (.updateScav _ _ rfl)).trans
        (.updateScav _ _ rfl)

/-- A move of `realloc_scav` moves the donor's last scavenger and renames it. -/
theorem MoveStep.slotMoved
    {target : Tid} {idx : Int} {before after : Tables}
    (taken : MoveStep target idx before after) :
    ∃ source fromPos toPos,
      SlotMoved before after idx source fromPos target toPos := by
  cases taken with
  | @move source fromPos toPos different _ atFrom isLast room =>
      subst atFrom
      obtain ⟨held, isTo, free⟩ := MoveStep.slots isLast room
      refine ⟨source, fromPos, toPos, moveScav_moved different, held, isTo,
        free, ?_⟩
      refine Rewritten.of_same (.refl _)
        (writeCrtPos_rewritten before _ toPos) ⟨?_, rfl⟩
      intro item
      rw [writeCrtPos_scavTable]
      simp only [moveScav]
      by_cases same : item = (before.primTable source).idxList fromPos
      · simp [same]
      · simp [same]

/-- Hosting a scavenger names its slot. -/
theorem hostScav_rewritten
    (tables : Tables) (target : Tid) (idx : Int) (pos : Nat) :
    Rewritten tables (tables.hostScav target idx pos) idx
      (namedAt (tables.scavTable idx) pos) := by
  simp only [hostScav]
  refine Rewritten.of_same (.updatePrim tables target _)
    (setScavSymbol_rewritten _ target idx pos) (.updateScav _ _ ?_)
  rfl

section Everywhere

variable {P : Nat → Option LibSymbols → Prop} {before after : Tables}

theorem Quiet.trans
    {last : Tables}
    (earlier : Quiet before after)
    (later : Quiet after last) :
    Quiet before last where
  symbols := earlier.symbols.trans later.symbols
  occupant slot idx held :=
    earlier.occupant slot idx (later.occupant slot idx held)

theorem Quiet.everywhere
    (quiet : Quiet before after)
    (holds : before.Everywhere P) :
    after.Everywhere P := by
  intro tid pos idx held
  rw [quiet.symbols.symbols_eq]
  exact holds tid pos idx (quiet.occupant _ _ held)

/-- The moved scavenger is at the slot it was moved to. -/
theorem SlotMoved.occupant_self
    {idx : Int} {source target : Tid} {fromPos toPos : Nat}
    (moved : SlotMoved before after idx source fromPos target toPos) :
    after.occupant (target, toPos) = some idx :=
  moved.slots.occupant_self moved.held moved.isPos

theorem SlotMoved.hosting
    {idx : Int} {source target : Tid} {fromPos toPos : Nat}
    (moved : SlotMoved before after idx source fromPos target toPos)
    (hosting : before.Hosting) :
    after.Hosting :=
  hosting.moved moved.slots moved.held moved.isPos moved.free

/-- A move keeps what holds of the new name at the new position. -/
theorem SlotMoved.everywhere
    {idx : Int} {source target : Tid} {fromPos toPos : Nat}
    (moved : SlotMoved before after idx source fromPos target toPos)
    (hosting : before.Hosting) (distinct : before.Distinct)
    (holds : before.Everywhere P)
    (named : P toPos ((before.symbols idx).map (renamedTo toPos))) :
    after.Everywhere P := by
  intro tid pos item held
  by_cases isMoved : item = idx
  · subst item
    have same :=
      (moved.hosting hosting).assignment.slotUnique held
        moved.occupant_self
    obtain ⟨rfl, rfl⟩ := Prod.mk.inj same
    rw [moved.symbols.self]
    exact named
  · have heldBefore := moved.slots.occupant_of_ne isMoved held
    rw [moved.symbols.other_of_distinct distinct
      (hosting.inTable moved.held) (hosting.inTable heldBefore) isMoved]
    exact holds tid pos item heldBefore

/-- Where a scavenger that was not moved was, it still is. -/
theorem SlotMoved.occupant_keeps
    {idx : Int} {source target : Tid} {fromPos toPos : Nat}
    (moved : SlotMoved before after idx source fromPos target toPos)
    {slot : Tid × Nat} {item : Int}
    (differs : item ≠ idx)
    (held : before.occupant slot = some item) :
    after.occupant slot = some item :=
  moved.slots.occupant_keeps moved.held moved.free differs held

/-- A rollback leaves all symbols, and the other scavengers' slots. -/
theorem BackStep.symbols
    {target : Tid} {idx : Int}
    (taken : BackStep target idx before after) (item : Int) :
    after.symbols item = before.symbols item := by
  obtain ⟨scavTable, libs⟩ := taken.scavTable
  rw [Tables.symbols, scavTable, libs, Tables.symbols]

theorem BackStep.occupant_of_ne
    {target : Tid} {idx : Int}
    (taken : BackStep target idx before after)
    {slot : Tid × Nat} {item : Int}
    (differs : item ≠ idx)
    (held : after.occupant slot = some item) :
    before.occupant slot = some item := by
  obtain ⟨_, _, _, change, _⟩ := taken.rolledBack
  exact change.toShifted.occupant_of_ne differs held

theorem BackStep.occupant_keeps
    {target : Tid} {idx : Int}
    (taken : BackStep target idx before after)
    {slot : Tid × Nat} {item : Int}
    (differs : item ≠ idx)
    (held : before.occupant slot = some item) :
    after.occupant slot = some item := by
  obtain ⟨_, _, _, change, heldFrom, _, free, _⟩ := taken.rolledBack
  exact change.toShifted.occupant_keeps heldFrom free differs held

/-- A placement leaves the hosted scavengers where they were. -/
theorem HostStep.occupant_keeps
    {target : Tid}
    (taken : HostStep target before after)
    {slot : Tid × Nat} {item : Int}
    (held : before.occupant slot = some item) :
    after.occupant slot = some item := by
  obtain ⟨tid, pos⟩ := slot
  cases taken with
  | @host idx toPos inTable idle room =>
      have change := hostScav_placed before target idx toPos
      obtain ⟨_, free, _⟩ :=
        PrimaryThreadCtx.firstFree_eq_some_iff.mp room
      obtain ⟨isPos, atPos, notSentinel⟩ := occupant_eq_some_iff.mp held
      have elsewhere : ¬ (tid = target ∧ pos = toPos) := by
        rintro ⟨rfl, rfl⟩
        exact notSentinel (atPos.symm.trans free)
      refine occupant_eq_some_iff.mpr ⟨isPos, ?_, notSentinel⟩
      rw [change.idxList, if_neg elsewhere, atPos]

/-- A placement leaves the symbols of the hosted scavengers alone. -/
theorem HostStep.symbols_of_held
    {target : Tid}
    (taken : HostStep target before after)
    (hosting : before.Hosting) (distinct : before.Distinct)
    {slot : Tid × Nat} {item : Int}
    (held : before.occupant slot = some item) :
    after.symbols item = before.symbols item := by
  cases taken with
  | @host idx toPos inTable idle room =>
      obtain ⟨_, unplaced, _⟩ := Idle_iff.mp idle
      have differs : item ≠ idx := by
        rintro rfl
        exact (hosting.yc_ne_none_iff inTable).mpr ⟨slot, held⟩ unplaced
      exact (hostScav_rewritten before target idx toPos).other_of_distinct
        distinct inTable (hosting.inTable held) differs

/-- A placement keeps what holds of the names that `set_scav_symbol` writes. -/
theorem HostStep.everywhere
    {target : Tid}
    (taken : HostStep target before after)
    (hosting : before.Hosting) (distinct : before.Distinct)
    (holds : before.Everywhere P)
    (named :
      ∀ ctx pos lib, P pos (some (namedAt ctx pos lib))) :
    after.Everywhere P := by
  have symbolsOfHeld :
      ∀ {slot item}, before.occupant slot = some item →
        after.symbols item = before.symbols item :=
    fun held => taken.symbols_of_held hosting distinct held
  cases taken with
  | @host idx toPos inTable idle room =>
      obtain ⟨isLoaded, _, _⟩ := Idle_iff.mp idle
      have rewritten := hostScav_rewritten before target idx toPos
      have change := hostScav_placed before target idx toPos
      intro tid pos item held
      obtain ⟨isPos, atPos, notSentinel⟩ := occupant_eq_some_iff.mp held
      rw [change.idxList] at atPos
      by_cases here : tid = target ∧ pos = toPos
      · rw [if_pos here] at atPos
        obtain ⟨rfl, rfl⟩ := here
        subst item
        rw [rewritten.self]
        obtain ⟨handle, loaded⟩ := Option.isSome_iff_exists.mp isLoaded
        simpa [symbols, loaded] using named _ _ _
      · rw [if_neg here] at atPos
        have heldBefore : before.occupant (tid, pos) = some item :=
          occupant_eq_some_iff.mpr ⟨isPos, atPos, notSentinel⟩
        rw [symbolsOfHeld heldBefore]
        exact holds tid pos item heldBefore

end Everywhere

/-- A placement leaves the loaded libraries alone. -/
theorem HostStep.libHandle
    {target : Tid} {before after : Tables}
    (taken : HostStep target before after) (item : Int) :
    (after.scavTable item).libHandle =
      (before.scavTable item).libHandle := by
  cases taken
  exact (hostScav_rewritten _ _ _ _).libHandle item

/-- Nor does any number of rollbacks write a symbol. -/
theorem BackRun.symbols
    {target : Tid} {idxs : List Int} {before after : Tables}
    (run : BackRun target idxs before after) (item : Int) :
    after.symbols item = before.symbols item := by
  rw [Tables.symbols, run.scavTable.1, run.scavTable.2, Tables.symbols]

/-- The loops of the locked section keep the libraries distinct. -/
theorem MoveRun.distinct
    {target : Tid} {idxs : List Int} {before after : Tables}
    (run : MoveRun target idxs before after)
    (distinct : before.Distinct) :
    after.Distinct := by
  induction run with
  | nil =>
      exact distinct
  | cons taken _ inductionHypothesis =>
      obtain ⟨_, _, _, moved⟩ := taken.slotMoved
      exact inductionHypothesis (distinct.congr moved.symbols.libHandle)

theorem BackRun.distinct
    {target : Tid} {idxs : List Int} {before after : Tables}
    (run : BackRun target idxs before after)
    (distinct : before.Distinct) :
    after.Distinct :=
  distinct.congr fun _ => by rw [run.scavTable.1]

theorem HostRun.distinct
    {target : Tid} {before after : Tables}
    (run : HostRun target before after)
    (distinct : before.Distinct) :
    after.Distinct := by
  induction run with
  | refl =>
      exact distinct
  | tail _ taken inductionHypothesis =>
      exact inductionHypothesis.congr taken.libHandle

/-- The loops leave the scavengers they do not move where they were. -/
theorem MoveRun.occupant_keeps
    {target : Tid} {idxs : List Int} {before after : Tables}
    (run : MoveRun target idxs before after)
    {slot : Tid × Nat} {item : Int}
    (notMoved : item ∉ idxs)
    (held : before.occupant slot = some item) :
    after.occupant slot = some item := by
  induction run with
  | nil =>
      exact held
  | cons taken _ inductionHypothesis =>
      rw [List.mem_cons, not_or] at notMoved
      obtain ⟨notHead, notInRest⟩ := notMoved
      obtain ⟨_, _, _, moved⟩ := taken.slotMoved
      exact inductionHypothesis notInRest
        (moved.occupant_keeps notHead held)

theorem BackRun.occupant_keeps
    {target : Tid} {idxs : List Int} {before after : Tables}
    (run : BackRun target idxs before after)
    {slot : Tid × Nat} {item : Int}
    (notMoved : item ∉ idxs)
    (held : before.occupant slot = some item) :
    after.occupant slot = some item := by
  induction run with
  | nil =>
      exact held
  | cons taken _ inductionHypothesis =>
      rw [List.mem_cons, not_or] at notMoved
      exact inductionHypothesis notMoved.2
        (taken.occupant_keeps notMoved.1 held)

theorem HostRun.occupant_keeps
    {target : Tid} {before after : Tables}
    (run : HostRun target before after)
    {slot : Tid × Nat} {item : Int}
    (held : before.occupant slot = some item) :
    after.occupant slot = some item := by
  induction run with
  | refl =>
      exact held
  | tail _ taken inductionHypothesis =>
      exact taken.occupant_keeps inductionHypothesis

/-- The pool loop keeps what holds of the names that it writes. -/
theorem HostRun.everywhere
    {P : Nat → Option LibSymbols → Prop}
    {target : Tid} {before after : Tables}
    (run : HostRun target before after)
    (hosting : before.Hosting) (distinct : before.Distinct)
    (holds : before.Everywhere P)
    (named : ∀ ctx pos lib, P pos (some (namedAt ctx pos lib))) :
    after.Everywhere P := by
  induction run with
  | refl =>
      exact holds
  | tail earlier taken inductionHypothesis =>
      exact taken.everywhere
        ((LockedRun.slotRun (HostRun.locked earlier)).hosting hosting)
        (HostRun.distinct earlier distinct) inductionHypothesis named

end Tables

namespace Config

/--
The scavengers that a step moves: the one that packing takes into a free
position, and those that the locked section takes from other threads or puts
back into their lists at another position.
-/
def movedBy (maxScavPerThread : Int) (config : Config) :
    Action → List Int
  | .packCrts tid =>
      let ctx := config.tables.primTable tid
      match config.phase tid with
      | .packing pos =>
          if pos < maxCrtPerThread + 1 ∧ ctx.tlGetCrtIdxAt pos = -1 then
            match ctx.nextOccupied pos with
            | some nextPos => [ctx.tlGetCrtIdxAt nextPos]
            | none => []
          else []
      | _ => []
  | .allocateScav tid =>
      match config.phase tid with
      | .allocating _ =>
          let demands :=
            ((config.tables.primTable tid).needMoreScav
              maxScavPerThread).toNat
          config.tables.stolenFor tid demands ++
            config.tables.rolledBackFor tid demands
      | _ => []
  | _ => []

/-- The moves, rollbacks and placements of a locked section. -/
def LockedMoves (idxs : List Int) (before after : Tables) : Prop :=
  ∃ tid moved back middle last,
    idxs = moved ++ back ∧
      Tables.MoveRun tid moved before middle ∧
      Tables.BackRun tid back middle last ∧
      Tables.HostRun tid last after

/-- A step that only rewrites entries of `PRIM_TABLE` in place is quiet. -/
theorem quiet_of_sameSlots
    {before after : Tables}
    (slots : Tables.SameSlots before after)
    (symbols : Tables.SameSymbols before after) :
    Tables.Quiet before after where
  symbols := symbols
  occupant slot idx held := by rwa [slots.occupant] at held

/-- Finishing a scavenger is quiet. -/
theorem quiet_of_tlFinishCrt
    {tables : Tables}
    (primarySlot : ∀ tid, (tables.primTable tid).idxList 0 = -1)
    (tid : Tid) {pos : Nat} (inRange : pos ≤ maxCrtPerThread) :
    Tables.Quiet tables (tables.tlFinishCrt tid pos) where
  symbols := .tlFinishCrt tables tid pos
  occupant := by
    rintro ⟨other, query⟩ idx held
    obtain ⟨isPos, atPos, notSentinel⟩ :=
      Tables.occupant_eq_some_iff.mp held
    refine Tables.occupant_eq_some_iff.mpr ⟨isPos, ?_, notSentinel⟩
    by_cases free : (tables.primTable tid).idxList pos = -1
    · rw [Tables.tlFinishCrt_of_free tables tid inRange free] at atPos
      by_cases same : other = tid
      · subst other
        simpa [PrimaryThreadCtx.updateYc] using atPos
      · rwa [Tables.updatePrim_of_ne _ _ same] at atPos
    · have notPrimary : pos ≠ 0 := by
        rintro rfl
        exact free (primarySlot tid)
      have heldBefore :
          tables.occupant (tid, pos) =
            some ((tables.primTable tid).idxList pos) :=
        Tables.occupant_eq_some_iff.mpr ⟨⟨by omega, inRange⟩, rfl, free⟩
      have change := Tables.tlFinishCrt_released tid heldBefore
      rw [change.idxList] at atPos
      split at atPos
      · exact absurd atPos.symm notSentinel
      · exact atPos

theorem quiet_of_afterReturn
    {tables : Tables}
    (primarySlot : ∀ tid, (tables.primTable tid).idxList 0 = -1)
    (tid : Tid) {pos : Nat} (inRange : pos ≤ maxCrtPerThread) :
    Tables.Quiet tables (tables.afterReturn tid pos) :=
  (quiet_of_tlFinishCrt primarySlot tid inRange).trans
    (quiet_of_sameSlots (.tlUpdateNextMap _ tid) (.updatePrim _ _ _))

/-- One iteration of packing moves the scavenger that `movedBy` names. -/
theorem Inv.pack_names
    {maxScavPerThread : Int} {config : Config} (inv : config.Inv)
    {tid : Tid} {pos : Nat}
    (isPacking : config.phase tid = .packing pos)
    (inLoop : pos ≤ maxCrtPerThread) :
    (config.movedBy maxScavPerThread (.packCrts tid) = [] ∧
        Tables.Quiet config.tables (config.tables.packAt tid pos)) ∨
      (∃ idx owner fromPos toPos,
        config.movedBy maxScavPerThread (.packCrts tid) = [idx] ∧
          Tables.SlotMoved config.tables (config.tables.packAt tid pos) idx
            owner fromPos owner toPos) ∨
      LockedMoves (config.movedBy maxScavPerThread (.packCrts tid))
        config.tables (config.tables.packAt tid pos) := by
  have isPos : ScavPos pos := ⟨inv.packing tid pos isPacking, inLoop⟩
  have bound : pos < maxCrtPerThread + 1 := Nat.lt_succ_of_le inLoop
  have unchanged := quiet_of_sameSlots (.refl config.tables) (.refl _)
  simp only [movedBy, isPacking, bound, true_and, Tables.packAt]
  split
  · next free =>
      cases found : (config.tables.primTable tid).nextOccupied pos with
      | none =>
          exact .inl ⟨rfl, unchanged⟩
      | some nextPos =>
          unfold PrimaryThreadCtx.nextOccupied at found
          rw [findUp_eq_some_iff] at found
          obtain ⟨held, lower, upper, _⟩ := found
          have inRange : nextPos ≤ maxCrtPerThread := by omega
          simp only
          rw [Tables.tlGetCrtIdxAt_of_le _ inRange] at held ⊢
          rw [Tables.tlGetCrtIdxAt_of_le _ inLoop] at free
          have occupied :=
            Tables.occupant_eq_some_iff.mpr
              ⟨(⟨by omega, inRange⟩ : ScavPos nextPos), rfl,
                by simpa using held⟩
          exact .inr (.inl ⟨_, tid, nextPos, pos, rfl,
            Tables.tlSwapCrts_slotMoved tid isPos free occupied⟩)
  · exact .inl ⟨rfl, unchanged⟩

/--
What a step does to the symbols: nothing, or a swap of packing, or the moves,
rollbacks and placements of a locked section.
-/
theorem StepCase.names
    {maxScavPerThread : Int} {config next : Config} {action : Action}
    (taken : StepCase maxScavPerThread config action next)
    (inv : config.Inv) :
    (config.movedBy maxScavPerThread action = [] ∧
        Tables.Quiet config.tables next.tables) ∨
      (∃ idx tid fromPos toPos,
        config.movedBy maxScavPerThread action = [idx] ∧
          Tables.SlotMoved config.tables next.tables idx
            tid fromPos tid toPos) ∨
      LockedMoves (config.movedBy maxScavPerThread action) config.tables
        next.tables := by
  have primarySlot := inv.hosting.primarySlot
  cases taken with
  | allocCtx =>
      exact .inl ⟨rfl, quiet_of_sameSlots (.refl _) (.refl _)⟩
  | finishLast _ _ inRange =>
      exact .inl ⟨rfl,
        (quiet_of_afterReturn primarySlot _ inRange).trans
          (quiet_of_sameSlots (.resetPrimaryNext _ _)
            (.updatePrim _ _ _))⟩
  | finishNext _ inRange =>
      exact .inl ⟨rfl, quiet_of_afterReturn primarySlot _ inRange⟩
  | finish _ inRange =>
      exact .inl ⟨rfl, quiet_of_afterReturn primarySlot _ inRange⟩
  | @pack tid pos isPacking inLoop =>
      exact inv.pack_names isPacking inLoop
  | @packed tid pos isPacking ended =>
      refine .inl ⟨?_, quiet_of_sameSlots (.setSpecialNext _ _)
        (.updatePrim _ _ _)⟩
      have notInLoop : ¬ pos < maxCrtPerThread + 1 := by omega
      simp [movedBy, isPacking, notInLoop]
  | @allocateNone tid resume isAllocating noneNeeded =>
      refine .inl ⟨?_, quiet_of_sameSlots (.resumeWith _ _ _ _)
        (.resumeWith _ _ _ _)⟩
      simp [movedBy, isAllocating, noneNeeded, Tables.stolenFor,
        Tables.rolledBackFor, Tables.stolen_zero]
  | @allocateLocked tid resume counts isAllocating needed wanted =>
      refine .inr (.inr ?_)
      obtain ⟨middle, last, _, _, _, moves, backs, hosts⟩ :=
        Tables.allocateScavLocked_spec
          (inv.notFlagged_of_allocating isAllocating) counts
      refine ⟨tid, _, _, middle, last, ?_, moves, backs, hosts⟩
      simp only [movedBy, isAllocating, needed, Int.toNat_natCast]
  | initScavs =>
      exact .inl ⟨rfl,
        quiet_of_sameSlots
          ((Tables.SameSlots.initNewScavs _ _).trans (.resumeWith _ _ _ _))
          ((Tables.SameSymbols.initNewScavs _ _).trans
            (.resumeWith _ _ _ _))⟩
  | enterBlockableCall =>
      exact .inl ⟨rfl,
        quiet_of_sameSlots (.setReallocatable _ _ _) ⟨fun _ => rfl, rfl⟩⟩
  | exitSlow =>
      exact .inl ⟨rfl,
        quiet_of_sameSlots (.setReallocatable _ _ _) ⟨fun _ => rfl, rfl⟩⟩
  | exitFast =>
      exact .inl ⟨rfl,
        quiet_of_sameSlots (.setReallocatable _ _ _) ⟨fun _ => rfl, rfl⟩⟩
  | cleanupNone =>
      exact .inl ⟨rfl,
        quiet_of_sameSlots
          ((Tables.SameSlots.linkToSelf _ _).trans (.resetPrimaryNext _ _))
          ((Tables.SameSymbols.updatePrim _ _ _).trans
            (.updatePrim _ _ _))⟩
  | @cleanupNext tid =>
      have linked := Tables.SameSlots.linkToSelf config.tables tid
      exact .inl ⟨rfl,
        (quiet_of_sameSlots linked (.updatePrim _ _ _)).trans
          (quiet_of_tlFinishCrt (linked.hosting inv.hosting).primarySlot tid
            (Nat.zero_le _))⟩
  | countLoop =>
      exact .inl ⟨rfl,
        quiet_of_sameSlots (.writeCounter _ _ _ _ _)
          ⟨fun _ => rfl, rfl⟩⟩

end Config

end Msh
