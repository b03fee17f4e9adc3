import Msh.Bolt.PseudoInlineRedirect
import Msh.Bolt.PseudoInlineRun

/-!
# Which calls to copies are bracketed

A copy leaves its filtered registers to its callers.  The calls of the
program's own functions save them around the call, but for vector registers,
which are not pushed as such.  A call in a copy saves nothing: it is one that
had been redirected before its function was copied.
-/

namespace Msh.PseudoInline

open X86

/-- A loop around an instruction of a function evacuates a register. -/
def EvacuatedIn (setting : Setting) (fn : BinaryFunction)
    (instrumented : Instrumented) (node : Nat) (reg : Reg) : Prop :=
  ∃ loop, (setting.loops fn.symbol).contains loop node = true ∧
    instrumented.regsToEvac loop reg = true

/--
Every call to a copy in a function's final code restores the registers that
the copy has filtered out, or a loop around the call evacuates them.
-/
def CallsBracketed (setting : Setting) (final : Binary)
    (fn : BinaryFunction) (instrumented : Instrumented) : Prop :=
  ∀ node placed, instrumented.code[node]? = some placed →
    placed.inst.isCall = true →
      ∀ callee, final.calleeOf placed.inst = some callee →
        callee.isPseudoCopy = true →
          ∀ reg, callee.filteredRegs reg = true →
            placed.Restores reg ∨
              EvacuatedIn setting fn instrumented node reg

/-- All calls to copies in the final program are bracketed. -/
def Bracketed (setting : Setting) (final : Binary) : Prop :=
  ∀ index fn, final.functions[index]? = some fn →
    ∃ instrumented, final.instrumented index = some instrumented ∧
      instrumented.code.map (·.inst) = fn.insts ∧
      CallsBracketed setting final fn instrumented

namespace Binary

/-- The copy of a function. -/
def copyOf (bin : Binary) (function : Nat) : Option Nat :=
  bin.functions[function]?.bind fun fn =>
    fn.pseudoCopy.bind bin.getFunctionForSymbol

/-- The copy of a function filters a register out. -/
def CopyFilters (bin : Binary) (function : Nat) (reg : Reg) : Prop :=
  ∃ index copy, bin.copyOf function = some index ∧
    bin.functions[index]? = some copy ∧ copy.filteredRegs reg = true

/-- A loop around an instruction evacuates a register. -/
def Evacuated (setting : Setting) (bin : Binary) (index node : Nat)
    (reg : Reg) : Prop :=
  ∃ fn, bin.functions[index]? = some fn ∧
    EvacuatedIn setting fn (setting.instrument bin fn) node reg

/-- Where the copy of a function has an instruction: CFIs are left out. -/
def copiedNode (bin : Binary) (site : Site) : Nat :=
  match bin.functions[site.caller]? with
  | none => site.node
  | some fn => (fn.insts.take site.node).countP (!·.isCFI)

end Binary

/-- The vector registers that callees leave to a site are evacuated. -/
def VectorsEvacuated (setting : Setting) (bin : Binary)
    (sites : List Site) : Prop :=
  ∀ site ∈ sites, ∀ index,
    bin.CopyFilters site.callee (.xmm index) →
      bin.Evacuated setting site.caller site.node (.xmm index)

/--
Where a function is copied after one of its calls was redirected, the loops
of its copy evacuate all that the callee leaves to that call.
-/
def LateCopiesEvacuated (setting : Setting) (preScanned bin : Binary)
    (sites : List Site) : Prop :=
  ∀ before site after, sites = before ++ site :: after →
    (∀ other ∈ before ++ [site], other.callee ≠ site.caller) →
    (∃ other ∈ after, other.callee = site.caller) →
      ∀ callerCopy, bin.copyOf site.caller = some callerCopy →
        ∀ reg, bin.CopyFilters site.callee reg →
          bin.Evacuated setting callerCopy (preScanned.copiedNode site) reg

/-! ## Places in filtered lists -/

section Places

variable {α β : Type} {keep : α → Option β}

/-- Where an element of a list ends up when the list is filtered. -/
theorem getElem?_filterMap_countP {items : List α} {node : Nat} {item : α}
    {image : β} (isItem : items[node]? = some item)
    (isImage : keep item = some image) :
    (items.filterMap keep)[(items.take node).countP
        fun other => (keep other).isSome]? =
      some image := by
  induction items generalizing node with
  | nil =>
      cases isItem
  | cons first rest inductionHypothesis =>
      cases node with
      | zero =>
          cases isItem
          simp [isImage]
      | succ node =>
          have later := inductionHypothesis isItem
          cases kept : keep first with
          | none => simpa [kept] using later
          | some value => simpa [kept] using later

/-- Where an element of a filtered list comes from. -/
theorem exists_getElem?_of_filterMap {items : List α} {place : Nat}
    {image : β} (isImage : (items.filterMap keep)[place]? = some image) :
    ∃ node item, items[node]? = some item ∧ keep item = some image ∧
      (items.take node).countP (fun other => (keep other).isSome) =
        place := by
  induction items generalizing place with
  | nil =>
      cases isImage
  | cons first rest inductionHypothesis =>
      cases kept : keep first with
      | none =>
          rw [List.filterMap_cons_none kept] at isImage
          obtain ⟨node, item, isItem, ofItem, isPlace⟩ :=
            inductionHypothesis isImage
          exact ⟨node + 1, item, isItem, ofItem, by simpa [kept] using isPlace⟩
      | some value =>
          rw [List.filterMap_cons_some kept] at isImage
          cases place with
          | zero =>
              cases isImage
              exact ⟨0, first, rfl, kept, rfl⟩
          | succ place =>
              obtain ⟨node, item, isItem, ofItem, isPlace⟩ :=
                inductionHypothesis isImage
              exact ⟨node + 1, item, isItem, ofItem,
                by simpa [kept] using isPlace⟩

/-- Counting in a list whose elements have changed, but not in what counts. -/
theorem countP_take_mapIdx {counts : α → Bool} {change : Nat → α → α}
    {items : List α}
    (same :
      ∀ node item, items[node]? = some item →
        counts (change node item) = counts item)
    (node : Nat) :
    ((items.mapIdx change).take node).countP counts =
      (items.take node).countP counts := by
  induction items generalizing node change with
  | nil =>
      simp
  | cons first rest inductionHypothesis =>
      cases node with
      | zero => simp
      | succ node =>
          have here := same 0 first rfl
          have later :=
            @inductionHypothesis (fun place => change (place + 1))
              (fun place item isItem => same (place + 1) item isItem) node
          simp only [List.mapIdx_cons, List.take_succ_cons, List.countP_cons,
            here, later]

end Places

/-! ## What comes of a run of the pass -/

/-- The binaries of a run, until the copies are done. -/
structure RunOfCopies (setting : Setting) (start : Binary)
    (sites : List Site) (redirected copiesDone : Binary) : Prop where
  scanned : start.Scanned
  areSites : Done start sites
  allSites :
    ∀ caller node site, start.siteAt caller node = some site → site ∈ sites
  made : Redirected start sites redirected
  copiesRun :
    RunOn setting redirected
      (List.range' start.functions.length
        (redirected.functions.length - start.functions.length))
      copiesDone

/-- The binaries of a run, from the pre-scan on. -/
structure RunOfPass (setting : Setting) (start : Binary)
    (sites : List Site) (runs : List Nat)
    (redirected copiesDone final : Binary) : Prop extends
    RunOfCopies setting start sites redirected copiesDone where
  run : RunOn setting copiesDone runs final
  runs : ∀ index, index ∈ runs ↔ index < start.functions.length

/-- The first site of a callee, and its copy. -/
structure CopyOf (start redirected : Binary) (sites before : List Site)
    (first : Site) (place : Nat) (copy : BinaryFunction) : Prop where
  split : ∃ after, sites = before ++ first :: after
  isFirst : FirstOf before first
  behind : start.functions.length ≤ place
  isCopy : redirected.functions[place]? = some copy
  named :
    redirected.getFunctionForSymbol (.pseudoCopy first.calleeSymbol) =
      some place
  copyAt : IsCopyAt start before first copy

theorem copySymbol_eq_some {sites : List Site} {callee : Nat}
    {symbol : Symbol} (isSymbol : copySymbol sites callee = some symbol) :
    ∃ before first after, sites = before ++ first :: after ∧
      FirstOf before first ∧ first.callee = callee ∧
      symbol = .pseudoCopy first.calleeSymbol := by
  obtain ⟨first, found, rfl⟩ := Option.map_eq_some_iff.mp isSymbol
  obtain ⟨isCallee, before, after, rfl, others⟩ :=
    List.find?_eq_some_iff_append.mp found
  rw [beq_iff_eq] at isCallee
  refine ⟨before, first, after, rfl, ?_, isCallee, rfl⟩
  intro other member same
  have differs := others other member
  rw [same, isCallee] at differs
  simp at differs

/-- Later sites do not change which copy a callee has. -/
theorem copySymbol_of_isPrefix {before after : List Site} {callee : Nat}
    {symbol : Symbol} (isSymbol : copySymbol before callee = some symbol) :
    copySymbol (before ++ after) callee = some symbol := by
  obtain ⟨first, found, rfl⟩ := Option.map_eq_some_iff.mp isSymbol
  rw [copySymbol, List.find?_append, found]
  rfl

/-- The first site of a callee names its copy. -/
theorem copySymbol_first {before after : List Site} {first : Site}
    (isFirst : FirstOf before first) :
    copySymbol (before ++ first :: after) first.callee =
      some (.pseudoCopy first.calleeSymbol) := by
  have split :
      before ++ first :: after = (before ++ [first]) ++ after := by
    simp
  rw [split]
  apply copySymbol_of_isPrefix
  rw [copySymbol_append, copySymbol_eq_none_iff.mpr isFirst, if_pos rfl]
  rfl

theorem getTargetSymbol_patch (namePatchMap : Dict Symbol Symbol)
    (inst : MCInst) :
    (inst.patchLocalSymbol namePatchMap).getTargetSymbol =
      inst.getTargetSymbol.map fun symbol =>
        (namePatchMap.get? symbol).getD symbol := by
  obtain ⟨opcode, operands, annotations⟩ := inst
  cases operands with
  | nil => rfl
  | cons operand rest =>
      cases operand with
      | symbolRef symbol =>
          simp only [MCInst.patchLocalSymbol, List.map_cons,
            MCOperand.patchLocalSymbol, MCInst.getTargetSymbol]
          cases found : namePatchMap.get? symbol <;> simp [found]
      | _ => rfl

/-- Patching labels makes no symbol the name of a copy. -/
theorem target_of_patch {namePatchMap : Dict Symbol Symbol}
    (mapsLabels : MapsLabels namePatchMap) {inst : MCInst}
    {callee : Symbol}
    (target :
      (inst.patchLocalSymbol namePatchMap).getTargetSymbol =
        some (.pseudoCopy callee)) :
    inst.getTargetSymbol = some (.pseudoCopy callee) := by
  rw [getTargetSymbol_patch] at target
  obtain ⟨symbol, isTarget, patched⟩ := Option.map_eq_some_iff.mp target
  cases found : namePatchMap.get? symbol with
  | none =>
      rw [found] at patched
      rw [isTarget]
      exact congrArg some patched
  | some newSymbol =>
      obtain ⟨-, id, rfl⟩ := mapsLabels symbol newSymbol found
      rw [found] at patched
      cases patched

theorem getTargetSymbol_mem {inst : MCInst} {symbol : Symbol}
    (target : inst.getTargetSymbol = some symbol) :
    .symbolRef symbol ∈ inst.operands := by
  unfold MCInst.getTargetSymbol at target
  split at target
  · next operands =>
      cases target
      rw [operands]
      exact List.mem_cons_self
  · cases target

/-- The marked call to the copy that was made at a site. -/
abbrev callToCopy (first : Site) : MCInst :=
  (createCall (.pseudoCopy first.calleeSymbol)).addPseudoInline

/-- A copied function, with the set that its scan has found. -/
abbrev scannedCopy (setting : Setting) (copy : BinaryFunction) :
    BinaryFunction :=
  { copy with filteredRegs := setting.filteredRegs copy }

/-- A copy has no marked calls. -/
theorem IsCopyAt.unmarked {start : Binary} {before : List Site}
    {site : Site} {copy : BinaryFunction}
    (isCopy : IsCopyAt start before site copy) :
    ∀ inst ∈ copy.insts, inst.annotations.pseudoInline = false := by
  obtain ⟨fn, namePatchMap, -, -, insts⟩ := isCopy.insts
  intro inst member
  rw [insts] at member
  obtain ⟨source, -, isImage⟩ := List.mem_filterMap.mp member
  obtain ⟨stripped, isStripped, rfl⟩ := Option.map_eq_some_iff.mp isImage
  unfold MCInst.copy? at isStripped
  split at isStripped
  · cases isStripped
  · cases isStripped
    rfl

namespace RunOfCopies

variable {setting : Setting} {start redirected copiesDone : Binary}
  {sites : List Site}
  (pass : RunOfCopies setting start sites redirected copiesDone)
include pass

/-- The copies are scanned before the program's functions. -/
theorem copiesDone_copy {place : Nat} {copy : BinaryFunction}
    (behind : start.functions.length ≤ place)
    (isCopy : redirected.functions[place]? = some copy) :
    copiesDone.functions[place]? = some (scannedCopy setting copy) := by
  obtain ⟨inRange, -⟩ := List.getElem?_eq_some_iff.mp isCopy
  have member :
      place ∈ List.range' start.functions.length
        (redirected.functions.length - start.functions.length) := by
    rw [List.mem_range'_1]
    omega
  rw [pass.copiesRun.functions, isCopy, Option.map_some, if_pos member]

theorem copiesDone_original {index : Nat}
    (isOriginal : index < start.functions.length) :
    copiesDone.functions[index]? = redirected.functions[index]? := by
  have notCopy :
      index ∉ List.range' start.functions.length
        (redirected.functions.length - start.functions.length) := by
    rw [List.mem_range'_1]
    omega
  rw [pass.copiesRun.functions]
  simp only [notCopy, ↓reduceIte, Option.map_id']

/-- Every site has a copy to be redirected to. -/
theorem copyOf_site {site : Site} (member : site ∈ sites) :
    ∃ before first place copy,
      first.callee = site.callee ∧
        copySymbol sites site.callee =
          some (.pseudoCopy first.calleeSymbol) ∧
        CopyOf start redirected sites before first place copy := by
  obtain ⟨symbol, isSymbol⟩ := copySymbol_isSome member
  obtain ⟨before, first, after, split, isFirst, isCallee, rfl⟩ :=
    copySymbol_eq_some isSymbol
  obtain ⟨place, copy, behind, isCopy, named, copyAt⟩ :=
    pass.made.copies before first after split isFirst
  exact ⟨before, first, place, copy, isCallee, isSymbol,
    ⟨after, split⟩, isFirst, behind, isCopy, named, copyAt⟩

/-- The instruction at a site, after some of the sites. -/
theorem redirect_site {done : List Site} {site : Site}
    {fn : BinaryFunction} {inst : MCInst}
    (within : ∀ other ∈ done, other ∈ sites)
    (isSite : start.IsSite site fn inst) (member : site ∈ done) :
    ∃ symbol, copySymbol done site.callee = some symbol ∧
      (redirect done site.caller fn).insts[site.node]? =
        some (createCall symbol).addPseudoInline := by
  obtain ⟨symbol, isSymbol⟩ := copySymbol_isSome member
  refine ⟨symbol, isSymbol, ?_⟩
  have insts :
      (redirect done site.caller fn).insts =
        fn.insts.mapIdx (redirectInst done site.caller) :=
    fn.mapInsts_insts _
  have found :
      done.find? (fun other =>
          other.caller == site.caller && other.node == site.node) =
        some site := by
    have isSome :
        (done.find? fun other =>
          other.caller == site.caller &&
            other.node == site.node).isSome := by
      rw [List.find?_isSome]
      exact ⟨site, member, by simp⟩
    obtain ⟨other, isOther⟩ := Option.isSome_iff_exists.mp isSome
    have same := List.find?_some isOther
    simp only [Bool.and_eq_true, beq_iff_eq] at same
    obtain ⟨otherFn, otherInst, otherSite⟩ :=
      pass.areSites.areSites other
        (within other (List.mem_of_find?_eq_some isOther))
    have atSite : start.siteAt site.caller site.node = some site :=
      Binary.siteAt_eq_some_iff.mpr ⟨rfl, rfl, fn, inst, isSite⟩
    have atOther : start.siteAt site.caller site.node = some other :=
      Binary.siteAt_eq_some_iff.mpr
        ⟨same.1, same.2, otherFn, otherInst, otherSite⟩
    rw [atSite] at atOther
    rw [isOther, ← Option.some.inj atOther]
  rw [insts, List.getElem?_mapIdx, isSite.node, Option.map_some,
    redirectInst, found]
  simp only [isSymbol]

/-- What is at an instruction that is no site. -/
theorem redirectInst_cases {done : List Site}
    {caller node : Nat} {fn : BinaryFunction} {inst : MCInst}
    (within : ∀ other ∈ done, other ∈ sites)
    (isFn : start.functions[caller]? = some fn)
    (isInst : fn.insts[node]? = some inst) :
    redirectInst done caller node inst = inst ∨
      ∃ site ∈ done, site.caller = caller ∧ site.node = node ∧
        start.IsSite site fn inst := by
  unfold redirectInst
  cases found :
      done.find? fun site =>
        site.caller == caller && site.node == node with
  | none => exact .inl rfl
  | some site =>
      have member := List.mem_of_find?_eq_some found
      have same := List.find?_some found
      simp only [Bool.and_eq_true, beq_iff_eq] at same
      obtain ⟨siteFn, siteInst, isSite⟩ :=
        pass.areSites.areSites site (within site member)
      refine .inr ⟨site, member, same.1, same.2, ?_⟩
      have sameFn : siteFn = fn := by
        have ofSite := isSite.caller
        rw [same.1, isFn] at ofSite
        exact (Option.some.inj ofSite).symm
      subst sameFn
      have sameInst : siteInst = inst := by
        have ofSite := isSite.node
        rw [same.2, isInst] at ofSite
        exact (Option.some.inj ofSite).symm
      exact sameInst ▸ isSite

/-- The copy of a site's callee, once the copies are done. -/
theorem copyOf_eq {before : List Site} {first : Site} {callee place : Nat}
    {copy : BinaryFunction}
    (isOriginal : callee < start.functions.length)
    (isSymbol :
      copySymbol sites callee = some (.pseudoCopy first.calleeSymbol))
    (isCopy : CopyOf start redirected sites before first place copy) :
    copiesDone.copyOf callee = some place := by
  have isCallee :
      copiesDone.functions[callee]? =
        some (redirect sites callee start.functions[callee]) := by
    rw [pass.copiesDone_original isOriginal,
      pass.made.originals _ isOriginal, List.getElem?_eq_getElem isOriginal]
    rfl
  have hasCopy :
      (redirect sites callee start.functions[callee]).pseudoCopy =
        some (.pseudoCopy first.calleeSymbol) :=
    isSymbol
  simp only [Binary.copyOf, isCallee, Option.bind_some, hasCopy,
    pass.copiesRun.symbols, isCopy.named]

/-- The filtered set of a site's callee, by its copy. -/
theorem copyFilters_iff {before : List Site} {site first : Site}
    {place : Nat} {copy : BinaryFunction}
    (member : site ∈ sites)
    (isSymbol :
      copySymbol sites site.callee =
        some (.pseudoCopy first.calleeSymbol))
    (isCopy : CopyOf start redirected sites before first place copy)
    (reg : Reg) :
    copiesDone.CopyFilters site.callee reg ↔
      setting.filteredRegs copy reg = true := by
  obtain ⟨_, _, isSite⟩ := pass.areSites.areSites site member
  have isPlace :=
    pass.copyOf_eq (pass.scanned.table _ _ isSite.nameCallee) isSymbol
      isCopy
  have isDone := pass.copiesDone_copy isCopy.behind isCopy.isCopy
  constructor
  · rintro ⟨index, other, isIndex, isOther, filtered⟩
    rw [isPlace] at isIndex
    cases isIndex
    rw [isDone] at isOther
    cases isOther
    exact filtered
  · intro filtered
    exact ⟨place, _, isPlace, isDone, filtered⟩

/-- No instruction of the program refers to a copy before it is redirected. -/
theorem not_target {index node : Nat} {fn : BinaryFunction} {inst : MCInst}
    (isFn : start.functions[index]? = some fn)
    (isInst : fn.insts[node]? = some inst) (callee : Symbol) :
    inst.getTargetSymbol ≠ some (.pseudoCopy callee) := by
  intro target
  exact (pass.scanned.functions fn (List.mem_of_getElem? isFn)).noCopies
    inst (List.mem_of_getElem? isInst) callee (getTargetSymbol_mem target)

/-- What is at a site in the end. -/
theorem call_at_site {site : Site} {fn : BinaryFunction} {inst : MCInst}
    (member : site ∈ sites) (isSite : start.IsSite site fn inst) :
    ∃ before first place copy,
      CopyOf start redirected sites before first place copy ∧
        copySymbol sites site.callee =
          some (.pseudoCopy first.calleeSymbol) ∧
        (redirect sites site.caller fn).insts[site.node]? =
          some (callToCopy first) := by
  obtain ⟨before, first, place, copy, -, isSymbol, isCopy⟩ :=
    pass.copyOf_site member
  obtain ⟨symbol, sameSymbol, isCall⟩ :=
    pass.redirect_site (fun _ inSites => inSites) isSite member
  rw [isSymbol] at sameSymbol
  cases sameSymbol
  exact ⟨before, first, place, copy, isCopy, isSymbol, isCall⟩

end RunOfCopies

namespace RunOfPass

variable {setting : Setting} {start redirected copiesDone final : Binary}
  {sites : List Site} {runs : List Nat}

section Places

variable
  (pass :
    RunOfPass setting start sites runs redirected copiesDone final)
include pass

theorem final_copy {place : Nat} {copy : BinaryFunction}
    (behind : start.functions.length ≤ place)
    (isCopy : redirected.functions[place]? = some copy) :
    final.functions[place]? = some (scannedCopy setting copy) := by
  have notRun : place ∉ runs := by
    rw [pass.runs]
    omega
  rw [pass.run.functions, pass.copiesDone_copy behind isCopy]
  simp only [notRun, ↓reduceIte, Option.map_some]

/-- A function of the program at the end. -/
theorem final_original {index : Nat} {fn : BinaryFunction}
    (isFn : start.functions[index]? = some fn) :
    redirected.functions[index]? = some (redirect sites index fn) ∧
      final.functions[index]? =
        some (scannedCopy setting (redirect sites index fn)) ∧
      final.instrumented index =
        some (setting.instrument copiesDone (redirect sites index fn)) := by
  obtain ⟨isOriginal, -⟩ := List.getElem?_eq_some_iff.mp isFn
  have isRun : index ∈ runs := (pass.runs index).mpr isOriginal
  have isRedirected :
      redirected.functions[index]? = some (redirect sites index fn) := by
    rw [pass.made.originals index isOriginal, isFn]
    rfl
  have isDone := pass.copiesDone_original isOriginal
  rw [isRedirected] at isDone
  refine ⟨isRedirected, ?_, ?_⟩
  · rw [pass.run.functions, isDone, Option.map_some, if_pos isRun]
  · rw [pass.run.instrumented, if_pos isRun, isDone]
    rfl

theorem final_instrumented_copy {place : Nat} {copy : BinaryFunction}
    (behind : start.functions.length ≤ place)
    (isCopy : redirected.functions[place]? = some copy) :
    final.instrumented place = some (setting.instrument redirected copy) := by
  obtain ⟨inRange, -⟩ := List.getElem?_eq_some_iff.mp isCopy
  have notRun : place ∉ runs := by
    rw [pass.runs]
    omega
  have member :
      place ∈ List.range' start.functions.length
        (redirected.functions.length - start.functions.length) := by
    rw [List.mem_range'_1]
    omega
  rw [pass.run.instrumented, if_neg notRun, pass.copiesRun.instrumented,
    if_pos member, isCopy]
  rfl

/-- The symbols are those of the redirected binary to the end. -/
theorem symbols :
    final.getFunctionForSymbol = redirected.getFunctionForSymbol ∧
      copiesDone.getFunctionForSymbol =
        redirected.getFunctionForSymbol :=
  ⟨pass.run.symbols.trans pass.copiesRun.symbols, pass.copiesRun.symbols⟩

/-- The callee of a call to a site's copy, once the copies are done. -/
theorem calleeOf_copy {before : List Site} {first : Site} {place : Nat}
    {copy : BinaryFunction} {inst : MCInst}
    (isCopy : CopyOf start redirected sites before first place copy)
    (target :
      inst.getTargetSymbol = some (.pseudoCopy first.calleeSymbol)) :
    copiesDone.calleeOf inst = some (scannedCopy setting copy) ∧
      final.calleeOf inst = some (scannedCopy setting copy) := by
  obtain ⟨ofFinal, ofCopies⟩ := pass.symbols
  constructor
  · simp only [Binary.calleeOf, target, Option.bind_some, ofCopies,
      isCopy.named, pass.copiesDone_copy isCopy.behind isCopy.isCopy]
  · simp only [Binary.calleeOf, target, Option.bind_some, ofFinal,
      isCopy.named, pass.final_copy isCopy.behind isCopy.isCopy]

end Places

/-- What an instruction adds to its loop's set is evacuated around it. -/
theorem evacuatedIn_of_evacuates {setting : Setting} {bin : Binary}
    {fn : BinaryFunction} {node : Nat} {inst : MCInst} {reg : Reg}
    (isInst : fn.insts[node]? = some inst)
    (evacuates : setting.evacuates bin fn node inst reg = true) :
    EvacuatedIn setting fn (setting.instrument bin fn) node reg := by
  have isEvac :
      (setting.loops fn.symbol).annotateReg node reg = .evac := by
    simp only [Setting.evacuates, Bool.and_eq_true, beq_iff_eq] at evacuates
    exact evacuates.2
  cases innermost : (setting.loops fn.symbol).getLoopFor node with
  | none =>
      simp [LoopFunction.annotateReg, innermost] at isEvac
  | some loop =>
      refine ⟨loop, ?_, ?_⟩
      · exact (List.mem_filter.mp (List.mem_of_getLast? innermost)).2
      · change setting.regsToEvac bin fn loop reg = true
        rw [Setting.regsToEvac, List.any_eq_true]
        exact ⟨(inst, node), List.mem_zipIdx_iff_getElem?.mpr isInst,
          by simp [innermost, evacuates]⟩

/-- A call that is not marked restores nothing. -/
theorem not_restores_of_unmarked {setting : Setting} {bin : Binary}
    {fn : BinaryFunction} {node : Nat} {inst : MCInst} {reg : Reg}
    (unmarked : inst.annotations.pseudoInline = false)
    (valid : validReg reg = true) :
    ¬ (setting.modifyInst bin fn node inst).Restores reg := by
  have noRegs :
      ∀ other,
        setting.regsFromPseudoInline bin fn node inst other = true →
          validReg other = true := by
    intro other taken
    simp [Setting.regsFromPseudoInline, unmarked] at taken
  rw [Setting.modifyInst,
    setting.registers.restores_iff inst noRegs valid]
  rintro ⟨item, taken, -⟩
  simp [Setting.regsFromPseudoInline, unmarked] at taken

/-- A marked call restores the general registers that it is to save. -/
theorem restores_or_evacuatedIn_iff {setting : Setting} {bin : Binary}
    {fn copy : BinaryFunction} {node : Nat} {inst : MCInst} {reg : Reg}
    (isInst : fn.insts[node]? = some inst)
    (marked : inst.annotations.pseudoInline = true)
    (callee : bin.calleeOf inst = some (scannedCopy setting copy))
    (filtered : setting.filteredRegs copy reg = true) :
    (setting.modifyInst bin fn node inst).Restores reg ∨
        EvacuatedIn setting fn (setting.instrument bin fn) node reg ↔
      (∃ gpr, reg = .gpr gpr) ∨
        EvacuatedIn setting fn (setting.instrument bin fn) node reg := by
  have saved :
      ∀ other,
        setting.regsToSave bin fn node inst other =
          setting.filteredRegs copy other := by
    intro other
    simp only [Setting.regsToSave, marked, ↓reduceIte, callee]
  have areValid :
      ∀ other,
        setting.regsFromPseudoInline bin fn node inst other = true →
          validReg other = true := by
    intro other taken
    simp only [Setting.regsFromPseudoInline, Bool.and_eq_true,
      saved] at taken
    exact setting.filteredRegs_valid taken.1.2
  have isValid := setting.filteredRegs_valid filtered
  rw [Setting.modifyInst,
    setting.registers.restores_iff inst areValid isValid]
  constructor
  · rintro (⟨item, -, isReg⟩ | evacuated)
    · exact .inl ⟨_, isReg⟩
    · exact .inr evacuated
  · rintro (⟨gpr, rfl⟩ | evacuated)
    · cases evacuates : setting.evacuates bin fn node inst (.gpr gpr) with
      | true => exact .inr (evacuatedIn_of_evacuates isInst evacuates)
      | false =>
          refine .inl ⟨.gpr gpr, ?_, rfl⟩
          simp [Setting.regsFromPseudoInline, marked, saved, filtered,
            evacuates]
    · exact .inr evacuated

section Cases

variable
  (pass :
    RunOfPass setting start sites runs redirected copiesDone final)
include pass

/-- Only a symbol of a copy names one. -/
theorem pseudoCopy_of_calleeOf {inst : MCInst} {callee : BinaryFunction}
    (isCallee : final.calleeOf inst = some callee)
    (isPseudoCopy : callee.isPseudoCopy = true) :
    ∃ symbol, inst.getTargetSymbol = some (.pseudoCopy symbol) := by
  obtain ⟨symbol, target, found⟩ := Option.bind_eq_some_iff.mp isCallee
  obtain ⟨index, inTable, isFn⟩ := Option.bind_eq_some_iff.mp found
  by_cases isCopy : ∃ other, symbol = .pseudoCopy other
  · obtain ⟨other, rfl⟩ := isCopy
    exact ⟨other, target⟩
  · have original : start.getFunctionForSymbol symbol = some index := by
      rw [← pass.made.symbols symbol fun other same => isCopy ⟨other, same⟩,
        ← pass.symbols.1]
      exact inTable
    have inRange := pass.scanned.table symbol index original
    obtain ⟨-, isFinal, -⟩ :=
      pass.final_original (List.getElem?_eq_getElem inRange)
    rw [isFn] at isFinal
    have notCopy :=
      (pass.scanned.functions _ (List.getElem_mem inRange)).notCopy
    rw [Option.some.inj isFinal] at isPseudoCopy
    rw [show (scannedCopy setting
          (redirect sites index start.functions[index])).isPseudoCopy =
        start.functions[index].isPseudoCopy from rfl, notCopy]
      at isPseudoCopy
    cases isPseudoCopy

/-- The calls of a function of the program, by its sites. -/
theorem callsBracketed_original_iff {index : Nat} {fn : BinaryFunction}
    (isFn : start.functions[index]? = some fn) :
    CallsBracketed setting final
        (scannedCopy setting (redirect sites index fn))
        (setting.instrument copiesDone (redirect sites index fn)) ↔
      ∀ site ∈ sites, site.caller = index → ∀ vector,
        copiesDone.CopyFilters site.callee (.xmm vector) →
          copiesDone.Evacuated setting site.caller site.node
            (.xmm vector) := by
  have insts :
      (redirect sites index fn).insts =
        fn.insts.mapIdx (redirectInst sites index) :=
    fn.mapInsts_insts _
  obtain ⟨isOriginal, -⟩ := List.getElem?_eq_some_iff.mp isFn
  have isDone :
      copiesDone.functions[index]? = some (redirect sites index fn) := by
    rw [pass.copiesDone_original isOriginal]
    exact (pass.final_original isFn).1
  have code (node : Nat) :
      (setting.instrument copiesDone
          (redirect sites index fn)).code[node]? =
        (redirect sites index fn).insts[node]?.map
          (setting.modifyInst copiesDone (redirect sites index fn) node) :=
    List.getElem?_mapIdx
  constructor
  · rintro bracketed site member rfl vector filters
    obtain ⟨siteFn, inst, isSite⟩ := pass.areSites.areSites site member
    have sameFn : siteFn = fn := by
      have ofSite := isSite.caller
      rw [isFn] at ofSite
      exact (Option.some.inj ofSite).symm
    subst sameFn
    obtain ⟨before, first, place, copy, isCopy, isSymbol, isCall⟩ :=
      pass.call_at_site member isSite
    have target :
        (callToCopy first).getTargetSymbol =
          some (.pseudoCopy first.calleeSymbol) :=
      rfl
    obtain ⟨ofCopies, ofFinal⟩ := pass.calleeOf_copy isCopy target
    have filtered :=
      (pass.copyFilters_iff member isSymbol isCopy _).mp filters
    have isPlaced := code site.node
    rw [isCall, Option.map_some] at isPlaced
    have ofCall :=
      bracketed site.node _ isPlaced rfl _ ofFinal
        isCopy.copyAt.isPseudoCopy _ filtered
    rcases (restores_or_evacuatedIn_iff isCall rfl ofCopies filtered).mp
        ofCall with ⟨gpr, isGpr⟩ | evacuated
    · cases isGpr
    · exact ⟨_, isDone, evacuated⟩
  · intro evacuated node placed isPlaced isCall callee isCallee
      isPseudoCopy reg filtered
    rw [code node] at isPlaced
    obtain ⟨inst, isInst, rfl⟩ := Option.map_eq_some_iff.mp isPlaced
    rw [insts, List.getElem?_mapIdx] at isInst
    obtain ⟨original, isOriginalInst, rfl⟩ :=
      Option.map_eq_some_iff.mp isInst
    obtain ⟨symbol, target⟩ :=
      pass.pseudoCopy_of_calleeOf isCallee isPseudoCopy
    rcases pass.redirectInst_cases (fun _ inSites => inSites) isFn
        isOriginalInst with same | ⟨site, member, rfl, rfl, isSite⟩
    · have notTarget := pass.not_target isFn isOriginalInst symbol
      rw [← same] at notTarget
      exact absurd target notTarget
    · obtain ⟨before, first, place, copy, isCopy, isSymbol, atSite⟩ :=
        pass.call_at_site member isSite
      have isCallInst :
          redirectInst sites site.caller site.node original =
            callToCopy first := by
        rw [insts, List.getElem?_mapIdx, isOriginalInst] at atSite
        exact Option.some.inj atSite
      rw [isCallInst] at isCallee ⊢
      have isTarget :
          (callToCopy first).getTargetSymbol =
            some (.pseudoCopy first.calleeSymbol) :=
        rfl
      obtain ⟨ofCopies, ofFinal⟩ := pass.calleeOf_copy isCopy isTarget
      have sameCallee :
          some (scannedCopy setting copy) = some callee :=
        ofFinal.symm.trans isCallee
      cases sameCallee
      refine (restores_or_evacuatedIn_iff atSite rfl ofCopies
        filtered).mpr ?_
      cases reg with
      | gpr gpr => exact .inl ⟨gpr, rfl⟩
      | eflags => cases setting.filteredRegs_valid filtered
      | xmm vector =>
          obtain ⟨other, isOther, inLoop⟩ :=
            evacuated site member rfl vector
              ((pass.copyFilters_iff member isSymbol isCopy _).mpr
                filtered)
          rw [isDone] at isOther
          cases isOther
          exact .inr inLoop

/-- A copied function has CFIs where the original has them. -/
theorem isCFI_redirectInst {done : List Site} {caller node : Nat}
    {fn : BinaryFunction} {inst : MCInst}
    (within : ∀ other ∈ done, other ∈ sites)
    (isFn : start.functions[caller]? = some fn)
    (isInst : fn.insts[node]? = some inst) :
    (redirectInst done caller node inst).isCFI = inst.isCFI := by
  rcases pass.redirectInst_cases within isFn isInst with
    same | ⟨site, member, rfl, rfl, isSite⟩
  · rw [same]
  · obtain ⟨symbol, -, isCall⟩ :=
      pass.redirect_site within isSite member
    have insts :
        (redirect done site.caller fn).insts =
          fn.insts.mapIdx (redirectInst done site.caller) :=
      fn.mapInsts_insts _
    rw [insts, List.getElem?_mapIdx, isInst] at isCall
    have isMember := List.mem_of_getElem? isFn
    have instMember := List.mem_of_getElem? isInst
    rw [Option.some.inj isCall]
    -- a marked instruction is a call, and no CFI is one
    cases isCFI : inst.isCFI with
    | false => rfl
    | true =>
        have isCallInst :=
          (pass.scanned.marked fn isMember inst instMember
            isSite.marked).1
        have noTailCall :=
          (pass.scanned.functions fn isMember).cfis inst instMember isCFI
        simp only [MCInst.isCFI, beq_iff_eq] at isCFI
        simp [MCInst.isCall, isCFI, noTailCall] at isCallInst

omit pass in
/-- The instructions of a copy. -/
theorem insts_of_copy {before : List Site} {first : Site} {place : Nat}
    {copy : BinaryFunction}
    (isCopy : CopyOf start redirected sites before first place copy) :
    ∃ fn namePatchMap, start.functions[first.callee]? = some fn ∧
      MapsLabels namePatchMap ∧
      (∀ other ∈ before, other ∈ sites) ∧
      copy.insts =
        (fn.insts.mapIdx (redirectInst before first.callee)).filterMap
          fun inst =>
            inst.copy?.map (MCInst.patchLocalSymbol namePatchMap) := by
  obtain ⟨fn, namePatchMap, isFn, mapsLabels, insts⟩ := isCopy.copyAt.insts
  obtain ⟨after, split⟩ := isCopy.split
  refine ⟨fn, namePatchMap, isFn, mapsLabels, ?_, ?_⟩
  · intro other member
    rw [split]
    exact List.mem_append_left _ member
  · rw [insts]
    congr 1
    exact fn.mapInsts_insts _

omit pass in
theorem isSome_copy (namePatchMap : Dict Symbol Symbol) (inst : MCInst) :
    (inst.copy?.map (MCInst.patchLocalSymbol namePatchMap)).isSome =
      !inst.isCFI := by
  unfold MCInst.copy?
  cases inst.isCFI <;> rfl

/-- Where a copy has an instruction of its callee. -/
theorem countP_before_copied {before : List Site} {caller : Nat}
    {fn : BinaryFunction} (within : ∀ other ∈ before, other ∈ sites)
    (isFn : start.functions[caller]? = some fn) (node : Nat)
    (namePatchMap : Dict Symbol Symbol) :
    ((fn.insts.mapIdx (redirectInst before caller)).take node).countP
        (fun inst =>
          (inst.copy?.map
            (MCInst.patchLocalSymbol namePatchMap)).isSome) =
      (fn.insts.take node).countP (!·.isCFI) := by
  simp only [isSome_copy]
  refine countP_take_mapIdx ?_ node
  intro place inst isInst
  rw [pass.isCFI_redirectInst within isFn isInst]

/-- A call that was redirected before its function was copied. -/
theorem copied_call {before : List Site} {site first : Site} {place : Nat}
    {copy : BinaryFunction}
    (isCopy : CopyOf start redirected sites before first place copy)
    (member : site ∈ before) (ofCallee : site.caller = first.callee) :
    ∃ beforeCallee calleeFirst calleePlace calleeCopy,
      CopyOf start redirected sites beforeCallee calleeFirst calleePlace
          calleeCopy ∧
        copySymbol sites site.callee =
          some (.pseudoCopy calleeFirst.calleeSymbol) ∧
        copy.insts[start.copiedNode site]? =
          some (createCall (.pseudoCopy calleeFirst.calleeSymbol)) := by
  obtain ⟨fn, namePatchMap, isFn, mapsLabels, within, insts⟩ :=
    insts_of_copy isCopy
  have inSites := within site member
  obtain ⟨siteFn, inst, isSite⟩ := pass.areSites.areSites site inSites
  rw [← ofCallee] at isFn insts
  have sameFn : siteFn = fn := by
    have ofSite := isSite.caller
    rw [isFn] at ofSite
    exact (Option.some.inj ofSite).symm
  subst sameFn
  obtain ⟨beforeCallee, calleeFirst, calleePlace, calleeCopy, -, isSymbol,
      isCalleeCopy⟩ :=
    pass.copyOf_site inSites
  refine ⟨beforeCallee, calleeFirst, calleePlace, calleeCopy,
    isCalleeCopy, isSymbol, ?_⟩
  obtain ⟨symbol, symbolBefore, isCall⟩ :=
    pass.redirect_site within isSite member
  obtain ⟨after, split⟩ := isCopy.split
  have symbolNow :=
    @copySymbol_of_isPrefix before (first :: after) _ _ symbolBefore
  rw [← split, isSymbol] at symbolNow
  cases symbolNow
  have ofInsts :
      (redirect before site.caller siteFn).insts =
        siteFn.insts.mapIdx (redirectInst before site.caller) :=
    siteFn.mapInsts_insts _
  rw [ofInsts] at isCall
  have notPatched :
      namePatchMap.get? (.pseudoCopy calleeFirst.calleeSymbol) = none := by
    cases patched :
        namePatchMap.get? (.pseudoCopy calleeFirst.calleeSymbol) with
    | none => rfl
    | some newSymbol =>
        obtain ⟨⟨id, isLabel⟩, -⟩ := mapsLabels _ _ patched
        cases isLabel
  have isImage :
      (callToCopy calleeFirst).copy?.map
          (MCInst.patchLocalSymbol namePatchMap) =
        some (createCall (.pseudoCopy calleeFirst.calleeSymbol)) := by
    have sameOperand :
        MCOperand.patchLocalSymbol namePatchMap
            (.symbolRef (.pseudoCopy calleeFirst.calleeSymbol)) =
          .symbolRef (.pseudoCopy calleeFirst.calleeSymbol) := by
      simp [MCOperand.patchLocalSymbol, notPatched]
    exact congrArg (fun operand => some (MCInst.mk .call [operand] .none))
      sameOperand
  have found :=
    @getElem?_filterMap_countP _ _
      (fun inst => inst.copy?.map (MCInst.patchLocalSymbol namePatchMap))
      _ _ _ _ isCall isImage
  rw [pass.countP_before_copied within isFn] at found
  rw [insts, Binary.copiedNode, isFn]
  exact found

/-- A call to a copy, in a copy. -/
theorem of_call_in_copy {before : List Site} {first : Site}
    {place node : Nat} {copy : BinaryFunction} {inst : MCInst}
    {symbol : Symbol}
    (isCopy : CopyOf start redirected sites before first place copy)
    (isInst : copy.insts[node]? = some inst)
    (target : inst.getTargetSymbol = some (.pseudoCopy symbol)) :
    ∃ site ∈ before, site.caller = first.callee ∧
      start.copiedNode site = node := by
  obtain ⟨fn, namePatchMap, isFn, mapsLabels, within, insts⟩ :=
    insts_of_copy isCopy
  rw [insts] at isInst
  obtain ⟨source, copied, isSource, isImage, isNode⟩ :=
    exists_getElem?_of_filterMap isInst
  rw [pass.countP_before_copied within isFn] at isNode
  rw [List.getElem?_mapIdx] at isSource
  obtain ⟨original, isOriginal, rfl⟩ := Option.map_eq_some_iff.mp isSource
  obtain ⟨stripped, isStripped, rfl⟩ := Option.map_eq_some_iff.mp isImage
  have ofStripped := target_of_patch mapsLabels target
  have ofRedirected :
      (redirectInst before first.callee source original).getTargetSymbol =
        some (.pseudoCopy symbol) := by
    unfold MCInst.copy? at isStripped
    split at isStripped
    · cases isStripped
    · cases isStripped
      exact ofStripped
  rcases pass.redirectInst_cases within isFn isOriginal with
    same | ⟨site, member, isCaller, isPlace, -⟩
  · rw [same] at ofRedirected
    exact absurd ofRedirected (pass.not_target isFn isOriginal symbol)
  · refine ⟨site, member, isCaller, ?_⟩
    rw [Binary.copiedNode, isCaller, isFn, isPlace]
    exact isNode

/-- The calls of a copy, by the sites before it was made. -/
theorem callsBracketed_copy_iff {before : List Site} {first : Site}
    {place : Nat} {copy : BinaryFunction}
    (isCopy : CopyOf start redirected sites before first place copy) :
    CallsBracketed setting final (scannedCopy setting copy)
        (setting.instrument redirected copy) ↔
      ∀ site ∈ before, site.caller = first.callee → ∀ reg,
        copiesDone.CopyFilters site.callee reg →
          copiesDone.Evacuated setting place (start.copiedNode site)
            reg := by
  have unmarked := isCopy.copyAt.unmarked
  have isDone := pass.copiesDone_copy isCopy.behind isCopy.isCopy
  have sameInstrument :
      setting.instrument copiesDone copy =
        setting.instrument redirected copy :=
    setting.instrument_congr fun inst member marked => by
      rw [unmarked inst member] at marked
      cases marked
  have evacuated_iff (node : Nat) (reg : Reg) :
      copiesDone.Evacuated setting place node reg ↔
        EvacuatedIn setting (scannedCopy setting copy)
          (setting.instrument redirected copy) node reg := by
    rw [← sameInstrument]
    constructor
    · rintro ⟨other, isOther, inLoop⟩
      rw [isDone] at isOther
      cases isOther
      exact inLoop
    · intro inLoop
      exact ⟨_, isDone, inLoop⟩
  have code (node : Nat) :
      (setting.instrument redirected copy).code[node]? =
        copy.insts[node]?.map (setting.modifyInst redirected copy node) :=
    List.getElem?_mapIdx
  constructor
  · intro bracketed site member ofCallee reg filters
    obtain ⟨beforeCallee, calleeFirst, calleePlace, calleeCopy,
        isCalleeCopy, isSymbol, isCall⟩ :=
      pass.copied_call isCopy member ofCallee
    obtain ⟨-, -, -, -, within, -⟩ := insts_of_copy isCopy
    have filtered :=
      (pass.copyFilters_iff (within site member) isSymbol isCalleeCopy
        reg).mp filters
    have target :
        (createCall
            (.pseudoCopy calleeFirst.calleeSymbol)).getTargetSymbol =
          some (.pseudoCopy calleeFirst.calleeSymbol) :=
      rfl
    have isPlaced := code (start.copiedNode site)
    rw [isCall, Option.map_some] at isPlaced
    have ofCall :=
      bracketed (start.copiedNode site) _ isPlaced rfl _
        (pass.calleeOf_copy isCalleeCopy target).2
        isCalleeCopy.copyAt.isPseudoCopy reg filtered
    rw [evacuated_iff]
    refine ofCall.resolve_left ?_
    exact not_restores_of_unmarked rfl (setting.filteredRegs_valid filtered)
  · intro evacuated node placed isPlaced isCall callee isCallee
      isPseudoCopy reg filtered
    rw [code node] at isPlaced
    obtain ⟨inst, isInst, rfl⟩ := Option.map_eq_some_iff.mp isPlaced
    obtain ⟨symbol, target⟩ :=
      pass.pseudoCopy_of_calleeOf isCallee isPseudoCopy
    obtain ⟨site, member, ofCallee, rfl⟩ :=
      pass.of_call_in_copy isCopy isInst target
    obtain ⟨beforeCallee, calleeFirst, calleePlace, calleeCopy,
        isCalleeCopy, isSymbol, atSite⟩ :=
      pass.copied_call isCopy member ofCallee
    obtain ⟨-, -, -, -, within, -⟩ := insts_of_copy isCopy
    rw [isInst] at atSite
    cases atSite
    have isTarget :
        (createCall
            (.pseudoCopy calleeFirst.calleeSymbol)).getTargetSymbol =
          some (.pseudoCopy calleeFirst.calleeSymbol) :=
      rfl
    have sameCallee :
        some (scannedCopy setting calleeCopy) = some callee :=
      (pass.calleeOf_copy isCalleeCopy isTarget).2.symm.trans isCallee
    cases sameCallee
    right
    rw [← evacuated_iff]
    exact evacuated site member ofCallee reg
      ((pass.copyFilters_iff (within site member) isSymbol isCalleeCopy
        reg).mpr filtered)

/-- The copies that are made late, each by its first site. -/
theorem lateCopiesEvacuated_iff :
    LateCopiesEvacuated setting start copiesDone sites ↔
      ∀ before first place copy,
        CopyOf start redirected sites before first place copy →
          ∀ site ∈ before, site.caller = first.callee → ∀ reg,
            copiesDone.CopyFilters site.callee reg →
              copiesDone.Evacuated setting place (start.copiedNode site)
                reg := by
  constructor
  · intro late before first place copy isCopy site member ofCallee reg
      filters
    obtain ⟨after, split⟩ := isCopy.split
    obtain ⟨front, back, rfl⟩ := List.append_of_mem member
    have firstInSites : first ∈ sites := by
      rw [split]
      exact List.mem_append_right _ List.mem_cons_self
    obtain ⟨_, _, isFirstSite⟩ :=
      pass.areSites.areSites first firstInSites
    have isSymbol :
        copySymbol sites site.caller =
          some (.pseudoCopy first.calleeSymbol) := by
      rw [split, ofCallee]
      exact copySymbol_first isCopy.isFirst
    have isPlace :=
      pass.copyOf_eq
        (ofCallee ▸ pass.scanned.table _ _ isFirstSite.nameCallee) isSymbol
        isCopy
    refine late front site (back ++ first :: after) ?_ ?_ ?_ place isPlace
      reg filters
    · rw [split, List.append_assoc, List.cons_append]
    · intro other inFront same
      rw [ofCallee] at same
      refine isCopy.isFirst other ?_ same
      rcases List.mem_append.mp inFront with inFront | isSite
      · exact List.mem_append_left _ inFront
      · rw [List.mem_singleton.mp isSite]
        exact member
    · exact ⟨first, List.mem_append_right _ List.mem_cons_self,
        ofCallee.symm⟩
  · intro ofCopies before site after split others later callerCopy isCopyOf
      reg filters
    obtain ⟨other, inAfter, otherCallee⟩ := later
    have otherInSites : other ∈ sites := by
      rw [split]
      exact List.mem_append_right _ (List.mem_cons_of_mem _ inAfter)
    obtain ⟨_, _, isOther⟩ := pass.areSites.areSites other otherInSites
    obtain ⟨beforeFirst, first, place, copy, isCallee, isSymbol, isCopy⟩ :=
      pass.copyOf_site otherInSites
    have inTable := pass.scanned.table _ _ isOther.nameCallee
    rw [otherCallee] at isCallee isSymbol inTable
    have isPlace := pass.copyOf_eq inTable isSymbol isCopy
    rw [isPlace] at isCopyOf
    cases isCopyOf
    refine ofCopies beforeFirst first _ copy isCopy site ?_
      isCallee.symm reg filters
    -- the first site that calls the caller comes behind this one
    obtain ⟨afterFirst, splitFirst⟩ := isCopy.split
    have both :
        (before ++ [site]) ++ after = beforeFirst ++ first :: afterFirst := by
      rw [← splitFirst, split]
      simp
    rcases List.append_eq_append_iff.mp both with
      ⟨between, rfl, -⟩ | ⟨between, isFront, isBack⟩
    · simp
    · cases between with
      | nil =>
          rw [List.append_nil] at isFront
          rw [← isFront]
          simp
      | cons head tail =>
          rw [List.cons_append] at isBack
          obtain ⟨rfl, -⟩ := List.cons.inj isBack
          have inFront : first ∈ before ++ [site] := by
            rw [isFront]
            exact List.mem_append_right _ List.mem_cons_self
          exact absurd isCallee (others first inFront)

/-- The final program is bracketed where nothing is left unsaved. -/
theorem bracketed_iff :
    Bracketed setting final ↔
      VectorsEvacuated setting copiesDone sites ∧
        LateCopiesEvacuated setting start copiesDone sites := by
  rw [pass.lateCopiesEvacuated_iff]
  have codeInsts (bin : Binary) (fn : BinaryFunction) :
      (setting.instrument bin fn).code.map (·.inst) = fn.insts := by
    apply List.ext_getElem?
    intro node
    simp [Setting.instrument, Setting.modifyInst, Function.comp_def]
  constructor
  · intro bracketed
    constructor
    · intro site member vector filters
      obtain ⟨fn, inst, isSite⟩ := pass.areSites.areSites site member
      obtain ⟨-, isFinal, isInstrumented⟩ :=
        pass.final_original isSite.caller
      obtain ⟨instrumented, same, -, calls⟩ :=
        bracketed site.caller _ isFinal
      rw [isInstrumented] at same
      cases same
      exact (pass.callsBracketed_original_iff isSite.caller).mp calls site
        member rfl vector filters
    · intro before first place copy isCopy
      obtain ⟨instrumented, same, -, calls⟩ :=
        bracketed place _ (pass.final_copy isCopy.behind isCopy.isCopy)
      rw [pass.final_instrumented_copy isCopy.behind isCopy.isCopy] at same
      cases same
      exact (pass.callsBracketed_copy_iff isCopy).mp calls
  · rintro ⟨vectors, late⟩ index fn isFn
    by_cases isOriginal : index < start.functions.length
    · have isStart := List.getElem?_eq_getElem isOriginal
      obtain ⟨-, isFinal, isInstrumented⟩ := pass.final_original isStart
      rw [isFinal] at isFn
      cases isFn
      refine ⟨_, isInstrumented, codeInsts _ _, ?_⟩
      exact (pass.callsBracketed_original_iff isStart).mpr
        fun site member _ => vectors site member
    · have behind : start.functions.length ≤ index := by omega
      have notRun : index ∉ runs := by
        rw [pass.runs]
        exact isOriginal
      rw [pass.run.functions] at isFn
      obtain ⟨doneFn, isDone, -⟩ := Option.map_eq_some_iff.mp isFn
      rw [pass.copiesRun.functions] at isDone
      obtain ⟨copy, isRedirected, -⟩ := Option.map_eq_some_iff.mp isDone
      have isFinal := pass.final_copy behind isRedirected
      rw [pass.run.functions, isFn] at isFinal
      cases isFinal
      obtain ⟨before, first, after, split, isFirst, named, copyAt⟩ :=
        pass.made.onlyCopies index copy behind isRedirected
      have isCopy :
          CopyOf start redirected sites before first index copy :=
        ⟨⟨after, split⟩, isFirst, behind, isRedirected, named, copyAt⟩
      exact ⟨_, pass.final_instrumented_copy behind isRedirected,
        codeInsts _ _,
        (pass.callsBracketed_copy_iff isCopy).mpr
          (late before first index copy isCopy)⟩

end Cases

end RunOfPass

end Msh.PseudoInline
