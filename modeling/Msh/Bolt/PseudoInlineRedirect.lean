import Msh.Bolt.CopiedBlocks
import Msh.Bolt.PseudoInlineSites

/-!
# Redirecting all sites

What one call of `modifyInst` does to the binary, and from it what comes of
going over the functions in any order: all their sites are redirected, and no
assertion fails.
-/

namespace Msh.PseudoInline

open X86

/-! ## Making a copy -/

namespace Copying

variable (copying : Copying)

theorem copy_insts :
    copying.copy.insts =
      copying.callee.insts.filterMap copying.copyInst? := by
  simp [copy, BinaryFunction.insts, copyBlock, List.filterMap_flatMap,
    List.flatMap_map]

/-- With proper labels, the map sends labels to labels. -/
theorem patchMap_mapsLabels
    (labels : ∀ label ∈ copying.callee.labels, ∃ id, label = .label id)
    (mapsLabels : MapsLabels copying.state.namePatchMap) :
    MapsLabels copying.patchMap := by
  intro symbol newSymbol patched
  rw [copying.patchMap_get?] at patched
  split at patched
  · next member =>
      cases patched
      obtain ⟨id, -, -, isLabel⟩ :=
        mem_freshLabels_iff.mp (copying.rename_mem member)
      exact ⟨labels symbol member, id, isLabel⟩
  · exact mapsLabels symbol newSymbol patched

end Copying

/-- A function of the program, some sites redirected, is ready to be copied. -/
def copyingOf {nextLabel : Nat} {fn : BinaryFunction}
    (wellFormed : fn.WellFormed nextLabel) (done : List Site) (site : Site)
    (state : PatchState) (notBelow : nextLabel ≤ state.nextLabel) :
    Copying where
  callee := redirect done site.callee fn
  calleeSymbol := site.calleeSymbol
  state := state
  labelsDistinct := by
    have same : (redirect done site.callee fn).labels = fn.labels :=
      fn.mapInsts_labels _
    rw [same]
    exact wellFormed.labelsDistinct
  successorsInside bb member := by
    obtain ⟨original, inBlocks, isSame⟩ := fn.mapInsts_successors _ member
    have same : (redirect done site.callee fn).labels = fn.labels :=
      fn.mapInsts_labels _
    rw [← isSame, same]
    exact wellFormed.successorsInside original inBlocks
  labelsOlder label member := by
    have same : (redirect done site.callee fn).labels = fn.labels :=
      fn.mapInsts_labels _
    rw [same] at member
    obtain ⟨id, older, rfl⟩ := wellFormed.labelsOlder label member
    exact Nat.lt_of_lt_of_le older notBelow

/-- The functions after a site's copy is set up, the call not yet replaced. -/
def copiedShape (done : List Site) (site : Site) (index : Nat)
    (fn : BinaryFunction) : BinaryFunction :=
  { redirect done index fn with
    pseudoCopy := copySymbol (done ++ [site]) index }

/-- The sites so far name their callees. -/
def NameCallees (start : Binary) (done : List Site) : Prop :=
  ∀ site ∈ done,
    start.getFunctionForSymbol site.calleeSymbol = some site.callee

section SetUp

variable {start bin : Binary} {done : List Site} {site : Site}
  {namePatchMap : Dict Symbol Symbol}

/-- The copies made so far have other names than a callee's first one. -/
theorem symbol_ne_of_first {copy : BinaryFunction} {other : Site}
    (isFirst : FirstOf done site)
    (names : NameCallees start (done ++ [site]))
    (isCopy : IsCopyAt start done site copy) (isDone : other ∈ done) :
    Symbol.pseudoCopy other.calleeSymbol ≠ copy.symbol := by
  rw [isCopy.symbol]
  intro same
  have ofOther := names other (List.mem_append_left _ isDone)
  have ofSite :=
    names site (List.mem_append_right _ (List.mem_singleton_self _))
  rw [Symbol.pseudoCopy.inj same, ofSite] at ofOther
  exact isFirst other isDone (Option.some.inj ofOther).symm

/-- The binary with one more copy. -/
theorem CopiesMade.append_copy {copy : BinaryFunction} {nextLabel : Nat}
    (made : Redirected start done bin)
    (isFirst : FirstOf done site)
    (names : NameCallees start (done ++ [site]))
    (isOriginal : site.callee < start.functions.length)
    (isCopy : IsCopyAt start done site copy)
    (notBelow : bin.nextLabel ≤ nextLabel) :
    CopiesMade start (done ++ [site]) (copiedShape done site)
      { bin.modify site.callee fun fn =>
          { fn with pseudoCopy := some copy.symbol } with
        functions :=
          (bin.modify site.callee fun fn =>
            { fn with pseudoCopy := some copy.symbol }).functions ++ [copy]
        getFunctionForSymbol := fun symbol =>
          if symbol = copy.symbol then some bin.functions.length
          else bin.getFunctionForSymbol symbol
        nextLabel := nextLabel } where
  length := by
    have before := made.length
    simp only [List.length_append, Binary.length_modify]
    omega
  nextLabel := Nat.le_trans made.nextLabel notBelow
  originals index inRange := by
    have before := made.length
    rw [List.getElem?_append_left (by
      rw [Binary.length_modify]
      omega), Binary.getElem?_modify, made.originals index inRange]
    have noCopy : copySymbol done site.callee = none :=
      copySymbol_eq_none_iff.mpr isFirst
    cases start.functions[index]? with
    | none => simp
    | some fn =>
        by_cases here : site.callee = index
        · subst here
          simp [copiedShape, copySymbol_append, noCopy, isCopy.symbol]
        · simp [copiedShape, copySymbol_append, here, redirect]
  symbols symbol noCopy := by
    have differs : symbol ≠ copy.symbol := by
      rw [isCopy.symbol]
      exact noCopy _
    simp only [differs, ↓reduceIte]
    exact made.symbols symbol noCopy
  copies before other after split otherFirst := by
    rcases append_singleton_eq split with
      ⟨rfl, rfl, rfl⟩ | ⟨shorter, rfl, ofDone⟩
    · refine ⟨bin.functions.length, copy, made.length, ?_, ?_, isCopy⟩
      · rw [List.getElem?_append_right (by rw [Binary.length_modify]),
          Binary.length_modify, Nat.sub_self]
        rfl
      · simp [isCopy.symbol]
    · obtain ⟨place, otherCopy, behind, isOther, named, isCopyAt⟩ :=
        made.copies before other shorter ofDone otherFirst
      obtain ⟨inRange, -⟩ := List.getElem?_eq_some_iff.mp isOther
      refine ⟨place, otherCopy, behind, ?_, ?_, isCopyAt⟩
      · rw [List.getElem?_append_left (by
          rw [Binary.length_modify]
          exact inRange), Binary.getElem?_modify, if_neg (by omega)]
        exact isOther
      · have differs :=
          symbol_ne_of_first isFirst names isCopy (by
            rw [ofDone]
            exact List.mem_append_right before List.mem_cons_self)
        simp only [differs, ↓reduceIte]
        exact named
  onlyCopies index otherCopy behind isOther := by
    by_cases inRange : index < bin.functions.length
    · rw [List.getElem?_append_left (by
        rw [Binary.length_modify]
        exact inRange), Binary.getElem?_modify, if_neg (by omega)]
        at isOther
      obtain ⟨before, other, after, split, otherFirst, named, isCopyAt⟩ :=
        made.onlyCopies index otherCopy behind isOther
      refine ⟨before, other, after ++ [site], by simp [split], otherFirst,
        ?_, isCopyAt⟩
      have differs :=
        symbol_ne_of_first isFirst names isCopy (by
          rw [split]
          exact List.mem_append_right before List.mem_cons_self)
      simp only [differs, ↓reduceIte]
      exact named
    · rw [List.getElem?_append_right (by
        rw [Binary.length_modify]
        omega), Binary.length_modify, List.getElem?_singleton] at isOther
      split at isOther
      · cases isOther
        refine ⟨done, site, [], rfl, isFirst, ?_, isCopy⟩
        have last : index = bin.functions.length := by omega
        simp [isCopy.symbol, last]
      · cases isOther

/-- Setting up the copy for a site, which is new or was made before. -/
theorem setUpCopy_spec {fn : BinaryFunction}
    (made : Redirected start done bin)
    (names : NameCallees start (done ++ [site]))
    (isCallee : start.functions[site.callee]? = some fn)
    (wellFormed : fn.WellFormed start.nextLabel)
    (mapsLabels : MapsLabels namePatchMap) :
    ∃ after newMap symbol,
      bin.setUpCopy namePatchMap site.calleeSymbol site.callee =
          some (after, newMap, symbol) ∧
        MapsLabels newMap ∧
        copySymbol (done ++ [site]) site.callee = some symbol ∧
        CopiesMade start (done ++ [site]) (copiedShape done site) after := by
  obtain ⟨isOriginal, -⟩ := List.getElem?_eq_some_iff.mp isCallee
  have isFn :
      bin.functions[site.callee]? = some (redirect done site.callee fn) := by
    rw [made.originals _ isOriginal, isCallee]
    rfl
  unfold Binary.setUpCopy
  rw [isFn, Option.bind_some]
  cases copied : copySymbol done site.callee with
  | some symbol =>
      have hasCopy :
          (redirect done site.callee fn).pseudoCopy = some symbol :=
        copied
      rw [hasCopy]
      refine ⟨bin, namePatchMap, symbol, rfl, mapsLabels, ?_, ?_⟩
      · rw [copySymbol_append, copied]
        rfl
      · have notFirst : ¬ FirstOf done site := by
          intro isFirst
          rw [copySymbol_eq_none_iff.mpr isFirst] at copied
          cases copied
        have sameShape : copiedShape done site = redirect done := by
          funext index fn
          have same :
              copySymbol (done ++ [site]) index = copySymbol done index := by
            rw [copySymbol_append]
            by_cases here : site.callee = index
            · rw [← here, copied]
              rfl
            · rw [if_neg here, Option.or_none]
          rw [copiedShape, same]
          rfl
        rw [sameShape]
        exact made.append_site notFirst
  | none =>
      have hasNone : (redirect done site.callee fn).pseudoCopy = none :=
        copied
      rw [hasNone]
      let copying :=
        copyingOf wellFormed done site ⟨bin.nextLabel, namePatchMap⟩
          made.nextLabel
      have created :
          createPseudoCopy (redirect done site.callee fn) site.calleeSymbol
              ⟨bin.nextLabel, namePatchMap⟩ =
            some (copying.copy, _) :=
        copying.createPseudoCopy_eq
      have labels :
          ∀ label ∈ copying.callee.labels, ∃ id, label = .label id := by
        intro label member
        have same : copying.callee.labels = fn.labels :=
          fn.mapInsts_labels _
        rw [same] at member
        obtain ⟨id, -, isLabel⟩ := wellFormed.labelsOlder label member
        exact ⟨id, isLabel⟩
      have newMapsLabels : MapsLabels copying.patchMap :=
        copying.patchMap_mapsLabels labels mapsLabels
      have isCopy : IsCopyAt start done site copying.copy :=
        ⟨rfl, rfl, fn, copying.patchMap, isCallee, newMapsLabels,
          copying.copy_insts⟩
      simp only [created, Option.map_some]
      refine ⟨_, _, _, rfl, newMapsLabels, ?_,
        CopiesMade.append_copy made (copySymbol_eq_none_iff.mp copied) names
          isOriginal isCopy (Nat.le_add_right _ _)⟩
      rw [copySymbol_append, copied, if_pos rfl]
      rfl

/-- Every instruction refers to the same callee as at the start. -/
theorem CopiesMade.resolveCallee_eq {inst : MCInst}
    (made : Redirected start done bin) (scanned : start.Scanned)
    (noCopies :
      ∀ callee, inst.getTargetSymbol ≠ some (.pseudoCopy callee)) :
    bin.resolveCallee inst = start.resolveCallee inst := by
  refine Binary.resolveCallee_congr rfl ?_ ?_
  · intro symbol target
    refine ⟨made.symbols symbol ?_, made.symbols _ ?_⟩
    · rintro callee rfl
      exact noCopies callee target
    · intro callee
      cases symbol with
      | pseudoCopy other => exact absurd target (noCopies other)
      | function name => nofun
      | label id => nofun
      | data id => nofun
  · intro symbol index found
    rw [made.originals index (scanned.table symbol index found),
      Option.map_map]
    rfl

/-- Sites that have been redirected are sites, each of them once. -/
structure Done (start : Binary) (done : List Site) : Prop where
  areSites : ∀ site ∈ done, ∃ fn inst, start.IsSite site fn inst

theorem Binary.IsSite.nameCallee {fn : BinaryFunction} {inst : MCInst}
    (isSite : start.IsSite site fn inst) :
    start.getFunctionForSymbol site.calleeSymbol = some site.callee :=
  Binary.getFunctionForSymbol_of_resolveCallee isSite.resolved

theorem Done.append {fn : BinaryFunction} {inst : MCInst}
    (areDone : Done start done) (isSite : start.IsSite site fn inst) :
    Done start (done ++ [site]) where
  areSites other member := by
    rcases List.mem_append.mp member with before | isLast
    · exact areDone.areSites other before
    · rw [List.mem_singleton.mp isLast]
      exact ⟨fn, inst, isSite⟩

theorem Done.nameCallees (areDone : Done start done) :
    NameCallees start done := by
  intro other member
  obtain ⟨_, _, isSite⟩ := areDone.areSites other member
  exact isSite.nameCallee

/-- An instruction that is not among the sites so far is as it was. -/
theorem CopiesMade.getElem?_of_fresh {caller node : Nat}
    {fn : BinaryFunction} {inst : MCInst}
    (made : Redirected start done bin)
    (isFn : start.functions[caller]? = some fn)
    (isInst : fn.insts[node]? = some inst)
    (fresh :
      ∀ other ∈ done, ¬ (other.caller = caller ∧ other.node = node)) :
    bin.functions[caller]? = some (redirect done caller fn) ∧
      (redirect done caller fn).insts[node]? = some inst := by
  obtain ⟨isOriginal, -⟩ := List.getElem?_eq_some_iff.mp isFn
  refine ⟨by rw [made.originals _ isOriginal, isFn]; rfl, ?_⟩
  have insts :
      (redirect done caller fn).insts =
        fn.insts.mapIdx (redirectInst done caller) :=
    fn.mapInsts_insts _
  have notFound :
      (done.find? fun other =>
        other.caller == caller && other.node == node) = none := by
    simpa using fun other member isCaller isNode =>
      fresh other member ⟨isCaller, isNode⟩
  rw [insts, List.getElem?_mapIdx, isInst, Option.map_some, redirectInst,
    notFound]

/-- One call of `modifyInst` redirects the site that is there, if any. -/
theorem preModifyInst_spec {caller node : Nat} {fn : BinaryFunction}
    {inst : MCInst} (scanned : start.Scanned)
    (made : Redirected start done bin) (areDone : Done start done)
    (mapsLabels : MapsLabels namePatchMap)
    (isFn : start.functions[caller]? = some fn)
    (isInst : fn.insts[node]? = some inst)
    (fresh :
      ∀ other ∈ done, ¬ (other.caller = caller ∧ other.node = node)) :
    ∃ after newMap,
      Binary.preModifyInst caller (bin, namePatchMap) node =
          some (after, newMap) ∧
        MapsLabels newMap ∧
        Done start (done ++ (start.siteAt caller node).toList) ∧
        Redirected start (done ++ (start.siteAt caller node).toList)
          after := by
  have isMember := List.mem_of_getElem? isFn
  have instMember := List.mem_of_getElem? isInst
  have wellFormed := scanned.functions fn isMember
  obtain ⟨binFn, binInst⟩ := made.getElem?_of_fresh isFn isInst fresh
  unfold Binary.preModifyInst
  simp only [binFn, binInst, Option.bind_some]
  cases marked : inst.annotations.pseudoInline with
  | false =>
      have noSite : start.siteAt caller node = none := by
        simp [Binary.siteAt, isFn, isInst, marked]
      rw [noSite]
      refine ⟨bin, namePatchMap, rfl, mapsLabels, ?_, ?_⟩
      · simpa using areDone
      · simpa using made
  | true =>
      obtain ⟨-, ⟨calleeSymbol, callee⟩, resolved⟩ :=
        scanned.marked fn isMember inst instMember marked
      have isSite :
          start.IsSite ⟨caller, node, calleeSymbol, callee⟩ fn inst :=
        ⟨isFn, isInst, marked, resolved⟩
      have site :
          start.siteAt caller node =
            some ⟨caller, node, calleeSymbol, callee⟩ :=
        Binary.siteAt_eq_some_iff.mpr ⟨rfl, rfl, fn, inst, isSite⟩
      have noCopies :
          ∀ other, inst.getTargetSymbol ≠ some (.pseudoCopy other) := by
        intro other target
        apply wellFormed.noCopies inst instMember other
        unfold MCInst.getTargetSymbol at target
        split at target
        · next operands =>
            cases target
            rw [operands]
            exact List.mem_cons_self
        · cases target
      have inTable :=
        scanned.table calleeSymbol callee isSite.nameCallee
      have areDone' := areDone.append isSite
      obtain ⟨calleeFn, isCallee⟩ : ∃ calleeFn,
          start.functions[callee]? = some calleeFn :=
        ⟨_, List.getElem?_eq_getElem inTable⟩
      obtain ⟨withCopy, newMap, symbol, setUp, newMapsLabels, isSymbol,
          copyMade⟩ :=
        setUpCopy_spec made areDone'.nameCallees isCallee
          (scanned.functions calleeFn (List.mem_of_getElem? isCallee))
          mapsLabels
      rw [made.resolveCallee_eq scanned noCopies, resolved]
      simp only [↓reduceIte, Option.bind_some, setUp, Option.map_some, site]
      refine ⟨_, _, rfl, newMapsLabels, areDone', ?_⟩
      obtain ⟨isOriginal, -⟩ := List.getElem?_eq_some_iff.mp isFn
      refine copyMade.modify isOriginal ?_
      intro place original
      exact redirect_append isSymbol fresh place original

/-- The sites of a function are redirected one after the other. -/
theorem foldlM_preModifyInst {caller : Nat} {fn : BinaryFunction}
    (scanned : start.Scanned)
    (isFn : start.functions[caller]? = some fn) (nodes : List Nat)
    (distinct : nodes.Nodup)
    (inRange : ∀ node ∈ nodes, node < fn.insts.length)
    (made : Redirected start done bin) (areDone : Done start done)
    (mapsLabels : MapsLabels namePatchMap)
    (fresh :
      ∀ other ∈ done, other.caller = caller → other.node ∉ nodes) :
    ∃ after newMap,
      nodes.foldlM (Binary.preModifyInst caller) (bin, namePatchMap) =
          some (after, newMap) ∧
        Done start (done ++ nodes.filterMap (start.siteAt caller)) ∧
        Redirected start (done ++ nodes.filterMap (start.siteAt caller))
          after := by
  induction nodes generalizing done bin namePatchMap with
  | nil =>
      exact ⟨bin, namePatchMap, rfl, by simpa using areDone,
        by simpa using made⟩
  | cons node rest inductionHypothesis =>
      obtain ⟨notInRest, restDistinct⟩ := List.nodup_cons.mp distinct
      obtain ⟨inst, isInst⟩ : ∃ inst, fn.insts[node]? = some inst :=
        ⟨_, List.getElem?_eq_getElem (inRange node List.mem_cons_self)⟩
      obtain ⟨next, nextMap, stepped, nextMapsLabels, nextDone,
          nextMade⟩ :=
        preModifyInst_spec scanned made areDone mapsLabels isFn isInst
          fun other member same =>
            fresh other member same.1 (same.2 ▸ List.mem_cons_self)
      have nextFresh :
          ∀ other ∈ done ++ (start.siteAt caller node).toList,
            other.caller = caller → other.node ∉ rest := by
        intro other member isCaller inRest
        rcases List.mem_append.mp member with before | isSite
        · exact fresh other before isCaller
            (List.mem_cons_of_mem _ inRest)
        · have found := Option.mem_toList.mp isSite
          obtain ⟨-, isNode, -⟩ := Binary.siteAt_eq_some_iff.mp found
          exact notInRest (isNode ▸ inRest)
      obtain ⟨after, newMap, folded, afterDone, afterMade⟩ :=
        inductionHypothesis restDistinct
          (fun other inRest => inRange other (List.mem_cons_of_mem _ inRest))
          nextMade nextDone nextMapsLabels nextFresh
      have sites :
          (node :: rest).filterMap (start.siteAt caller) =
            (start.siteAt caller node).toList ++
              rest.filterMap (start.siteAt caller) := by
        rw [List.filterMap_cons]
        cases start.siteAt caller node <;> rfl
      rw [sites, ← List.append_assoc, List.foldlM_cons, stepped]
      exact ⟨after, newMap, folded, afterDone, afterMade⟩

theorem mapsLabels_empty : MapsLabels .empty := by
  intro symbol newSymbol patched
  cases patched

/-- `preInstrument` redirects the sites of a function. -/
theorem preInstrument_spec {caller : Nat} (scanned : start.Scanned)
    (inRange : caller < start.functions.length)
    (made : Redirected start done bin) (areDone : Done start done)
    (fresh : ∀ other ∈ done, other.caller ≠ caller) :
    ∃ after, bin.preInstrument caller = some after ∧
      Done start (done ++ start.sitesOf caller) ∧
      Redirected start (done ++ start.sitesOf caller) after := by
  obtain ⟨fn, isFn⟩ : ∃ fn, start.functions[caller]? = some fn :=
    ⟨_, List.getElem?_eq_getElem inRange⟩
  have binFn :
      bin.functions[caller]? = some (redirect done caller fn) := by
    rw [made.originals caller inRange, isFn]
    rfl
  have sameLength :
      (redirect done caller fn).insts.length = fn.insts.length := by
    have insts :
        (redirect done caller fn).insts =
          fn.insts.mapIdx (redirectInst done caller) :=
      fn.mapInsts_insts _
    rw [insts, List.length_mapIdx]
  have sites :
      start.sitesOf caller =
        (List.range fn.insts.length).filterMap (start.siteAt caller) := by
    rw [Binary.sitesOf, isFn]
  obtain ⟨after, newMap, folded, afterDone, afterMade⟩ :=
    foldlM_preModifyInst scanned isFn (List.range fn.insts.length)
      List.nodup_range (fun node => List.mem_range.mp) made areDone
      mapsLabels_empty
      fun other member isCaller => absurd isCaller (fresh other member)
  rw [Binary.preInstrument, binFn, Option.bind_some, sameLength, folded,
    sites]
  exact ⟨after, rfl, afterDone, afterMade⟩

/-- Going over the functions in any order redirects all their sites. -/
theorem foldlM_preInstrument (scanned : start.Scanned) (order : List Nat)
    (distinct : order.Nodup)
    (inRange : ∀ caller ∈ order, caller < start.functions.length)
    (made : Redirected start done bin) (areDone : Done start done)
    (fresh : ∀ other ∈ done, other.caller ∉ order) :
    ∃ after, order.foldlM Binary.preInstrument bin = some after ∧
      Done start (done ++ start.sites order) ∧
      Redirected start (done ++ start.sites order) after := by
  induction order generalizing done bin with
  | nil =>
      exact ⟨bin, rfl, by simpa [Binary.sites] using areDone,
        by simpa [Binary.sites] using made⟩
  | cons caller rest inductionHypothesis =>
      obtain ⟨notInRest, restDistinct⟩ := List.nodup_cons.mp distinct
      obtain ⟨next, stepped, nextDone, nextMade⟩ :=
        preInstrument_spec scanned (inRange caller List.mem_cons_self) made
          areDone fun other member isCaller =>
            fresh other member (isCaller ▸ List.mem_cons_self)
      have nextFresh :
          ∀ other ∈ done ++ start.sitesOf caller,
            other.caller ∉ rest := by
        intro other member inRest
        rcases List.mem_append.mp member with before | isSite
        · exact fresh other before (List.mem_cons_of_mem _ inRest)
        · obtain ⟨isCaller, -⟩ := Binary.mem_sitesOf isSite
          exact notInRest (isCaller ▸ inRest)
      obtain ⟨after, folded, afterDone, afterMade⟩ :=
        inductionHypothesis restDistinct
          (fun other inRest => inRange other (List.mem_cons_of_mem _ inRest))
          nextMade nextDone nextFresh
      have sites :
          start.sites (caller :: rest) =
            start.sitesOf caller ++ start.sites rest :=
        List.flatMap_cons
      rw [sites, ← List.append_assoc, List.foldlM_cons, stepped]
      exact ⟨after, folded, afterDone, afterMade⟩

/-- Nothing redirected yet. -/
theorem redirected_nil (scanned : start.Scanned) :
    Redirected start [] start where
  length := Nat.le_refl _
  nextLabel := Nat.le_refl _
  originals index inRange := by
    cases isFn : start.functions[index]? with
    | none => rfl
    | some fn =>
        have notCopied : none = fn.pseudoCopy :=
          (scanned.functions fn
            (List.mem_of_getElem? isFn)).notCopied.symm
        have same : redirect [] index fn = fn := by
          have blocks : mapBlocks (redirectInst [] index) 0 fn.blocks =
              fn.blocks :=
            mapBlocks_id 0 fn.blocks
          have copySymbols : copySymbol [] index = fn.pseudoCopy :=
            notCopied
          rw [redirect, BinaryFunction.mapInsts, blocks, copySymbols]
        rw [Option.map_some, same]
  symbols _ _ := rfl
  copies before site after split := by
    simp at split
  onlyCopies index copy behind isCopy := by
    rw [List.getElem?_eq_none behind] at isCopy
    cases isCopy

end SetUp

end Msh.PseudoInline
