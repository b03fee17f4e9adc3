import Msh.Bolt.PseudoInlineScan

/-!
# The calls that are redirected

Each marked call is a site.  Redirecting the sites one after the other
replaces each by a call to the copy of its callee, and makes the copy at the
first site that calls it.  A copy therefore has redirected calls where its
callee had them at that moment, without their marks.
-/

namespace Msh.PseudoInline

open X86

/-! ## Sites -/

/-- A marked call: where it is, and what it is resolved to. -/
structure Site where
  caller : Nat
  node : Nat
  calleeSymbol : Symbol
  callee : Nat
  deriving DecidableEq

namespace Binary

/-- The site at an instruction, if it is a marked call. -/
def siteAt (bin : Binary) (caller node : Nat) : Option Site :=
  bin.functions[caller]?.bind fun fn =>
    fn.insts[node]?.bind fun inst =>
      if inst.annotations.pseudoInline then
        (bin.resolveCallee inst).map fun (calleeSymbol, callee) =>
          ⟨caller, node, calleeSymbol, callee⟩
      else none

/-- The sites of a function, in order. -/
def sitesOf (bin : Binary) (caller : Nat) : List Site :=
  match bin.functions[caller]? with
  | none => []
  | some fn => (List.range fn.insts.length).filterMap (bin.siteAt caller)

/-- The sites of a program in the order in which they are redirected. -/
def sites (bin : Binary) (order : List Nat) : List Site :=
  order.flatMap bin.sitesOf

/-- What a site is. -/
structure IsSite (bin : Binary) (site : Site) (fn : BinaryFunction)
    (inst : MCInst) : Prop where
  caller : bin.functions[site.caller]? = some fn
  node : fn.insts[site.node]? = some inst
  marked : inst.annotations.pseudoInline = true
  resolved :
    bin.resolveCallee inst = some (site.calleeSymbol, site.callee)

theorem siteAt_eq_some_iff {bin : Binary} {caller node : Nat}
    {site : Site} :
    bin.siteAt caller node = some site ↔
      site.caller = caller ∧ site.node = node ∧
        ∃ fn inst, bin.IsSite site fn inst := by
  constructor
  · intro found
    unfold siteAt at found
    obtain ⟨fn, isFn, found⟩ := Option.bind_eq_some_iff.mp found
    obtain ⟨inst, isInst, found⟩ := Option.bind_eq_some_iff.mp found
    split at found
    · next marked =>
        obtain ⟨⟨calleeSymbol, callee⟩, resolved, rfl⟩ :=
          Option.map_eq_some_iff.mp found
        exact ⟨rfl, rfl, fn, inst, isFn, isInst, marked, resolved⟩
    · cases found
  · rintro ⟨rfl, rfl, fn, inst, isSite⟩
    simp [siteAt, isSite.caller, isSite.node, isSite.marked,
      isSite.resolved]

theorem mem_sitesOf {bin : Binary} {caller : Nat} {site : Site}
    (member : site ∈ bin.sitesOf caller) :
    site.caller = caller ∧ ∃ fn inst, bin.IsSite site fn inst := by
  unfold sitesOf at member
  cases isFn : bin.functions[caller]? with
  | none =>
      simp [isFn] at member
  | some fn =>
      simp only [isFn] at member
      obtain ⟨node, -, found⟩ := List.mem_filterMap.mp member
      obtain ⟨isCaller, -, isSite⟩ := siteAt_eq_some_iff.mp found
      exact ⟨isCaller, isSite⟩

end Binary

/-! ## Redirecting -/

/-- The symbol of a callee's copy after some sites: the first one names it. -/
def copySymbol (done : List Site) (callee : Nat) : Option Symbol :=
  (done.find? (·.callee == callee)).map (.pseudoCopy ·.calleeSymbol)

/-- An instruction of a function after some sites have been redirected. -/
def redirectInst (done : List Site) (caller node : Nat) (inst : MCInst) :
    MCInst :=
  match
    done.find? fun site => site.caller == caller && site.node == node
  with
  | none => inst
  | some site =>
      match copySymbol done site.callee with
      | none => inst
      | some symbol => (createCall symbol).addPseudoInline

/-- A function after some sites have been redirected. -/
def redirect (done : List Site) (caller : Nat) (fn : BinaryFunction) :
    BinaryFunction :=
  { fn.mapInsts (redirectInst done caller) with
    pseudoCopy := copySymbol done caller }

/-- The instrumenter's map sends labels to labels. -/
def MapsLabels (namePatchMap : Dict Symbol Symbol) : Prop :=
  ∀ symbol newSymbol, namePatchMap.get? symbol = some newSymbol →
    (∃ id, symbol = .label id) ∧ ∃ id, newSymbol = .label id

/-- What the copy is that was made at the first site of a callee. -/
structure IsCopyAt (start : Binary) (before : List Site) (site : Site)
    (copy : BinaryFunction) : Prop where
  symbol : copy.symbol = .pseudoCopy site.calleeSymbol
  isPseudoCopy : copy.isPseudoCopy = true
  insts :
    ∃ fn namePatchMap,
      start.functions[site.callee]? = some fn ∧ MapsLabels namePatchMap ∧
        copy.insts =
          (redirect before site.callee fn).insts.filterMap fun inst =>
            inst.copy?.map (MCInst.patchLocalSymbol namePatchMap)

/-- The first site of its callee, behind the sites before it. -/
def FirstOf (before : List Site) (site : Site) : Prop :=
  ∀ other ∈ before, other.callee ≠ site.callee

/--
A binary in which the copies for some sites have been made; `shape` says what
has become of the functions of the program.
-/
structure CopiesMade (start : Binary) (done : List Site)
    (shape : Nat → BinaryFunction → BinaryFunction) (bin : Binary) :
    Prop where
  length : start.functions.length ≤ bin.functions.length
  nextLabel : start.nextLabel ≤ bin.nextLabel
  originals :
    ∀ index < start.functions.length,
      bin.functions[index]? = start.functions[index]?.map (shape index)
  symbols :
    ∀ symbol, (∀ callee, symbol ≠ .pseudoCopy callee) →
      bin.getFunctionForSymbol symbol = start.getFunctionForSymbol symbol
  copies :
    ∀ before site after, done = before ++ site :: after →
      FirstOf before site →
        ∃ index copy, start.functions.length ≤ index ∧
          bin.functions[index]? = some copy ∧
          bin.getFunctionForSymbol (.pseudoCopy site.calleeSymbol) =
            some index ∧
          IsCopyAt start before site copy
  onlyCopies :
    ∀ index copy, start.functions.length ≤ index →
      bin.functions[index]? = some copy →
        ∃ before site after, done = before ++ site :: after ∧
          FirstOf before site ∧
          bin.getFunctionForSymbol (.pseudoCopy site.calleeSymbol) =
            some index ∧
          IsCopyAt start before site copy

/-- A binary in which some sites have been redirected. -/
abbrev Redirected (start : Binary) (done : List Site) (bin : Binary) :
    Prop :=
  CopiesMade start done (redirect done) bin

theorem copySymbol_append (done : List Site) (site : Site)
    (callee : Nat) :
    copySymbol (done ++ [site]) callee =
      (copySymbol done callee).or
        (if site.callee = callee then
          some (.pseudoCopy site.calleeSymbol)
        else none) := by
  unfold copySymbol
  rw [List.find?_append]
  cases done.find? (·.callee == callee) with
  | some first => rfl
  | none =>
      by_cases same : site.callee = callee <;> simp [same]

theorem copySymbol_isSome {done : List Site} {site : Site}
    (member : site ∈ done) :
    ∃ symbol, copySymbol done site.callee = some symbol := by
  apply Option.isSome_iff_exists.mp
  simp only [copySymbol, Option.isSome_map, List.find?_isSome]
  exact ⟨site, member, beq_self_eq_true _⟩

theorem copySymbol_eq_none_iff {done : List Site} {callee : Nat} :
    copySymbol done callee = none ↔
      ∀ site ∈ done, site.callee ≠ callee := by
  simp [copySymbol]

/-- Redirecting one more site changes one instruction. -/
theorem redirectInst_append {done : List Site} {site : Site}
    {symbol : Symbol}
    (isSymbol :
      copySymbol (done ++ [site]) site.callee = some symbol)
    (fresh :
      ∀ other ∈ done,
        ¬ (other.caller = site.caller ∧ other.node = site.node))
    (caller node : Nat) (inst : MCInst) :
    redirectInst (done ++ [site]) caller node inst =
      if caller = site.caller ∧ node = site.node then
        (createCall symbol).addPseudoInline
      else redirectInst done caller node inst := by
  unfold redirectInst
  rw [List.find?_append]
  cases found :
      done.find? fun other =>
        other.caller == caller && other.node == node with
  | some other =>
      have member := List.mem_of_find?_eq_some found
      have isOther := List.find?_some found
      simp only [Bool.and_eq_true, beq_iff_eq] at isOther
      obtain ⟨otherSymbol, isOtherSymbol⟩ := copySymbol_isSome member
      have notSite : ¬ (caller = site.caller ∧ node = site.node) := by
        rintro ⟨rfl, rfl⟩
        exact fresh other member isOther
      simp [notSite, copySymbol_append, isOtherSymbol]
  | none =>
      by_cases here : caller = site.caller ∧ node = site.node
      · obtain ⟨rfl, rfl⟩ := here
        simp [isSymbol]
      · have elsewhere : ¬ (site.caller = caller ∧ site.node = node) :=
          fun same => here ⟨same.1.symm, same.2.symm⟩
        simp [here, elsewhere]

/-- A function after one more site, from what it was before. -/
theorem redirect_append {done : List Site} {site : Site} {symbol : Symbol}
    (isSymbol :
      copySymbol (done ++ [site]) site.callee = some symbol)
    (fresh :
      ∀ other ∈ done,
        ¬ (other.caller = site.caller ∧ other.node = site.node))
    (index : Nat) (fn : BinaryFunction) :
    redirect (done ++ [site]) index fn =
      if index = site.caller then
        { redirect done index fn with
          pseudoCopy := copySymbol (done ++ [site]) index }.mapInsts
            fun place inst =>
              if place = site.node then
                (createCall symbol).addPseudoInline
              else inst
      else
        { redirect done index fn with
          pseudoCopy := copySymbol (done ++ [site]) index } := by
  have insts :
      redirectInst (done ++ [site]) index =
        fun node inst =>
          if index = site.caller ∧ node = site.node then
            (createCall symbol).addPseudoInline
          else redirectInst done index node inst := by
    funext node inst
    exact redirectInst_append isSymbol fresh index node inst
  unfold redirect
  rw [insts]
  by_cases here : index = site.caller
  · subst here
    simp [BinaryFunction.mapInsts, mapBlocks_mapBlocks]
  · simp [here]

/-- A decomposition of the sites with one more at the end. -/
theorem append_singleton_eq {done before after : List Site}
    {last site : Site} (split : done ++ [last] = before ++ site :: after) :
    (after = [] ∧ before = done ∧ site = last) ∨
      ∃ shorter, after = shorter ++ [last] ∧
        done = before ++ site :: shorter := by
  rcases List.eq_nil_or_concat after with rfl | ⟨shorter, other, rfl⟩
  · have same := List.append_inj' split rfl
    exact .inl ⟨rfl, same.1.symm, (List.cons.inj same.2).1.symm⟩
  · rw [List.concat_eq_append, ← List.cons_append,
      ← List.append_assoc] at split
    have same := List.append_inj' split rfl
    rw [List.concat_eq_append, (List.cons.inj same.2).1]
    exact .inr ⟨shorter, rfl, same.1⟩

namespace CopiesMade

variable {start bin : Binary} {done : List Site}
  {shape : Nat → BinaryFunction → BinaryFunction}

/-- Changing a function of the program leaves the copies alone. -/
theorem modify {index : Nat} {change : BinaryFunction → BinaryFunction}
    {newShape : Nat → BinaryFunction → BinaryFunction}
    (made : CopiesMade start done shape bin)
    (isOriginal : index < start.functions.length)
    (changed :
      ∀ place fn,
        newShape place fn =
          if place = index then change (shape place fn)
          else shape place fn) :
    CopiesMade start done newShape (bin.modify index change) where
  length := by
    rw [Binary.length_modify]
    exact made.length
  nextLabel := made.nextLabel
  originals place inRange := by
    rw [Binary.getElem?_modify, made.originals place inRange]
    cases start.functions[place]? with
    | none => simp
    | some fn =>
        by_cases here : index = place
        · simp [changed, here]
        · simp [changed, here, Ne.symm here]
  symbols := made.symbols
  copies before site after split isFirst := by
    obtain ⟨place, copy, behind, isCopy, named, isCopyAt⟩ :=
      made.copies before site after split isFirst
    refine ⟨place, copy, behind, ?_, named, isCopyAt⟩
    rw [Binary.getElem?_modify, if_neg (by omega)]
    exact isCopy
  onlyCopies place copy behind isCopy := by
    rw [Binary.getElem?_modify, if_neg (by omega)] at isCopy
    exact made.onlyCopies place copy behind isCopy

/-- One more site does not need a copy of its own. -/
theorem append_site {site : Site}
    (made : CopiesMade start done shape bin)
    (notFirst : ¬ FirstOf done site) :
    CopiesMade start (done ++ [site]) shape bin where
  length := made.length
  nextLabel := made.nextLabel
  originals := made.originals
  symbols := made.symbols
  copies before other after split isFirst := by
    rcases append_singleton_eq split with
      ⟨rfl, rfl, rfl⟩ | ⟨shorter, rfl, ofDone⟩
    · exact absurd isFirst notFirst
    · exact made.copies before other shorter ofDone isFirst
  onlyCopies index copy behind isCopy := by
    obtain ⟨before, other, after, rfl, isFirst, named, isCopyAt⟩ :=
      made.onlyCopies index copy behind isCopy
    exact ⟨before, other, after ++ [site], by simp, isFirst, named,
      isCopyAt⟩

end CopiesMade

end Msh.PseudoInline
