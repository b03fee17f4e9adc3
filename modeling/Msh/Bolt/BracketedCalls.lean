import Msh.Bolt.PseudoInlineBrackets

/-!
# The calls to copies in the program that comes of the pass

The pass meets its own assertions on every program and in every order, and
what comes of it is bracketed exactly where neither a vector register nor a
late copy is left to a call that no loop saves it for.
-/

namespace Msh.PseudoInline

open X86

/-- Every marked call is among the sites, whatever the order. -/
theorem Binary.mem_sites {bin : Binary} {order : List Nat}
    {caller node : Nat} {site : Site}
    (all : order.Perm (List.range bin.functions.length))
    (found : bin.siteAt caller node = some site) :
    site ∈ bin.sites order := by
  obtain ⟨rfl, rfl, fn, inst, isSite⟩ := siteAt_eq_some_iff.mp found
  obtain ⟨inRange, -⟩ := List.getElem?_eq_some_iff.mp isSite.caller
  obtain ⟨isInst, -⟩ := List.getElem?_eq_some_iff.mp isSite.node
  rw [sites, List.mem_flatMap]
  refine ⟨site.caller, all.mem_iff.mpr (List.mem_range.mpr inRange), ?_⟩
  simp only [sitesOf, isSite.caller]
  exact List.mem_filterMap.mpr ⟨site.node, List.mem_range.mpr isInst, found⟩

namespace RunOfCopies

variable {setting : Setting} {start redirected copiesDone : Binary}
  {sites : List Site}
  (pass : RunOfCopies setting start sites redirected copiesDone)
include pass

/-- A marked call in a redirected function is the call to a copy. -/
theorem call_of_marked {index : Nat} {fn : BinaryFunction} {inst : MCInst}
    (isFn : start.functions[index]? = some fn)
    (member : inst ∈ (redirect sites index fn).insts)
    (marked : inst.annotations.pseudoInline = true) :
    ∃ before first place copy,
      CopyOf start redirected sites before first place copy ∧
        inst = callToCopy first := by
  have insts :
      (redirect sites index fn).insts =
        fn.insts.mapIdx (redirectInst sites index) :=
    fn.mapInsts_insts _
  obtain ⟨node, atNode⟩ := List.mem_iff_getElem?.mp member
  have isImage := atNode
  rw [insts, List.getElem?_mapIdx] at isImage
  obtain ⟨original, isOriginal, isImage⟩ :=
    Option.map_eq_some_iff.mp isImage
  obtain ⟨site, inSites, rfl, rfl, isSite⟩ : ∃ site ∈ sites,
      site.caller = index ∧ site.node = node ∧
        start.IsSite site fn original := by
    rcases pass.redirectInst_cases (fun _ inSites => inSites) isFn
        isOriginal with same | redirected
    · rw [same] at isImage
      subst isImage
      obtain ⟨-, ⟨calleeSymbol, callee⟩, resolved⟩ :=
        pass.scanned.marked fn (List.mem_of_getElem? isFn) original
          (List.mem_of_getElem? isOriginal) marked
      have isSite :
          start.IsSite ⟨index, node, calleeSymbol, callee⟩ fn original :=
        ⟨isFn, isOriginal, marked, resolved⟩
      exact ⟨_, pass.allSites index node _
        (Binary.siteAt_eq_some_iff.mpr ⟨rfl, rfl, fn, original, isSite⟩),
        rfl, rfl, isSite⟩
    · exact redirected
  obtain ⟨before, first, place, copy, isCopy, -, atSite⟩ :=
    pass.call_at_site inSites isSite
  rw [atNode] at atSite
  exact ⟨before, first, place, copy, isCopy, Option.some.inj atSite⟩

/-- The program's own functions meet the assertions. -/
theorem ready {runs : List Nat} {index : Nat}
    (runsOriginals : ∀ place ∈ runs, place < start.functions.length)
    (isOriginal : index < start.functions.length) :
    Ready copiesDone runs index := by
  have isFn := List.getElem?_eq_getElem isOriginal
  have isDone :
      copiesDone.functions[index]? =
        some (redirect sites index start.functions[index]) := by
    rw [pass.copiesDone_original isOriginal,
      pass.made.originals index isOriginal, isFn]
    rfl
  refine ⟨_, isDone, ?_⟩
  intro inst member marked
  obtain ⟨before, first, place, copy, isCopy, rfl⟩ :=
    pass.call_of_marked isFn member marked
  have notCopy :=
    (pass.scanned.functions _ (List.getElem_mem isOriginal)).notCopy
  have named :
      copiesDone.getFunctionForSymbol (.pseudoCopy first.calleeSymbol) =
        some place := by
    rw [pass.copiesRun.symbols]
    exact isCopy.named
  have notRun : place ∉ runs := by
    intro inRuns
    have original := runsOriginals place inRuns
    have behind := isCopy.behind
    omega
  exact ⟨notCopy, _, place, _, rfl, named, notRun,
    pass.copiesDone_copy isCopy.behind isCopy.isCopy,
    isCopy.copyAt.isPseudoCopy⟩

end RunOfCopies

/-- The copies meet the assertions: they have no marked calls. -/
theorem Redirected.ready {start redirected : Binary} {sites : List Site}
    {order : List Nat} (made : Redirected start sites redirected)
    {index : Nat} (behind : start.functions.length ≤ index)
    (inRange : index < redirected.functions.length) :
    Ready redirected order index := by
  have isCopy := List.getElem?_eq_getElem inRange
  refine ⟨_, isCopy, ?_⟩
  intro inst member marked
  obtain ⟨before, site, after, -, -, -, isCopyAt⟩ :=
    made.onlyCopies index _ behind isCopy
  rw [isCopyAt.unmarked inst member] at marked
  cases marked

/-- The sites of a pre-scanned program in the order of the schedule. -/
def Stages.sites {count : Nat} (stages : Stages)
    (schedule : Schedule count) : List Site :=
  stages.preScanned.sites schedule.preInstruments

/-- The pass runs through, and its binaries are those of a run. -/
theorem exists_runOfPass (setting : Setting) (program : Program)
    (schedule : Schedule program.binary.functions.length) :
    ∃ stages,
      runOnFunctions setting program.binary schedule = some stages ∧
        RunOfPass setting stages.preScanned (stages.sites schedule)
          schedule.runs stages.redirected stages.copiesDone
          stages.final := by
  let count := program.binary.functions.length
  let preScanned := schedule.preScans.foldl setting.preScan program.binary
  obtain ⟨scanned, sameCount⟩ : preScanned.Scanned ∧
      preScanned.functions.length = count :=
    setting.foldl_preScan program.scanned schedule.preScans
  have preInstruments :
      schedule.preInstruments.Perm
        (List.range preScanned.functions.length) := by
    rw [sameCount]
    exact schedule.preInstrumentsAll
  obtain ⟨redirected, redirects, areSites, made⟩ :=
    foldlM_preInstrument scanned schedule.preInstruments
      (preInstruments.nodup_iff.mpr List.nodup_range)
      (fun caller member =>
        List.mem_range.mp (preInstruments.mem_iff.mp member))
      (redirected_nil scanned) ⟨fun _ member => absurd member (by simp)⟩
      fun _ member => absurd member (by simp)
  rw [List.nil_append] at areSites made
  let injected :=
    List.range' count (redirected.functions.length - count)
  have inInjected (place : Nat) (member : place ∈ injected) :
      count ≤ place ∧ place < redirected.functions.length := by
    rw [List.mem_range'_1] at member
    have notFewer := made.length
    omega
  obtain ⟨copiesDone, copiesRun, onCopies⟩ :=
    @RunOn.foldlM setting redirected redirected [] injected injected
      (runOn_nil setting redirected) (fun place member => member)
      List.nodup_range' (fun _ _ => List.not_mem_nil)
      fun place member =>
        made.ready (sameCount ▸ (inInjected place member).1)
          (inInjected place member).2
  have copies :
      RunOfCopies setting preScanned
        (preScanned.sites schedule.preInstruments) redirected
        copiesDone := by
    refine ⟨scanned, areSites, ?_, made, ?_⟩
    · intro caller node site found
      exact Binary.mem_sites preInstruments found
    · rw [sameCount]
      exact onCopies
  have runs (index : Nat) :
      index ∈ schedule.runs ↔ index < preScanned.functions.length := by
    rw [sameCount, schedule.runsAll.mem_iff, List.mem_range]
  obtain ⟨final, originalsRun, onOriginals⟩ :=
    @RunOn.foldlM setting copiesDone copiesDone [] schedule.runs
      schedule.runs (runOn_nil setting copiesDone)
      (fun place member => member)
      (schedule.runsAll.nodup_iff.mpr List.nodup_range)
      (fun _ _ => List.not_mem_nil)
      fun index member =>
        copies.ready (fun place inRuns => (runs place).mp inRuns)
          ((runs index).mp member)
  refine ⟨⟨preScanned, redirected, copiesDone, final⟩, ?_,
    copies, onOriginals, runs⟩
  have redirectsBinary :
      schedule.preInstruments.foldlM Binary.preInstrument
          (schedule.preScans.foldl setting.preScan program.binary) =
        some redirected :=
    redirects
  have runsCopies :
      (List.range' program.binary.functions.length
          (redirected.functions.length -
            program.binary.functions.length)).foldlM
          setting.runOnFunction redirected =
        some copiesDone :=
    copiesRun
  simp only [runOnFunctions, redirectsBinary, runsCopies, originalsRun,
    Option.bind_some, Option.map_some, preScanned]

/--
For every program and every order, the pass runs through, and the calls to
copies are bracketed if and only if loops evacuate the vector registers that
copies leave to their callers, and all that they leave to late copies.
-/
theorem runOnFunctions_bracketed_iff (setting : Setting) (program : Program)
    (schedule : Schedule program.binary.functions.length) :
    ∃ stages,
      runOnFunctions setting program.binary schedule = some stages ∧
        (Bracketed setting stages.final ↔
          VectorsEvacuated setting stages.copiesDone
              (stages.sites schedule) ∧
            LateCopiesEvacuated setting stages.preScanned
              stages.copiesDone (stages.sites schedule)) := by
  obtain ⟨stages, ran, pass⟩ := exists_runOfPass setting program schedule
  exact ⟨stages, ran, pass.bracketed_iff⟩

/-! ## A copy that is made late -/

/-- A function of one block, which may loop. -/
def oneBlock (name : String) (label : Nat) (insts : List MCInst)
    (successors : List Symbol) : BinaryFunction where
  symbol := .function name
  blocks := [⟨.label label, insts, successors⟩]
  isPLT := false
  hasPnYPoint := false
  isPseudoCopy := false
  pseudoCopy := none
  filteredRegs _ := false

/-- An instruction before which a yield is inserted. -/
def yieldPoint : MCInst :=
  ⟨.plain 0, [], { Annotations.none with insertYield := true }⟩

/-- `f` calls `g` in a loop, and `g` calls `h`, which yields, in a loop. -/
def chain : Binary where
  functions :=
    [oneBlock "f" 0 [createCall (.function "g")] [.label 0],
      oneBlock "g" 1 [createCall (.function "h"), yieldPoint] [.label 1],
      oneBlock "h" 2 [yieldPoint, ⟨.ret, [], .none⟩] []]
  getFunctionForSymbol symbol :=
    if symbol = .function "f" then some 0
    else if symbol = .function "g" then some 1
    else if symbol = .function "h" then some 2
    else none
  nextLabel := 3
  instrumented _ := none

def chainProgram : Program where
  binary := chain
  functions fn member := by
    have noCopies :
        ∀ fn ∈ chain.functions, ∀ inst ∈ fn.insts, ∀ operand ∈ inst.operands,
          (∃ callee, operand = .symbolRef (.pseudoCopy callee)) → False := by
      simp [chain, oneBlock, yieldPoint, createCall, BinaryFunction.insts]
    have others :
        ∀ fn ∈ chain.functions, fn.labels.Nodup ∧
          (∀ bb ∈ fn.blocks, ∀ succ ∈ bb.successors, succ ∈ fn.labels) ∧
          fn.isPseudoCopy = false ∧ fn.pseudoCopy = none ∧
          ∀ inst ∈ fn.insts,
            inst.isCFI = true → inst.annotations.tailCall = false := by
      decide
    have labels :
        ∀ fn ∈ chain.functions, ∀ label ∈ fn.labels,
          ∃ id, id < 3 ∧ label = .label id := by
      simp [chain, oneBlock, BinaryFunction.labels]
    obtain ⟨distinct, successors, notCopy, notCopied, cfis⟩ :=
      others fn member
    exact ⟨distinct, successors, labels fn member, notCopy, notCopied,
      fun inst inFn callee inOperands =>
        noCopies fn member inst inFn _ inOperands ⟨callee, rfl⟩, cfis⟩
  table symbol index found := by
    simp only [chain] at found ⊢
    grind
  unmarked := by decide

/-- One loop around all, and `rbx` live everywhere. -/
def chainSetting : Setting where
  disableFUR := false
  disableLO := false
  registers :=
    { order :=
        [.gpr .rax, .gpr .rbx, .gpr .rcx, .gpr .rdx, .gpr .rsi, .gpr .rdi,
          .gpr .rbp, .gpr .r8, .gpr .r9, .gpr .r10, .gpr .r11, .gpr .r12,
          .gpr .r13, .gpr .r14, .gpr .r15, .xmm 0, .xmm 1, .xmm 2, .xmm 3]
      distinct := by decide
      complete := by
        intro reg valid
        cases reg with
        | gpr reg => cases reg <;> simp_all [validReg]
        | xmm index =>
            revert index
            decide
        | eflags => cases valid
      encodedLike := fun _ => .rax
      notSp := by
        intro index valid same
        cases same }
  implicitUses _ := []
  live _ _ reg := reg = .gpr .rbx
  loops _ :=
    { succs := fun _ => [0]
      uses := fun _ _ => false
      defs := fun _ _ => false
      yields := fun _ => false
      loops := [[0, 1]]
      live := fun _ _ => true
      reachingDef := fun _ _ _ => false
      reachingUse := fun _ _ _ => false }

/-- The functions lie in the order `h`, `g`, `f`, which all rounds follow: the
call in `g` is redirected before `g` is copied for `f`. -/
def chainSchedule : Schedule chainProgram.binary.functions.length where
  preScans := [2, 1, 0]
  preInstruments := [2, 1, 0]
  runs := [2, 1, 0]
  preScansAll := by decide
  preInstrumentsAll := by decide
  runsAll := by decide

/-- The copy of `g` calls that of `h` without saving `rbx`. -/
theorem chain_not_bracketed :
    ∃ stages,
      runOnFunctions chainSetting chainProgram.binary chainSchedule =
          some stages ∧
        ¬ Bracketed chainSetting stages.final := by
  obtain ⟨stages, ran, pass⟩ :=
    exists_runOfPass chainSetting chainProgram chainSchedule
  refine ⟨stages, ran, fun bracketed => ?_⟩
  have late := (pass.bracketed_iff.mp bracketed).2
  have computed :
      (runOnFunctions chainSetting chainProgram.binary chainSchedule).map
          (fun stages =>
            (stages.sites chainSchedule, stages.copiesDone.copyOf 1,
              stages.copiesDone.copyOf 2,
              stages.copiesDone.functions[3]?.map
                (·.filteredRegs (.gpr .rbx)),
              stages.copiesDone.functions[4]?.map fun fn =>
                fn.insts.zipIdx.all fun entry =>
                  !chainSetting.evacuates stages.copiesDone fn entry.2
                    entry.1 (.gpr .rbx))) =
        some
          ([⟨1, 0, .function "h", 2⟩, ⟨0, 0, .function "g", 1⟩], some 4,
            some 3, some true, some true) := by
    decide +kernel
  rw [ran, Option.map_some, Option.some.injEq] at computed
  simp only [Prod.mk.injEq] at computed
  obtain ⟨sites, copyOfG, copyOfH, filters, keeps⟩ := computed
  obtain ⟨copyH, isCopyH, filtered⟩ := Option.map_eq_some_iff.mp filters
  obtain ⟨fn, isFn, loop, -, evacuates⟩ :=
    late [] _ [_] sites (by decide) ⟨_, List.mem_singleton_self _, rfl⟩ 4
      copyOfG (.gpr .rbx) ⟨3, copyH, copyOfH, isCopyH, filtered⟩
  -- no instruction of the copy adds the register to a loop's set
  rw [isFn, Option.map_some, Option.some.injEq, List.all_eq_true] at keeps
  obtain ⟨⟨inst, node⟩, member, added⟩ := List.any_eq_true.mp evacuates
  have kept := keeps (inst, node) member
  simp only [Bool.and_eq_true, Bool.not_eq_true'] at added kept
  rw [kept] at added
  cases added.2

end Msh.PseudoInline
