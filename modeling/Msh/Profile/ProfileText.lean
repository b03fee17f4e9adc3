import Msh.Bolt.CacheMissList
import Msh.Bolt.YieldDistance
import Msh.Library.TextFields
import Msh.Profile.MissCounts

namespace Msh

/-!
# The text between the profiler and the instrumenter

`compute_ld_prob.py` prints one report.  `compute_ld_prob.sh` cuts three files
out of it by the markers of their lines, and of a `LOAD_PROB` line it keeps
four fields.  `setScavProf` and `setCMPC` read these files field by field.
What they read is what was printed: of the mean latencies the digits that they
start with, and the probabilities as the numerals that were printed.
-/

open TextFields (Numeral IsWord unwords decimalInt decimal grep
  leadingDigits leadingNumber)

namespace LoadProb

/-! ## The report -/

/-- A character of what Python prints for a floating-point number -/
def isFloatChar (char : Char) : Bool :=
  char.isDigit || ".e+-infa".toList.contains char

/-- How Python prints a floating-point number -/
structure FloatText where
  text : List Char
  notEmpty : text ≠ []
  isFloat : text.all isFloatChar = true

/-- The texts of the numbers that are printed -/
structure Printing (Number : Type) where
  /-- A mean of cycles, with an exponent or without one -/
  mean : Number → FloatText
  /-- A count, or the integer 0 -/
  count : Option Number → FloatText
  isZero : Number → Bool
  /-- `"{0:.2f}".format(100 * missCnt / execCnt)` -/
  percent : Option Number → Number → Numeral

/-- The seconds that parts of the script took -/
structure Times where
  symbolMap : FloatText
  processLbr : FloatText
  createCmDictL2 : FloatText
  createCmDictL3 : FloatText
  computeProb : FloatText

/-- The list that is printed for a number of triples: the length of each -/
def lengthsText : Nat → List Char
  | 0 => [']']
  | 1 => ['3', ']']
  | count + 2 => "3, ".toList ++ lengthsText (count + 1)

/-- `hex` -/
def hexText : Int → List Char
  | .ofNat value => "0x".toList ++ Nat.toDigits 16 value
  | .negSucc value => "-0x".toList ++ Nat.toDigits 16 (value + 1)

def latMarker : List Char := "LAT_PROF".toList

def predMarker : List Char := "PRED_PROF".toList

def loadMarker : List Char := "LOAD_PROB".toList

section Report

/-- A line of the execution summary -/
def cfLine (item : Block × Nat) : List Char :=
  unwords
    [item.1.1.toList, hexText item.1.2.1, hexText item.1.2.2,
      decimal item.2]

variable {Number : Type} (printing : Printing Number)

/-- A line of the latency summary -/
def latLine (item : Block × Number) : List Char :=
  unwords
    [latMarker, item.1.1.toList, decimalInt item.1.2.1,
      decimalInt item.1.2.2, (printing.mean item.2).text]

/-- A line of the predecessor summary -/
def predLine (item : Place × Place × Nat) : List Char :=
  unwords
    [predMarker, item.1.1.toList, decimalInt item.1.2,
      item.2.1.1.toList, decimalInt item.2.1.2, decimal item.2.2]

/-- The percentage of executions that missed, "0.00" where there were none -/
def percentOf (load : LoadLine Number) (missCnt : Option Number) : Numeral :=
  if printing.isZero load.execCnt then
    ⟨0, ['0', '0'], List.cons_ne_nil _ _, rfl⟩
  else printing.percent missCnt load.execCnt

/-- A line of `compute_prob` -/
def loadProbLine (load : LoadLine Number) : List Char :=
  unwords
    [loadMarker, load.objName.toList, decimalInt load.addr,
      (printing.count load.l2MissCnt).text,
      (printing.count load.l3MissCnt).text,
      (printing.count (some load.execCnt)).text,
      (percentOf printing load load.l2MissCnt).text ++ ['%'],
      (percentOf printing load load.l3MissCnt).text ++ ['%']]

/-- A line with the seconds that something took -/
def timeLine (what : String) (time : FloatText) : List Char :=
  unwords [what.toList, time.text, "seconds".toList]

/-- The items of the nested predecessor dictionaries -/
def Profile.predItems (profile : Profile Number) :
    List (Place × Place × Nat) :=
  profile.pred.items.flatMap fun item =>
    item.2.items.map fun source => (item.1, source)

/-- What the script prints, line by line -/
def report (times : Times) (numCores : Nat) (profile : Profile Number)
    (loads : List (LoadLine Number)) : List (List Char) :=
  [unwords
      ["Symbol".toList, "map".toList, "built".toList, "in".toList,
        times.symbolMap.text, "seconds".toList]] ++
  ['[' :: lengthsText numCores] ++
  ["BB execution summary:".toList] ++
  profile.cf.items.map cfLine ++
  [[' ']] ++
  ["BB latency summary:".toList] ++
  profile.lat.items.map (latLine printing) ++
  [[' ']] ++
  ["BB predecessor summary:".toList] ++
  profile.predItems.map predLine ++
  [[' ']] ++
  loads.map (loadProbLine printing) ++
  [timeLine "process_lbr:" times.processLbr,
    timeLine "create_cm_dictl2:" times.createCmDictL2,
    timeLine "create_cm_dictl3:" times.createCmDictL3,
    timeLine "compute_prob:" times.computeProb]

end Report

/-- `[% ]` -/
def isSeparator (char : Char) : Bool :=
  char = '%' ∨ char = ' '

/-- `awk -F'[% ]'`, which prints `$2`, `$3`, `$7` and `$9` -/
def awkPrint (line : List Char) : List Char :=
  let fields := line.splitOnP isSeparator
  unwords
    [fields.getD 1 [], fields.getD 2 [], fields.getD 6 [], fields.getD 8 []]

/-- `lat_prof.txt` -/
def latProfFile (lines : List (List Char)) : List (List Char) :=
  grep latMarker lines

/-- `pred_prof.txt` -/
def predProfFile (lines : List (List Char)) : List (List Char) :=
  grep predMarker lines

/-- `cmpc_list.txt` -/
def cmpcListFile (lines : List (List Char)) : List (List Char) :=
  (grep loadMarker lines).map awkPrint

end LoadProb

namespace BinaryContext

open TextFields YieldDistanceAnalysis

/-! ## The readers -/

/-- A line of the latency profile, unless a field of it cannot be read -/
def readLatProf (line : List Char) : Option LatProfEntry := do
  let dummy1 ← readWord line
  let dummy2 ← readWord dummy1.2
  let begin ← readUInt64 dummy2.2
  let stop ← readUInt64 begin.2
  let lat ← readUInt64 stop.2
  return ⟨begin.1, stop.1, lat.1⟩

/-- A line of the predecessor profile, unless a field of it cannot be read -/
def readPredProf (line : List Char) : Option PredProfEntry := do
  let dummy1 ← readWord line
  let dummy2 ← readWord dummy1.2
  let target ← readUInt64 dummy2.2
  let dummy3 ← readWord target.2
  let src ← readUInt64 dummy3.2
  let counts ← readUInt64 src.2
  return ⟨target.1, src.1, counts.1⟩

/-- Where control leaves `setScavProf`. -/
inductive ScavProfExit where
  /-- `return errorCodeToError(..)`, for a file that does not exist -/
  | noSuchFile
  /-- At the closing brace, with the two lists filled.  There is no `return`
  there, so that what the caller gets is undefined. -/
  | noReturn (latProfList : List LatProfEntry)
      (predProfList : List PredProfEntry)
  deriving DecidableEq, Repr

/-- `setScavProf`, with the lines of the files that exist -/
def setScavProf (latProf predProf : Option (List (List Char))) :
    Option ScavProfExit :=
  match latProf, predProf with
  | some latLines, some predLines => do
      let latProfList ← latLines.mapM readLatProf
      let predProfList ← predLines.mapM readPredProf
      return .noReturn latProfList predProfList
  | _, _ => some .noSuchFile

variable {Prob : Type} (strtof : List Char → Option Prob)

/-- A line of the list of cache misses, unless one of its first four fields
cannot be read -/
def readCMPCLine (line : List Char) : Option (CMPCLine Prob) := do
  let symbolName ← readWord line
  let addr ← readUInt64 symbolName.2
  let l2mProb ← readFloat strtof addr.2
  let l3mProb ← readFloat strtof l2mProb.2
  some
    { symbolName := String.ofList symbolName.1
      addr := ⟨addr.1⟩
      l2mProb := l2mProb.1
      l3mProb := l3mProb.1
      relOhTh := (readUInt64 l3mProb.2).map fun read => ⟨read.1⟩ }

/-- `setCMPC` from the lines of the file -/
def setCMPCFile (lines : List (List Char)) :
    Option (List (CMPCEntry Prob)) :=
  (lines.mapM (readCMPCLine strtof)).bind setCMPC

/-! ## Reading what was printed -/

open LoadProb

/-- A name without blanks and without the markers that the script searches
for -/
structure PlainName (name : String) : Prop where
  isWord : IsWord name.toList
  noLatMarker : ¬ latMarker <:+: name.toList
  noPredMarker : ¬ predMarker <:+: name.toList
  noLoadMarker : ¬ loadMarker <:+: name.toList

/-- A field of a line that is no name -/
structure PlainField (field : List Char) : Prop where
  isWord : IsWord field
  noPercent : '%' ∉ field
  noUnderscore : '_' ∉ field

/-- A character that may stand in a field -/
def isPlainChar (char : Char) : Bool :=
  !isBlank char && char != '%' && char != '_'

/-- A field of plain characters is plain. -/
theorem plainField_of_all {field : List Char} (notEmpty : field ≠ [])
    (plain : ∀ char ∈ field, isPlainChar char = true) :
    PlainField field := by
  simp only [isPlainChar, Bool.and_eq_true, Bool.not_eq_true', bne_iff_ne,
    ne_eq] at plain
  exact
    ⟨⟨notEmpty, fun char member => (plain char member).1.1⟩,
      fun member => (plain _ member).1.2 rfl,
      fun member => (plain _ member).2 rfl⟩

theorem isPlainChar_of_isDigit {char : Char}
    (isDigit : char.isDigit = true) : isPlainChar char = true := by
  have differs : ∀ other : Char, other.isDigit = false → char ≠ other := by
    rintro other notDigit rfl
    rw [isDigit] at notDigit
    cases notDigit
  simp only [isPlainChar, isBlank_of_isDigit isDigit, Bool.not_false,
    Bool.true_and, Bool.and_eq_true, bne_iff_ne]
  exact ⟨differs '%' rfl, differs '_' rfl⟩

theorem plainField_decimal (value : Nat) : PlainField (decimal value) :=
  plainField_of_all Nat.toDigits_ne_nil fun _ member =>
    isPlainChar_of_isDigit (isDigit_of_mem_decimal member)

/-- The sign of an offset is a plain character too. -/
theorem plainField_decimalInt (value : Int) :
    PlainField (decimalInt value) := by
  cases value with
  | ofNat value => exact plainField_decimal value
  | negSucc value =>
      refine plainField_of_all (isWord_decimalInt _).1
        fun char member => ?_
      rcases List.mem_cons.mp member with rfl | inDigits
      · rfl
      · exact isPlainChar_of_isDigit (isDigit_of_mem_decimal inDigits)

theorem plainField_numeral (numeral : Numeral) :
    PlainField numeral.text := by
  refine plainField_of_all numeral.isWord_text.1 fun char member => ?_
  rcases List.mem_append.mp member with inWhole | inFraction
  · exact isPlainChar_of_isDigit (isDigit_of_mem_decimal inWhole)
  · rcases List.mem_cons.mp inFraction with rfl | inFraction
    · rfl
    · exact
        isPlainChar_of_isDigit (numeral.isDigit_of_mem_fraction inFraction)

/--
A number of Python has no percent sign and no underscore, whatever its size.
-/
theorem plainField_float (float : FloatText) : PlainField float.text := by
  have others : ".e+-infa".toList.all isPlainChar = true := by decide
  refine plainField_of_all float.notEmpty fun char member => ?_
  have isFloat := List.all_eq_true.mp float.isFloat char member
  rcases Bool.or_eq_true_iff.mp isFloat with isDigit | isOther
  · exact isPlainChar_of_isDigit isDigit
  · exact
      List.all_eq_true.mp others char (List.contains_iff_mem.mp isOther)

/-- A hexadecimal number has no underscore. -/
theorem underscore_notMem_hexText (value : Int) :
    '_' ∉ hexText value := by
  have digit : ∀ value < 16, '_' ≠ Nat.digitChar value := by decide
  have digits : ∀ value, '_' ∉ Nat.toDigits 16 value := by
    intro value
    induction value using Nat.strongRecOn with
    | ind value inductionHypothesis =>
        rw [Nat.toDigits_eq_if (by decide)]
        split
        · next small =>
            rw [List.mem_singleton]
            exact digit value small
        · next large =>
            have smaller : value / 16 < value := by omega
            rw [List.mem_append, not_or, List.mem_singleton]
            exact
              ⟨inductionHypothesis _ smaller,
                digit _ (Nat.mod_lt value (by decide))⟩
  cases value with
  | ofNat value =>
      rw [hexText, List.mem_append, not_or]
      exact ⟨by decide, digits value⟩
  | negSucc value =>
      rw [hexText, List.mem_append, not_or]
      exact ⟨by decide, digits (value + 1)⟩

/-- A list of lengths has no underscore. -/
theorem underscore_notMem_lengthsText (count : Nat) :
    '_' ∉ lengthsText count := by
  induction count using lengthsText.induct with
  | case1 => decide
  | case2 => decide
  | case3 count inductionHypothesis =>
      rw [lengthsText, List.mem_append, not_or]
      exact ⟨by decide, inductionHypothesis⟩

section Markers

/-- A marker of lines is in no name, and in no other part of a line. -/
structure IsMarker (marker : List Char) : Prop where
  isWord : IsWord marker
  underscore : '_' ∈ marker
  notTimed :
    ∀ what ∈ ["process_lbr:", "create_cm_dictl2:", "create_cm_dictl3:",
        "compute_prob:"],
      ¬ marker <:+: what.toList
  notName : ∀ name, PlainName name → ¬ marker <:+: name.toList

theorem latMarker_isMarker : IsMarker latMarker :=
  ⟨by decide, by decide, by decide, fun _ plain => plain.noLatMarker⟩

theorem predMarker_isMarker : IsMarker predMarker :=
  ⟨by decide, by decide, by decide, fun _ plain => plain.noPredMarker⟩

theorem loadMarker_isMarker : IsMarker loadMarker :=
  ⟨by decide, by decide, by decide, fun _ plain => plain.noLoadMarker⟩

variable {marker : List Char} (isMarker : IsMarker marker)

include isMarker

/-- A marker has an underscore, and a plain field has none. -/
theorem IsMarker.notPlain {field : List Char} (plain : PlainField field) :
    ¬ marker <:+: field :=
  not_infix_of_not_mem isMarker.underscore plain.noUnderscore

/-- No line of the execution summary has a marker. -/
theorem IsMarker.notInCfLine {item : Block × Nat}
    (plain : PlainName item.1.1) : ¬ marker <:+: cfLine item := by
  refine not_infix_unwords isMarker.isWord ?_
  simp only [List.forall_mem_cons, List.not_mem_nil, false_imp_iff,
    implies_true, and_true]
  exact
    ⟨isMarker.notName _ plain,
      not_infix_of_not_mem isMarker.underscore (underscore_notMem_hexText _),
      not_infix_of_not_mem isMarker.underscore (underscore_notMem_hexText _),
      isMarker.notPlain (plainField_decimal _)⟩

variable {Number : Type} (printing : Printing Number)

/-- A line of the latency summary has no marker but its own. -/
theorem IsMarker.notInLatLine (other : ¬ marker <:+: latMarker)
    {item : Block × Number} (plain : PlainName item.1.1) :
    ¬ marker <:+: latLine printing item := by
  refine not_infix_unwords isMarker.isWord ?_
  simp only [List.forall_mem_cons, List.not_mem_nil, false_imp_iff,
    implies_true, and_true]
  exact
    ⟨other, isMarker.notName _ plain,
      isMarker.notPlain (plainField_decimalInt _),
      isMarker.notPlain (plainField_decimalInt _),
      isMarker.notPlain (plainField_float _)⟩

/-- A line of the predecessor summary has no marker but its own. -/
theorem IsMarker.notInPredLine (other : ¬ marker <:+: predMarker)
    {item : Place × Place × Nat} (plainTarget : PlainName item.1.1)
    (plainSource : PlainName item.2.1.1) :
    ¬ marker <:+: predLine item := by
  refine not_infix_unwords isMarker.isWord ?_
  simp only [List.forall_mem_cons, List.not_mem_nil, false_imp_iff,
    implies_true, and_true]
  exact
    ⟨other, isMarker.notName _ plainTarget,
      isMarker.notPlain (plainField_decimalInt _),
      isMarker.notName _ plainSource,
      isMarker.notPlain (plainField_decimalInt _),
      isMarker.notPlain (plainField_decimal _)⟩

/-- A line of `compute_prob` has no marker but its own. -/
theorem IsMarker.notInLoadProbLine (other : ¬ marker <:+: loadMarker)
    {load : LoadLine Number} (plain : PlainName load.objName) :
    ¬ marker <:+: loadProbLine printing load := by
  have notPercent : ∀ numeral : Numeral,
      ¬ marker <:+: numeral.text ++ ['%'] := by
    intro numeral
    refine not_infix_of_not_mem isMarker.underscore ?_
    rw [List.mem_append, not_or]
    exact ⟨(plainField_numeral numeral).noUnderscore, by decide⟩
  refine not_infix_unwords isMarker.isWord ?_
  simp only [List.forall_mem_cons, List.not_mem_nil, false_imp_iff,
    implies_true, and_true]
  exact
    ⟨other, isMarker.notName _ plain,
      isMarker.notPlain (plainField_decimalInt _),
      isMarker.notPlain (plainField_float _),
      isMarker.notPlain (plainField_float _),
      isMarker.notPlain (plainField_float _), notPercent _, notPercent _⟩

/-- No line with a time has a marker. -/
theorem IsMarker.notInTimeLine {what : String}
    (notTimed : ¬ marker <:+: what.toList) (time : FloatText) :
    ¬ marker <:+: timeLine what time := by
  refine not_infix_unwords isMarker.isWord ?_
  simp only [List.forall_mem_cons, List.not_mem_nil, false_imp_iff,
    implies_true, and_true]
  exact
    ⟨notTimed, isMarker.notPlain (plainField_float _),
      not_infix_of_not_mem isMarker.underscore (by decide)⟩

/-- What a marker finds of the report is in the three parts whose lines have
markers. -/
theorem IsMarker.grep_report (times : Times) (numCores : Nat)
    {profile : Profile Number} {loads : List (LoadLine Number)}
    (plain : ∀ item ∈ profile.cf.items, PlainName item.1.1) :
    grep marker (report printing times numCores profile loads) =
      grep marker (profile.lat.items.map (latLine printing)) ++
        grep marker (profile.predItems.map predLine) ++
        grep marker (loads.map (loadProbLine printing)) := by
  have fixed : ∀ text : List Char, '_' ∉ text → grep marker [text] = [] := by
    intro text absent
    refine grep_eq_nil fun line member => ?_
    rw [List.mem_singleton.mp member]
    exact not_infix_of_not_mem isMarker.underscore absent
  have symbolMap :
      '_' ∉ unwords
        ["Symbol".toList, "map".toList, "built".toList, "in".toList,
          times.symbolMap.text, "seconds".toList] := by
    have plainTime := (plainField_float times.symbolMap).noUnderscore
    simp only [unwords_cons_cons, unwords_singleton, List.mem_append,
      List.mem_cons, not_or]
    refine ⟨?_, ?_, ?_, ?_, ?_, ?_, ?_, ?_, plainTime, ?_, ?_⟩ <;> decide
  have lengths : '_' ∉ '[' :: lengthsText numCores := by
    rw [List.mem_cons, not_or]
    exact ⟨by decide, underscore_notMem_lengthsText numCores⟩
  have executions : grep marker (profile.cf.items.map cfLine) = [] := by
    refine grep_eq_nil fun line member => ?_
    obtain ⟨item, isItem, rfl⟩ := List.mem_map.mp member
    exact isMarker.notInCfLine (plain item isItem)
  have timings :
      grep marker
          [timeLine "process_lbr:" times.processLbr,
            timeLine "create_cm_dictl2:" times.createCmDictL2,
            timeLine "create_cm_dictl3:" times.createCmDictL3,
            timeLine "compute_prob:" times.computeProb] =
        [] := by
    have notTimed := isMarker.notTimed
    simp only [List.forall_mem_cons, List.not_mem_nil, false_imp_iff,
      implies_true, and_true] at notTimed
    refine grep_eq_nil ?_
    simp only [List.forall_mem_cons, List.not_mem_nil, false_imp_iff,
      implies_true, and_true]
    exact
      ⟨isMarker.notInTimeLine notTimed.1 _,
        isMarker.notInTimeLine notTimed.2.1 _,
        isMarker.notInTimeLine notTimed.2.2.1 _,
        isMarker.notInTimeLine notTimed.2.2.2 _⟩
  simp only [report, grep_append, fixed _ symbolMap, fixed _ lengths,
    executions, timings, fixed [' '] (by decide),
    fixed "BB execution summary:".toList (by decide),
    fixed "BB latency summary:".toList (by decide),
    fixed "BB predecessor summary:".toList (by decide),
    List.nil_append, List.append_nil]

end Markers

/-- All names of a report are plain. -/
structure PlainNames {Number : Type} (profile : Profile Number)
    (loads : List (LoadLine Number)) : Prop where
  cf : ∀ item ∈ profile.cf.items, PlainName item.1.1
  lat : ∀ item ∈ profile.lat.items, PlainName item.1.1
  pred :
    ∀ item ∈ profile.predItems, PlainName item.1.1 ∧ PlainName item.2.1.1
  loads : ∀ load ∈ loads, PlainName load.objName

section Files

variable {Number : Type} (printing : Printing Number)
  {profile : Profile Number} {loads : List (LoadLine Number)}
  (plain : PlainNames profile loads)

section Lines

variable {marker : List Char} (isMarker : IsMarker marker)

include isMarker in
/-- Each line that starts with its marker is found. -/
theorem IsMarker.grep_marked {Item : Type} (line : Item → List Char)
    {fields : Item → List (List Char)}
    (marked : ∀ item, line item = unwords (marker :: fields item))
    (items : List Item) :
    grep marker (items.map line) = items.map line := by
  refine grep_eq_self fun text member => ?_
  obtain ⟨item, _, rfl⟩ := List.mem_map.mp member
  rw [marked, infix_unwords_iff isMarker.isWord]
  exact ⟨marker, List.mem_cons_self, List.infix_rfl⟩

include plain isMarker

theorem IsMarker.grep_latLines (other : ¬ marker <:+: latMarker) :
    grep marker (profile.lat.items.map (latLine printing)) = [] := by
  refine grep_eq_nil fun line member => ?_
  obtain ⟨item, isItem, rfl⟩ := List.mem_map.mp member
  exact isMarker.notInLatLine printing other (plain.lat item isItem)

theorem IsMarker.grep_predLines (other : ¬ marker <:+: predMarker) :
    grep marker (profile.predItems.map predLine) = [] := by
  refine grep_eq_nil fun line member => ?_
  obtain ⟨item, isItem, rfl⟩ := List.mem_map.mp member
  obtain ⟨target, source⟩ := plain.pred item isItem
  exact isMarker.notInPredLine other target source

theorem IsMarker.grep_loadProbLines (other : ¬ marker <:+: loadMarker) :
    grep marker (loads.map (loadProbLine printing)) = [] := by
  refine grep_eq_nil fun line member => ?_
  obtain ⟨load, isLoad, rfl⟩ := List.mem_map.mp member
  exact isMarker.notInLoadProbLine printing other (plain.loads load isLoad)

end Lines

variable (times : Times) (numCores : Nat)

include plain

/-- `lat_prof.txt` has the lines of the latency summary, and no others. -/
theorem latProfFile_report :
    latProfFile (report printing times numCores profile loads) =
      profile.lat.items.map (latLine printing) := by
  have isMarker := latMarker_isMarker
  rw [latProfFile, isMarker.grep_report printing times numCores plain.cf,
    isMarker.grep_predLines plain (by decide),
    isMarker.grep_loadProbLines printing plain (by decide),
    isMarker.grep_marked (latLine printing) fun _ => rfl,
    List.append_nil, List.append_nil]

/-- `pred_prof.txt` has the lines of the predecessor summary, and no others. -/
theorem predProfFile_report :
    predProfFile (report printing times numCores profile loads) =
      profile.predItems.map predLine := by
  have isMarker := predMarker_isMarker
  rw [predProfFile, isMarker.grep_report printing times numCores plain.cf,
    isMarker.grep_latLines printing plain (by decide),
    isMarker.grep_loadProbLines printing plain (by decide),
    isMarker.grep_marked predLine fun _ => rfl,
    List.nil_append, List.append_nil]

/-- `cmpc_list.txt` has the fields that awk keeps of the loads. -/
theorem cmpcListFile_report :
    cmpcListFile (report printing times numCores profile loads) =
      loads.map fun load => awkPrint (loadProbLine printing load) := by
  have isMarker := loadMarker_isMarker
  rw [cmpcListFile,
    isMarker.grep_report printing times numCores plain.cf,
    isMarker.grep_latLines printing plain (by decide),
    isMarker.grep_predLines plain (by decide),
    isMarker.grep_marked (loadProbLine printing) fun _ => rfl,
    List.nil_append, List.nil_append, List.map_map]
  rfl

end Files

/-! ## Entries -/

section Entries

variable {Number : Type} (printing : Printing Number)

/-- The latency entry of an item: of the mean the digits it starts with -/
def latEntry (item : Block × Number) : LatProfEntry where
  begin := BitVec.ofInt 64 item.1.2.1
  stop := BitVec.ofInt 64 item.1.2.2
  lat := BitVec.ofNat 64 (leadingNumber (printing.mean item.2).text)

/-- The predecessor entry of an item -/
def predEntry (item : Place × Place × Nat) : PredProfEntry where
  target := BitVec.ofInt 64 item.1.2
  src := BitVec.ofInt 64 item.2.1.2
  counts := BitVec.ofNat 64 item.2.2

/-- The entry of a load, with the numerals that were printed as percentages -/
def cmpcEntry {Prob : Type} (strtof : List Char → Option Prob)
    (load : LoadLine Number) : Option (CMPCEntry Prob) := do
  let l2mProb ← strtof (percentOf printing load load.l2MissCnt).text
  let l3mProb ← strtof (percentOf printing load load.l3MissCnt).text
  some
    { addr := ⟨BitVec.ofInt 64 load.addr⟩
      l2mProb := l2mProb
      l3mProb := l3mProb
      relOhTh := 100 }

/-- All numbers that are read as unsigned numbers have at most 64 bits, and
no mean is negative. -/
structure Fits (profile : Profile Number) (loads : List (LoadLine Number)) :
    Prop where
  lat :
    ∀ item ∈ profile.lat.items,
      item.1.2.1.natAbs < 2 ^ 64 ∧ item.1.2.2.natAbs < 2 ^ 64 ∧
        leadingDigits (printing.mean item.2).text ≠ [] ∧
        leadingNumber (printing.mean item.2).text < 2 ^ 64
  pred :
    ∀ item ∈ profile.predItems,
      item.1.2.natAbs < 2 ^ 64 ∧ item.2.1.2.natAbs < 2 ^ 64 ∧
        item.2.2 < 2 ^ 64
  loads : ∀ load ∈ loads, load.addr.natAbs < 2 ^ 64

/-- A line of the latency profile is read as it was printed. -/
theorem readLatProf_latLine {item : Block × Number}
    (plain : PlainName item.1.1)
    (begin : item.1.2.1.natAbs < 2 ^ 64)
    (stop : item.1.2.2.natAbs < 2 ^ 64)
    (starts : leadingDigits (printing.mean item.2).text ≠ [])
    (mean : leadingNumber (printing.mean item.2).text < 2 ^ 64) :
    readLatProf (latLine printing item) = some (latEntry printing item) := by
  have space := fun rest => endsField_space rest
  have readMean := readUInt64_leading starts mean
  simp only [readLatProf, latLine, unwords_cons_cons, unwords_singleton,
    Option.bind_eq_bind, Option.pure_def,
    readWord_word latMarker_isMarker.isWord (space _), Option.bind_some,
    readWord_space, readWord_word plain.isWord (space _),
    readUInt64_space, readUInt64_decimalInt begin (space _).not_isDigit,
    readUInt64_decimalInt stop (space _).not_isDigit, readMean, latEntry]

/-- A line of the predecessor profile is read as it was printed. -/
theorem readPredProf_predLine {item : Place × Place × Nat}
    (plainTarget : PlainName item.1.1) (plainSource : PlainName item.2.1.1)
    (target : item.1.2.natAbs < 2 ^ 64)
    (source : item.2.1.2.natAbs < 2 ^ 64) (count : item.2.2 < 2 ^ 64) :
    readPredProf (predLine item) = some (predEntry item) := by
  have space := fun rest => endsField_space rest
  have readCount :=
    readUInt64_decimal count endsField_nil.not_isDigit
  rw [List.append_nil] at readCount
  simp only [readPredProf, predLine, unwords_cons_cons, unwords_singleton,
    Option.bind_eq_bind, Option.pure_def,
    readWord_word predMarker_isMarker.isWord (space _), Option.bind_some,
    readWord_space, readWord_word plainTarget.isWord (space _),
    readUInt64_space, readUInt64_decimalInt target (space _).not_isDigit,
    readWord_word plainSource.isWord (space _),
    readUInt64_decimalInt source (space _).not_isDigit, readCount, predEntry]

/-- Fields without the separators are not split. -/
theorem splitOnP_of_isWord {field : List Char} (isWord : IsWord field)
    (noPercent : '%' ∉ field) :
    field.splitOnP isSeparator = [field] := by
  refine List.splitOnP_eq_singleton fun char member => ?_
  refine decide_eq_false (not_or.mpr ⟨?_, ?_⟩)
  · rintro rfl
    exact noPercent member
  · rintro rfl
    exact absurd (isWord.2 _ member) (by decide)

/-- A percentage is split from its sign. -/
theorem splitOnP_percent (numeral : Numeral) :
    (numeral.text ++ ['%']).splitOnP isSeparator =
      [numeral.text, []] := by
  have plain := plainField_numeral numeral
  rw [List.splitOnP_append_cons _ _ (by decide),
    splitOnP_of_isWord plain.isWord plain.noPercent]
  rfl

/-- The fields that are kept: the name, the address and the percentages -/
theorem awkPrint_loadProbLine {load : LoadLine Number}
    (plain : PlainName load.objName)
    (noPercent : '%' ∉ load.objName.toList) :
    awkPrint (loadProbLine printing load) =
      unwords
        [load.objName.toList, decimalInt load.addr,
          (percentOf printing load load.l2MissCnt).text,
          (percentOf printing load load.l3MissCnt).text] := by
  have ofPlain : ∀ {field : List Char}, PlainField field →
      field.splitOnP isSeparator = [field] :=
    fun plainField =>
      splitOnP_of_isWord plainField.isWord plainField.noPercent
  simp only [awkPrint, loadProbLine,
    splitOnP_unwords (show isSeparator ' ' by rfl), List.flatMap_cons,
    List.flatMap_nil,
    splitOnP_of_isWord loadMarker_isMarker.isWord (by decide),
    splitOnP_of_isWord plain.isWord noPercent,
    ofPlain (plainField_decimalInt _), ofPlain (plainField_float _),
    splitOnP_percent]
  rfl

/-- A line of the list of cache misses is read as it was printed. -/
theorem readCMPCLine_awkPrint {Prob : Type}
    (strtof : List Char → Option Prob) {load : LoadLine Number}
    (plain : PlainName load.objName)
    (noPercent : '%' ∉ load.objName.toList)
    (addr : load.addr.natAbs < 2 ^ 64) :
    (readCMPCLine strtof (awkPrint (loadProbLine printing load))).map
        (·.entry) =
      cmpcEntry printing strtof load := by
  have space := fun rest => endsField_space rest
  have readLast :=
    (percentOf printing load load.l3MissCnt).readFloat_text strtof
      endsField_nil
  rw [List.append_nil] at readLast
  rw [awkPrint_loadProbLine printing plain noPercent]
  simp only [readCMPCLine, unwords_cons_cons, unwords_singleton,
    Option.bind_eq_bind, readWord_word plain.isWord (space _),
    Option.bind_some, readUInt64_space,
    readUInt64_decimalInt addr (space _).not_isDigit, readFloat_space,
    Numeral.readFloat_text _ strtof (space _), cmpcEntry]
  cases strtof (percentOf printing load load.l2MissCnt).text with
  | none => rfl
  | some l2mProb =>
      simp only [Option.map_some, Option.bind_some, readFloat_space,
        readLast]
      cases strtof (percentOf printing load load.l3MissCnt).text with
      | none => rfl
      | some l3mProb => rfl

end Entries

/-! ## Round trips -/

/-- What is read of each item's text is read of all texts. -/
theorem mapM_map_eq {Item Text Entry : Type} {write : Item → Text}
    {read : Text → Option Entry} {entry : Item → Option Entry}
    {items : List Item}
    (reads : ∀ item ∈ items, read (write item) = entry item) :
    (items.map write).mapM read = items.mapM entry := by
  induction items with
  | nil => rfl
  | cons item items inductionHypothesis =>
      have first := reads item List.mem_cons_self
      have rest := inductionHypothesis fun other member =>
        reads other (List.mem_cons_of_mem item member)
      rw [List.map_cons, List.mapM_cons, List.mapM_cons, first, rest]

/-- A line of the list gives an entry of its own. -/
theorem setCMPCFile_eq {Prob : Type} (strtof : List Char → Option Prob)
    (lines : List (List Char)) :
    setCMPCFile strtof lines =
      lines.mapM fun line =>
        (readCMPCLine strtof line).map (·.entry) := by
  induction lines with
  | nil => rfl
  | cons line lines inductionHypothesis =>
      unfold setCMPCFile at inductionHypothesis ⊢
      rw [List.mapM_cons, List.mapM_cons, ← inductionHypothesis]
      cases readCMPCLine strtof line with
      | none => rfl
      | some first =>
          cases lines.mapM (readCMPCLine strtof) with
          | none => rfl
          | some rest => rfl

/-- When `setScavProf` comes to its end, its lists have an entry for each
latency and for each predecessor that the script has found, in the order of its
dictionaries. -/
theorem setScavProf_report {Number : Type} (printing : Printing Number)
    (times : Times) (numCores : Nat) {profile : Profile Number}
    {loads : List (LoadLine Number)} (plain : PlainNames profile loads)
    (fits : Fits printing profile loads) :
    setScavProf
        (some (latProfFile (report printing times numCores profile loads)))
        (some
          (predProfFile (report printing times numCores profile loads))) =
      some
        (.noReturn (profile.lat.items.map (latEntry printing))
          (profile.predItems.map predEntry)) := by
  have latRead :
      (profile.lat.items.map (latLine printing)).mapM readLatProf =
        some (profile.lat.items.map (latEntry printing)) := by
    rw [mapM_map_eq fun item member => ?_]
    · exact List.mapM_pure
    · obtain ⟨begin, stop, starts, mean⟩ := fits.lat item member
      exact
        readLatProf_latLine printing (plain.lat item member) begin stop
          starts mean
  have predRead :
      (profile.predItems.map predLine).mapM readPredProf =
        some (profile.predItems.map predEntry) := by
    rw [mapM_map_eq fun item member => ?_]
    · exact List.mapM_pure
    · obtain ⟨target, source, count⟩ := fits.pred item member
      obtain ⟨plainTarget, plainSource⟩ := plain.pred item member
      exact
        readPredProf_predLine plainTarget plainSource target source count
  rw [setScavProf, latProfFile_report printing plain times numCores,
    predProfFile_report printing plain times numCores, latRead, predRead]
  rfl

/-- The list of cache misses that is read has an entry for each load that the
script was asked for, with the percentages it has printed. -/
theorem setCMPCFile_report {Number Prob : Type}
    (printing : Printing Number) (strtof : List Char → Option Prob)
    (times : Times) (numCores : Nat) {profile : Profile Number}
    {loads : List (LoadLine Number)} (plain : PlainNames profile loads)
    (noPercent : ∀ load ∈ loads, '%' ∉ load.objName.toList)
    (fits : Fits printing profile loads) :
    setCMPCFile strtof
        (cmpcListFile (report printing times numCores profile loads)) =
      loads.mapM (cmpcEntry printing strtof) := by
  rw [setCMPCFile_eq, cmpcListFile_report printing plain times numCores]
  exact mapM_map_eq fun load member =>
    readCMPCLine_awkPrint printing strtof (plain.loads load member)
      (noPercent load member) (fits.loads load member)

section Example

/-- A number with some digits behind the point -/
def fixedPoint (digits : Nat) (number : Rat) : Numeral where
  whole := number.floor.toNat
  fraction :=
    (List.range (digits + 1)).map fun place =>
      Nat.digitChar ((number * 10 ^ (place + 1)).floor.toNat % 10)
  notEmpty := by
    rw [List.range_succ, List.map_append]
    exact List.append_ne_nil_of_right_ne_nil _ (List.cons_ne_nil _ _)
  isFraction := by
    refine List.all_eq_true.mpr fun char member => ?_
    obtain ⟨place, _, rfl⟩ := List.mem_map.mp member
    rw [Nat.isDigit_digitChar]
    exact decide_eq_true (Nat.mod_lt _ (by decide))

theorem isFloatChar_of_mem_text {numeral : Numeral} {char : Char}
    (member : char ∈ numeral.text) : isFloatChar char = true := by
  rcases List.mem_append.mp member with inWhole | inFraction
  · rw [isFloatChar, isDigit_of_mem_decimal inWhole, Bool.true_or]
  · rcases List.mem_cons.mp inFraction with rfl | inFraction
    · rfl
    · rw [isFloatChar, numeral.isDigit_of_mem_fraction inFraction,
        Bool.true_or]

/-- The text of a numeral, as that of a floating-point number -/
def floatText (numeral : Numeral) : FloatText where
  text := numeral.text
  notEmpty := numeral.isWord_text.1
  isFloat := List.all_eq_true.mpr fun _ => isFloatChar_of_mem_text

/-- The texts of numbers that have few digits -/
def fixedPointPrinting : Printing Rat where
  mean number := floatText (fixedPoint 0 number)
  count missCnt :=
    missCnt.elim ⟨['0'], List.cons_ne_nil _ _, rfl⟩ fun number =>
      floatText (fixedPoint 0 number)
  isZero number := number = 0
  percent missCnt execCnt := fixedPoint 1 (100 * missCnt.getD 0 / execCnt)

/-- A tenth of a second for everything -/
def evenTimes : Times :=
  let tenth : FloatText :=
    ⟨['0', '.', '1'], List.cons_ne_nil _ _, by decide⟩
  ⟨tenth, tenth, tenth, tenth, tenth⟩

/-- One block, reached in one way -/
def oneBlockProfile : Profile Rat where
  cf := ⟨[(("app", 16, 63), 2)], by decide⟩
  lat := ⟨[(("app", 16, 63), 13 / 2)], by decide⟩
  pred := ⟨[(("app", 16), ⟨[(("app", 63), 3)], by decide⟩)], by decide⟩

/-- A load that misses one time in sixteen -/
def oneLoad : List (LoadLine Rat) :=
  [⟨"app", 32, some 4096, none, 65536⟩]

theorem plainName_app : PlainName "app" := by
  constructor <;> decide

theorem oneBlock_plainNames : PlainNames oneBlockProfile oneLoad := by
  constructor <;>
    simp [oneBlockProfile, oneLoad, Profile.predItems, plainName_app]

theorem oneBlock_fits :
    Fits fixedPointPrinting oneBlockProfile oneLoad := by
  constructor <;> decide +kernel

theorem setScavProf_report_oneBlock :
    setScavProf
        (some (latProfFile
          (report fixedPointPrinting evenTimes 56 oneBlockProfile oneLoad)))
        (some (predProfFile
          (report fixedPointPrinting evenTimes 56 oneBlockProfile
            oneLoad))) =
      some (.noReturn [⟨16, 63, 6⟩] [⟨16, 63, 3⟩]) :=
  (setScavProf_report fixedPointPrinting evenTimes 56 oneBlock_plainNames
    oneBlock_fits).trans (by decide +kernel)

theorem setCMPCFile_report_oneLoad :
    (setCMPCFile (fun text => some (String.ofList text))
        (cmpcListFile
          (report fixedPointPrinting evenTimes 56 oneBlockProfile
            oneLoad))).map (·.map fun entry => (entry.addr, entry.l2mProb)) =
      some [(32, "6.25")] := by
  rw [setCMPCFile_report fixedPointPrinting _ evenTimes 56
    oneBlock_plainNames (by decide) oneBlock_fits]
  decide +kernel

end Example

end BinaryContext

end Msh
