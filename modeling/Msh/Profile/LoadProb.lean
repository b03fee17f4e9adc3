import Msh.Library.Dict
import Msh.Library.StridedSlices

namespace Msh

/-!
# Profiling from a trace of branch records

`compute_ld_prob.py` counts, from the last-branch records of a trace, how
often each block of code ran, how long it took on average, and which branches
led where.  It splits the lines of the trace among worker processes; each
fills dictionaries of its own, which are aggregated in the end.  An operation
that raises an exception returns `none` here: it ends the script.
-/

namespace LoadProb

/-- `str.isspace` -/
def isSpace (char : Char) : Bool :=
  let code := char.toNat
  (0x09 ≤ code && code ≤ 0x0d) || (0x1c ≤ code && code ≤ 0x20) ||
    code == 0x85 || code == 0xa0 || code == 0x1680 ||
    (0x2000 ≤ code && code ≤ 0x200a) || code == 0x2028 ||
    code == 0x2029 || code == 0x202f || code == 0x205f || code == 0x3000

/-- `text.split()` -/
def splitSpace (text : String) : List String :=
  ((text.toList.splitOnP isSpace).filter (· ≠ [])).map String.ofList

/-- `text.split(sep)` -/
def splitAt (sep : Char) (text : String) : List String :=
  (text.toList.splitOn sep).map String.ofList

/-- `text.strip()` -/
def strip (text : String) : String :=
  String.ofList
    ((text.toList.dropWhile isSpace).reverse.dropWhile isSpace).reverse

/--
The conversions of Python.  What they accept depends on its version; the
script depends on no more than that they are functions.
-/
structure Conversions (Average : Type) where
  /-- `int(text, base)`, unless it raises `ValueError` -/
  int : String → Nat → Option Int
  /-- `sum / cnt` for two integers, unless it raises `OverflowError` -/
  trueDiv : Int → Nat → Option Average

/-- "(branch src, branch dst, cycles elapsed since the last LRB)" -/
structure Branch where
  src : Int
  dst : Int
  cycles : Int
  deriving DecidableEq, Repr

/-- "(object start address, symbol start address, symbol end address)" -/
structure SymbolRange where
  objectStart : Int
  symbolStart : Int
  symbolEnd : Int
  deriving DecidableEq, Repr

/-- "addr is in the range of the symbol" -/
def SymbolRange.Contains (range : SymbolRange) (addr : Int) : Prop :=
  range.symbolStart ≤ addr ∧ addr ≤ range.symbolEnd

instance (range : SymbolRange) (addr : Int) :
    Decidable (range.Contains addr) :=
  inferInstanceAs (Decidable (_ ∧ _))

/-- `symbol_map` -/
abbrev SymbolMap : Type := Dict String SymbolRange

/-- `last_match`: `None`, or an item of the symbol map -/
abbrev LastMatch (symbolMap : SymbolMap) : Type :=
  Option { item : String × SymbolRange // item ∈ symbolMap.items }

/-- An object and two addresses relative to its start -/
abbrev Block : Type := String × Int × Int

/-- An object and an address relative to its start -/
abbrev Place : Type := String × Int

/-- The dictionaries that `sub_process_lbr` fills. -/
structure SubDicts where
  /-- `sub_cf_dict` -/
  cf : Dict Block Nat
  /-- `sub_lat_dict`: cycles and how often -/
  lat : Dict Block (Int × Nat)
  /-- `sub_pred_dict`: for a destination, the sources that led there -/
  pred : Dict Place (Dict Place Nat)

/-- `cf_dict`, `lat_dict` and `pred_dict` in the end -/
structure Profile (Average : Type) where
  cf : Dict Block Nat
  lat : Dict Block Average
  pred : Dict Place (Dict Place Nat)

/-- `LBR_SUBSAMPLE_SIZE` -/
def lbrSubsampleSize : Nat := 32

section Lookup

variable {symbolMap : SymbolMap}

/-- `__symbol_map_lookup`, and `last_match` after it -/
def symbolMapLookup (lastMatch : LastMatch symbolMap) (addr : Int) :
    (Option String × Int) × LastMatch symbolMap :=
  let search :=
    match symbolMap.items.attach.find? fun item =>
        item.1.2.Contains addr with
    | some item =>
        ((some item.1.1, addr - item.1.2.objectStart), some item)
    | none => ((none, 0), lastMatch)
  match lastMatch with
  | some item =>
      if item.1.2.Contains addr then
        ((some item.1.1, addr - item.1.2.objectStart), lastMatch)
      else search
  | none => search

/-- `__localize_address`, and `last_match` after it -/
def localizeAddress
    (lastMatch : LastMatch symbolMap) (srcPc dstPc : Int)
    (allowDiffObj : Bool) : Option Block × LastMatch symbolMap :=
  let src := symbolMapLookup lastMatch srcPc
  let dst := symbolMapLookup src.2 dstPc
  match src.1.1, dst.1.1 with
  | some srcObjName, some dstObjName =>
      if srcObjName ≠ dstObjName ∧ ¬ allowDiffObj then (none, dst.2)
      else (some (srcObjName, src.1.2, dst.1.2), dst.2)
  | _, _ => (none, dst.2)

namespace SubDicts

/-- One more execution of a block -/
def countBlock (dicts : SubDicts) (triple : Block) (cycles : Int) :
    Option SubDicts :=
  match dicts.cf.get? triple with
  | some count =>
      match dicts.lat.get? triple with
      | some lat =>
          some { dicts with
            cf := dicts.cf.set triple (count + 1)
            lat := dicts.lat.set triple (lat.1 + cycles, lat.2 + 1) }
      | none => none
  | none =>
      some { dicts with
        cf := dicts.cf.set triple 1
        lat := dicts.lat.set triple (cycles, 1) }

/--
The loop of `create_control_flow_tuples`; `src` is the source of the branch
before, once there is one.
-/
def controlFlowTuplesFrom
    (src : Option Int) (dicts : SubDicts)
    (lastMatch : LastMatch symbolMap) :
    List Branch → Option (SubDicts × LastMatch symbolMap)
  | [] => some (dicts, lastMatch)
  | branch :: rest =>
      match src with
      | none => controlFlowTuplesFrom (some branch.src) dicts lastMatch rest
      | some src =>
          match localizeAddress lastMatch branch.dst src false with
          | (none, lastMatch) =>
              controlFlowTuplesFrom (some branch.src) dicts lastMatch rest
          | (some triple, lastMatch) =>
              match dicts.countBlock triple branch.cycles with
              | none => none
              | some dicts =>
                  controlFlowTuplesFrom (some branch.src) dicts lastMatch
                    rest

/-- `create_control_flow_tuples` -/
def createControlFlowTuples
    (dicts : SubDicts) (lastMatch : LastMatch symbolMap)
    (branchSrcToDstList : List Branch) :
    Option (SubDicts × LastMatch symbolMap) :=
  dicts.controlFlowTuplesFrom none lastMatch branchSrcToDstList

/-- One more branch from a place to a place -/
def countPredecessor
    (dicts : SubDicts) (localAddrSrc localAddrDst : Place) : SubDicts :=
  { dicts with
    pred :=
      match dicts.pred.get? localAddrDst with
      | some sources =>
          dicts.pred.set localAddrDst
            (match sources.get? localAddrSrc with
            | some count => sources.set localAddrSrc (count + 1)
            | none => sources.set localAddrSrc 1)
      | none =>
          dicts.pred.set localAddrDst (Dict.empty.set localAddrSrc 1) }

/-- `create_predecessor_profile` -/
def createPredecessorProfile
    (dicts : SubDicts) (lastMatch : LastMatch symbolMap) :
    List Branch → SubDicts × LastMatch symbolMap
  | [] => (dicts, lastMatch)
  | branch :: rest =>
      match localizeAddress lastMatch branch.src branch.dst true with
      | (none, lastMatch) =>
          dicts.createPredecessorProfile lastMatch rest
      | (some triple, lastMatch) =>
          (dicts.countPredecessor
            (triple.1, triple.2.1)
            (triple.1, triple.2.2)).createPredecessorProfile
              lastMatch rest

end SubDicts

end Lookup

section Process

variable {Average : Type} (conversions : Conversions Average)

/-- The branch of a token: its fields 0, 1 and 5. -/
def branchOfToken (token : String) : Option Branch := do
  let src ← conversions.int (strip (← (splitAt '/' token)[0]?)) 16
  let dst ← conversions.int (strip (← (splitAt '/' token)[1]?)) 16
  let cycles ← conversions.int (strip (← (splitAt '/' token)[5]?)) 10
  return ⟨src, dst, cycles⟩

/-- The loop of `sub_process_lbr` -/
def subProcessLines
    (isScavProfile : Int) {symbolMap : SymbolMap} (dicts : SubDicts)
    (lastMatch : LastMatch symbolMap) : List String → Option SubDicts
  | [] => some dicts
  | line :: rest =>
      let tokens := splitSpace line
      if tokens.length < 2 then
        subProcessLines isScavProfile dicts lastMatch rest
      else
        match tokens.mapM (branchOfToken conversions) with
        | none => none
        | some branches =>
            match dicts.createControlFlowTuples lastMatch
                (branches.take lbrSubsampleSize) with
            | none => none
            | some (dicts, lastMatch) =>
                if isScavProfile = 1 then
                  let counted :=
                    dicts.createPredecessorProfile lastMatch
                      (branches.take lbrSubsampleSize)
                  subProcessLines isScavProfile counted.1 counted.2 rest
                else subProcessLines isScavProfile dicts lastMatch rest

/-- `sub_process_lbr`, in a process with the given `last_match` -/
def subProcessLbr
    (isScavProfile : Int) {symbolMap : SymbolMap}
    (lastMatch : LastMatch symbolMap) (lines : List String) :
    Option SubDicts :=
  subProcessLines conversions isScavProfile
    ⟨Dict.empty, Dict.empty, Dict.empty⟩ lastMatch lines

/-- `dict[key] += value`, or `dict[key] = value` for a new key, of each item -/
def addCounts {Key : Type} [DecidableEq Key] :
    Dict Key Nat → Dict Key Nat → Dict Key Nat :=
  Dict.merge (· + ·)

/-- `aggregate_sub_dicts` -/
def aggregateSubDicts
    (isScavProfile : Int) (subDicts : List SubDicts) :
    Option (Profile Average) :=
  let cf := (subDicts.map (·.cf)).foldl addCounts Dict.empty
  if isScavProfile = 0 then some ⟨cf, Dict.empty, Dict.empty⟩
  else
    let sums :=
      (subDicts.map (·.lat)).foldl
        (Dict.merge fun old value => (old.1 + value.1, old.2 + value.2))
        Dict.empty
    match sums.mapValues? fun value =>
        conversions.trueDiv value.1 value.2 with
    | none => none
    | some lat =>
        some
          ⟨cf, lat,
            (subDicts.map (·.pred)).foldl (Dict.merge addCounts)
              Dict.empty⟩

/--
`process_lbr` with `numCores` processes: the one that handles a slice finds in
`last_match` what earlier work has left there.
-/
def processLbr
    (isScavProfile : Int) {symbolMap : SymbolMap}
    (lastMatches : Nat → LastMatch symbolMap) (numCores : Nat)
    (lines : List String) : Option (Profile Average) :=
  match (List.range numCores).mapM fun core =>
      subProcessLbr conversions isScavProfile (lastMatches core)
        (stridedSlice lines core numCores) with
  | none => none
  | some results => aggregateSubDicts conversions isScavProfile results

end Process

end LoadProb

end Msh
