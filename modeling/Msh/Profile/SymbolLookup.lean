import Msh.Library.LastHit
import Msh.Profile.SplitTrace

namespace Msh

namespace LoadProb

/-!
# What `last_match` does to lookups

A symbol's range includes its end address, which is the start address of the
next symbol where mappings adjoin.  A plain search gives a shared address to
the symbol that stands first in the map; a lookup gives it to the symbol of
the lookup before, when that contains it.
-/

section Build

variable {Average : Type} (conversions : Conversions Average)

/-- The loop of `build_symbol_map` -/
def buildSymbolMap (symbolMap : SymbolMap) : List String → Option SymbolMap
  | [] => some symbolMap
  | line :: rest =>
      match splitSpace line with
      | name :: startAddress :: length :: offset :: _ => do
          let startAddress ← conversions.int startAddress 16
          let length ← conversions.int length 16
          let offset ← conversions.int offset 16
          buildSymbolMap
            (symbolMap.set name
              ⟨startAddress - offset, startAddress, startAddress + length⟩)
            rest
      | _ => buildSymbolMap symbolMap rest

end Build

/-- The results of one lookup after the other -/
def symbolMapLookups {symbolMap : SymbolMap}
    (lastMatch : LastMatch symbolMap) : List Int → List (Option String × Int)
  | [] => []
  | addr :: addrs =>
      let found := symbolMapLookup lastMatch addr
      found.1 :: symbolMapLookups found.2 addrs

/-- An item contains an address. -/
abbrev ItemContains (item : String × SymbolRange) (addr : Int) : Prop :=
  item.2.Contains addr

/-- What a lookup returns for the item it has found -/
def lookupResult (addr : Int) :
    Option (String × SymbolRange) → Option String × Int
  | some item => (some item.1, addr - item.2.objectStart)
  | none => (none, 0)

/-- The linear search over `symbol_map` with no cache -/
def linearLookup (symbolMap : SymbolMap) (addr : Int) : Option String × Int :=
  lookupResult addr
    (symbolMap.items.find? fun item => item.2.Contains addr)

/--
Every symbol that is found by a search for some address shares no address with
the symbols that stand before it.
-/
def SymbolMap.FirstAlways (symbolMap : SymbolMap) : Prop :=
  ∀ before item after, symbolMap.items = before ++ item :: after →
    (∃ addr, item.2.Contains addr ∧
      ∀ earlier ∈ before, ¬ earlier.2.Contains addr) →
    ∀ addr, item.2.Contains addr →
      ∀ earlier ∈ before, ¬ earlier.2.Contains addr

variable {symbolMap : SymbolMap}

/-- The item in `last_match` -/
def lastItem (lastMatch : LastMatch symbolMap) :
    Option (String × SymbolRange) :=
  lastMatch.map Subtype.val

theorem find?_attach (addr : Int) :
    (symbolMap.items.attach.find? fun item =>
        item.1.2.Contains addr).map Subtype.val =
      LastHit.search ItemContains symbolMap.items addr := by
  rw [LastHit.search, ← List.attach_map_subtype_val symbolMap.items,
    List.find?_map, List.attach_map_subtype_val]
  rfl

/-- A lookup is a search that remembers its last hit. -/
theorem symbolMapLookup_eq (lastMatch : LastMatch symbolMap) (addr : Int) :
    (symbolMapLookup lastMatch addr).1 =
        lookupResult addr (LastHit.find ItemContains symbolMap.items
          (lastItem lastMatch) addr) ∧
      lastItem (symbolMapLookup lastMatch addr).2 =
        (LastHit.find ItemContains symbolMap.items (lastItem lastMatch)
          addr).or (lastItem lastMatch) := by
  have notContains : ∀ last : { item // item ∈ symbolMap.items },
      (lastItem (some last)).filter (fun item => ItemContains item addr) =
        none →
      ¬ last.1.2.Contains addr := by
    intro last notAgain
    simpa [lastItem] using notAgain
  have missed :
      (lastItem lastMatch).filter (fun item => ItemContains item addr) =
        none →
      (symbolMap.items.attach.find? fun item =>
        item.1.2.Contains addr) = none →
      symbolMapLookup lastMatch addr = ((none, 0), lastMatch) := by
    intro notAgain notFound
    cases lastMatch with
    | none => simp only [symbolMapLookup, notFound]
    | some last =>
        simp only [symbolMapLookup, notFound, notContains last notAgain,
          if_false]
  have searched : ∀ item : { item // item ∈ symbolMap.items },
      (lastItem lastMatch).filter (fun item => ItemContains item addr) =
        none →
      (symbolMap.items.attach.find? fun item =>
        item.1.2.Contains addr) = some item →
      symbolMapLookup lastMatch addr =
        ((some item.1.1, addr - item.1.2.objectStart), some item) := by
    intro item notAgain found
    cases lastMatch with
    | none => simp only [symbolMapLookup, found]
    | some last =>
        simp only [symbolMapLookup, found, notContains last notAgain,
          if_false]
  rw [LastHit.find]
  cases isAgain :
      (lastItem lastMatch).filter fun item => ItemContains item addr with
  | none =>
      rw [Option.none_or, ← find?_attach]
      cases isFound : symbolMap.items.attach.find? fun item =>
          item.1.2.Contains addr with
      | none =>
          rw [missed isAgain isFound]
          exact ⟨rfl, (Option.none_or).symm⟩
      | some item =>
          rw [searched item isAgain isFound]
          exact ⟨rfl, rfl⟩
  | some item =>
      obtain ⟨isLast, isHit⟩ := Option.filter_eq_some_iff.mp isAgain
      rw [decide_eq_true_eq] at isHit
      obtain ⟨last, rfl, rfl⟩ := Option.map_eq_some_iff.mp isLast
      have isLookup : symbolMapLookup (some last) addr =
          ((some last.1.1, addr - last.1.2.objectStart), some last) := by
        rw [symbolMapLookup]
        exact if_pos isHit
      rw [isLookup]
      exact ⟨rfl, rfl⟩

/-- The lookups return what the searches that remember their hit find. -/
theorem symbolMapLookups_eq (lastMatch : LastMatch symbolMap)
    (addrs : List Int) :
    symbolMapLookups lastMatch addrs =
      addrs.zipWith lookupResult
        (LastHit.finds ItemContains symbolMap.items (lastItem lastMatch)
          addrs) := by
  induction addrs generalizing lastMatch with
  | nil => rfl
  | cons addr addrs inductionHypothesis =>
      obtain ⟨isResult, isNext⟩ := symbolMapLookup_eq lastMatch addr
      rw [symbolMapLookups, LastHit.finds, List.zipWith_cons_cons,
        inductionHypothesis, isNext, isResult]

/-- Different items give different results. -/
theorem lookupResult_inj {addr : Int}
    {first second : Option (String × SymbolRange)}
    (ofFirst : ∀ item ∈ first, item ∈ symbolMap.items)
    (ofSecond : ∀ item ∈ second, item ∈ symbolMap.items)
    (isSame : lookupResult addr first = lookupResult addr second) :
    first = second := by
  cases first with
  | none =>
      cases second with
      | none => rfl
      | some second => cases congrArg Prod.fst isSame
  | some first =>
      cases second with
      | none => cases congrArg Prod.fst isSame
      | some second =>
          have sameName : first.1 = second.1 :=
            Option.some.inj (congrArg Prod.fst isSame)
          rw [List.inj_on_of_nodup_map symbolMap.nodup (ofFirst first rfl)
            (ofSecond second rfl) sameName]

theorem finds_eq_of_results {last : Option (String × SymbolRange)}
    (isLast : ∀ item ∈ last, item ∈ symbolMap.items) {addrs : List Int}
    (agree :
      addrs.zipWith lookupResult
          (LastHit.finds ItemContains symbolMap.items last addrs) =
        addrs.map (linearLookup symbolMap)) :
    LastHit.finds ItemContains symbolMap.items last addrs =
      addrs.map (LastHit.search ItemContains symbolMap.items) := by
  induction addrs generalizing last with
  | nil => rfl
  | cons addr addrs inductionHypothesis =>
      rw [LastHit.finds, List.zipWith_cons_cons, List.map_cons,
        List.cons.injEq] at agree
      have isMem (item : String × SymbolRange)
          (isFound : LastHit.find ItemContains symbolMap.items last addr =
            some item) : item ∈ symbolMap.items :=
        LastHit.mem_of_find isLast isFound
      have isSame := lookupResult_inj isMem
        (fun _ isFirst => List.mem_of_find?_eq_some isFirst) agree.1
      rw [LastHit.finds, List.map_cons]
      refine congrArg₂ _ isSame (inductionHypothesis ?_ agree.2)
      intro item isNext
      rcases Option.or_eq_some_iff.mp isNext with isFound | ⟨_, wasLast⟩
      · exact isMem item isFound
      · exact isLast item wasLast

/--
The lookups agree with the linear search, for every sequence of addresses,
when and only when a symbol that the search ever finds shares no address with
the symbols before it.
-/
theorem symbolMapLookups_linear_iff (symbolMap : SymbolMap) :
    (∀ addrs, symbolMapLookups (none : LastMatch symbolMap) addrs =
        addrs.map (linearLookup symbolMap)) ↔
      symbolMap.FirstAlways := by
  have distinct : symbolMap.items.Nodup := symbolMap.nodup.of_map _
  rw [show symbolMap.FirstAlways ↔
      LastHit.FirstAlways ItemContains symbolMap.items from Iff.rfl,
    ← LastHit.finds_eq_search_iff distinct]
  refine forall_congr' fun addrs => ?_
  rw [symbolMapLookups_eq]
  constructor
  · exact finds_eq_of_results
      (fun item isLast => absurd isLast (Option.not_mem_none item))
  · intro agree
    rw [show lastItem (none : LastMatch symbolMap) = none from rfl, agree,
      List.zipWith_map_right, List.zipWith_self]
    rfl

/-- Two mappings of which one ends where the other begins -/
def adjoiningLines : List String :=
  ["app 400000 1000 0", "lib 401000 1000 0"]

/-- The symbol map of the two mappings -/
def adjoiningSymbols : SymbolMap where
  items :=
    [("app", ⟨0x400000, 0x400000, 0x401000⟩),
      ("lib", ⟨0x401000, 0x401000, 0x402000⟩)]
  nodup := by decide

/-- The shared address belongs to the first mapping, unless an address of the
second has been looked up before. -/
theorem adjoiningSymbols_not_linear :
    (buildSymbolMap plainConversions Dict.empty adjoiningLines).map
        (·.items) = some adjoiningSymbols.items ∧
      symbolMapLookups (none : LastMatch adjoiningSymbols)
          [0x401000, 0x401800, 0x401000] =
        [(some "app", 0x1000), (some "lib", 0x800), (some "lib", 0)] ∧
      ¬∀ addrs,
        symbolMapLookups (none : LastMatch adjoiningSymbols) addrs =
          addrs.map (linearLookup adjoiningSymbols) := by
  refine ⟨by decide +kernel, by decide +kernel, ?_⟩
  intro agree
  exact absurd (agree [0x401800, 0x401000]) (by decide +kernel)

end LoadProb

end Msh
