import Mathlib.Data.List.Lemmas

/-!
# A search that remembers its last hit

A list is searched for the first item that a query hits.  When the item that
was found last is tried before the list, it may be found although an earlier
item is hit too.
-/

namespace LastHit

variable {Item Query : Type} (Hits : Item → Query → Prop)
  [∀ item query, Decidable (Hits item query)]

/-- The first item that is hit -/
def search (items : List Item) (query : Query) : Option Item :=
  items.find? fun item => Hits item query

/-- The last hit when it is hit again, else the first item that is hit -/
def find (items : List Item) (last : Option Item) (query : Query) :
    Option Item :=
  (last.filter fun item => Hits item query).or (search Hits items query)

/-- What a sequence of queries finds -/
def finds (items : List Item) (last : Option Item) :
    List Query → List (Option Item)
  | [] => []
  | query :: queries =>
      find Hits items last query ::
        finds items ((find Hits items last query).or last) queries

/-- An item that is hit before all others by one query is hit before all
others by every query that hits it. -/
def FirstAlways (items : List Item) : Prop :=
  ∀ before item after, items = before ++ item :: after →
    (∃ query, Hits item query ∧ ∀ earlier ∈ before, ¬ Hits earlier query) →
    ∀ query, Hits item query → ∀ earlier ∈ before, ¬ Hits earlier query

variable {Hits} {items : List Item} {last : Option Item} {item : Item}
  {query : Query}

theorem search_eq_some_iff :
    search Hits items query = some item ↔
      Hits item query ∧ ∃ before after, items = before ++ item :: after ∧
        ∀ earlier ∈ before, ¬ Hits earlier query := by
  rw [search, List.find?_eq_some_iff_append]
  simp only [decide_eq_true_eq, Bool.not_eq_true', decide_eq_false_iff_not]

theorem mem_of_find (isLast : ∀ item ∈ last, item ∈ items)
    (isFound : find Hits items last query = some item) : item ∈ items := by
  rw [find, Option.or_eq_some_iff] at isFound
  rcases isFound with isAgain | ⟨_, isFirst⟩
  · exact isLast item (Option.filter_eq_some_iff.mp isAgain).1
  · exact List.mem_of_find?_eq_some isFirst

/-- The last hit has been found by a search. -/
def Searched (Hits : Item → Query → Prop)
    [∀ item query, Decidable (Hits item query)] (items : List Item)
    (last : Option Item) : Prop :=
  ∀ item ∈ last, ∃ query, search Hits items query = some item

/-- A last hit that is first for one query is what the search would find. -/
theorem FirstAlways.find_eq (always : FirstAlways Hits items)
    (searched : Searched Hits items last) (query : Query) :
    find Hits items last query = search Hits items query := by
  rw [find]
  cases isAgain : last.filter fun item => Hits item query with
  | none => exact Option.none_or
  | some item =>
      obtain ⟨isLast, isHit⟩ := Option.filter_eq_some_iff.mp isAgain
      rw [decide_eq_true_eq] at isHit
      obtain ⟨first, isFirst⟩ := searched item isLast
      obtain ⟨wasHit, before, after, isSplit, notEarlier⟩ :=
        search_eq_some_iff.mp isFirst
      rw [Option.some_or, eq_comm, search_eq_some_iff]
      exact ⟨isHit, before, after, isSplit,
        always before item after isSplit ⟨first, wasHit, notEarlier⟩ query
          isHit⟩

theorem FirstAlways.finds_eq (always : FirstAlways Hits items)
    (searched : Searched Hits items last) (queries : List Query) :
    finds Hits items last queries = queries.map (search Hits items) := by
  induction queries generalizing last with
  | nil => rfl
  | cons query queries inductionHypothesis =>
      rw [finds, List.map_cons, always.find_eq searched, inductionHypothesis]
      intro item isNext
      rcases Option.or_eq_some_iff.mp isNext with isFound | ⟨_, isLast⟩
      · exact ⟨query, isFound⟩
      · exact searched item isLast

/-- Remembering the last hit changes nothing, whatever the queries are, when
and only when no item is first for one query and later for another. -/
theorem finds_eq_search_iff (distinct : items.Nodup) :
    (∀ queries, finds Hits items none queries =
        queries.map (search Hits items)) ↔
      FirstAlways Hits items := by
  constructor
  · intro agree before item after isSplit isFirst query isHit earlier isEarlier
      earlierHit
    obtain ⟨first, wasHit, notEarlier⟩ := isFirst
    have isFound : search Hits items first = some item :=
      search_eq_some_iff.mpr ⟨wasHit, before, after, isSplit, notEarlier⟩
    have both := agree [first, query]
    simp only [finds, find, Option.filter_none, Option.none_or, isFound,
      Option.some_or, Option.filter_some, isHit, decide_true, if_true,
      List.map_cons, List.map_nil, List.cons.injEq, and_true, true_and] at both
    obtain ⟨_, before', after', isSplit', notEarlier'⟩ :=
      search_eq_some_iff.mp both.symm
    -- The item stands at one place only, behind the earlier one.
    rw [isSplit] at isSplit' distinct
    obtain ⟨_, isHead, isApart⟩ := List.nodup_append.mp distinct
    have notBefore : item ∉ before := fun isBefore =>
      isApart item isBefore item List.mem_cons_self rfl
    obtain ⟨rfl, _, _⟩ := (List.append_cons_inj_of_notMem notBefore
      (List.nodup_cons.mp isHead).1).mp isSplit'
    exact notEarlier' earlier isEarlier earlierHit
  · intro always queries
    exact always.finds_eq
      (fun item isLast => absurd isLast (Option.not_mem_none item)) queries

end LastHit
