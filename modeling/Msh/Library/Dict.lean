import Mathlib.Algebra.BigOperators.Group.List.Lemmas
import Mathlib.Algebra.Group.Pi.Basic
import Mathlib.Algebra.Group.WithOne.Defs
import Mathlib.Algebra.GroupWithZero.Nat
import Mathlib.Algebra.Ring.Int.Defs
import Mathlib.Data.List.Nodup

/-!
# Dictionaries and what they add up to

A dictionary keeps its items in the order in which the keys were first set,
each key once.  Where values are combined by an operation that some measure of
them turns into addition, a dictionary has a tally: a function from the keys
to a commutative monoid.  Adding a value to a dictionary and merging two
dictionaries add the tallies, so that a tally does not depend on the order in
which values came in, nor on how they were grouped.
-/

/-- Items in order of insertion, with distinct keys. -/
structure Dict (Key Value : Type) where
  items : List (Key × Value)
  nodup : (items.map Prod.fst).Nodup

namespace Dict

variable {Key Value : Type} [DecidableEq Key]

/-- The dictionary without items. -/
def empty : Dict Key Value := ⟨[], List.nodup_nil⟩

/-- The value of a key in a list of items. -/
def getItem? (key : Key) : List (Key × Value) → Option Value
  | [] => none
  | item :: rest =>
      if item.1 = key then some item.2 else getItem? key rest

/-- The value of a key. -/
def get? (dict : Dict Key Value) (key : Key) : Option Value :=
  getItem? key dict.items

/-- Set the value of a key in a list of items, in its place or at the end. -/
def setItem (key : Key) (value : Value) :
    List (Key × Value) → List (Key × Value)
  | [] => [(key, value)]
  | item :: rest =>
      if item.1 = key then (key, value) :: rest
      else item :: setItem key value rest

theorem mem_keys_setItem
    (key : Key) (value : Value) (items : List (Key × Value)) (query : Key) :
    query ∈ (setItem key value items).map Prod.fst ↔
      query = key ∨ query ∈ items.map Prod.fst := by
  induction items with
  | nil =>
      simp [setItem]
  | cons item rest inductionHypothesis =>
      unfold setItem
      split
      · next same =>
          simp [same]
      · simp only [List.map_cons, List.mem_cons, inductionHypothesis]
        exact or_left_comm

theorem nodup_setItem
    (key : Key) (value : Value) {items : List (Key × Value)}
    (nodup : (items.map Prod.fst).Nodup) :
    ((setItem key value items).map Prod.fst).Nodup := by
  induction items with
  | nil =>
      simp [setItem]
  | cons item rest inductionHypothesis =>
      rw [List.map_cons, List.nodup_cons] at nodup
      unfold setItem
      split
      · next same =>
          rw [List.map_cons, List.nodup_cons]
          exact ⟨same ▸ nodup.1, nodup.2⟩
      · next different =>
          rw [List.map_cons, List.nodup_cons, mem_keys_setItem]
          refine ⟨?_, inductionHypothesis nodup.2⟩
          rintro (same | inRest)
          · exact different same
          · exact nodup.1 inRest

/-- `dict[key] = value` -/
def set (dict : Dict Key Value) (key : Key) (value : Value) :
    Dict Key Value :=
  ⟨setItem key value dict.items, nodup_setItem key value dict.nodup⟩

/-- Set a key to a value, or to the old value combined with it. -/
def combineAt
    (combine : Value → Value → Value) (dict : Dict Key Value)
    (key : Key) (value : Value) : Dict Key Value :=
  match dict.get? key with
  | some old => dict.set key (combine old value)
  | none => dict.set key value

/-- Combine the items of another dictionary into this one. -/
def merge
    (combine : Value → Value → Value)
    (dict other : Dict Key Value) : Dict Key Value :=
  other.items.foldl
    (fun merged item => merged.combineAt combine item.1 item.2) dict

@[simp] theorem get?_empty (key : Key) :
    (empty : Dict Key Value).get? key = none :=
  rfl

theorem get?_set
    (dict : Dict Key Value) (key : Key) (value : Value) (query : Key) :
    (dict.set key value).get? query =
      if query = key then some value else dict.get? query := by
  have looked (items : List (Key × Value)) :
      getItem? query (setItem key value items) =
        if query = key then some value else getItem? query items := by
    induction items with
    | nil =>
        simp [setItem, getItem?, eq_comm]
    | cons item rest inductionHypothesis =>
        unfold setItem
        by_cases same : item.1 = key
        · simp only [same, ↓reduceIte, getItem?, eq_comm]
          split <;> rfl
        · simp only [same, ↓reduceIte, getItem?, inductionHypothesis]
          by_cases here : query = key
          · subst query
            simp [same]
          · simp [here]
  exact looked dict.items

/-- Setting keys that are not asked for -/
theorem get?_foldl_set_of_not_mem {Item : Type} {key : Item → Key}
    {value : Item → Value} {items : List Item} {query : Key}
    (notKey : query ∉ items.map key) (dict : Dict Key Value) :
    (items.foldl (fun dict item => dict.set (key item) (value item))
        dict).get? query =
      dict.get? query := by
  induction items generalizing dict with
  | nil =>
      rfl
  | cons item rest inductionHypothesis =>
      rw [List.map_cons, List.mem_cons, not_or] at notKey
      rw [List.foldl_cons, inductionHypothesis notKey.2, Dict.get?_set,
        if_neg notKey.1]

/-- Setting distinct keys -/
theorem get?_foldl_set {Item : Type} {key : Item → Key}
    {value : Item → Value} {items : List Item}
    (distinct : (items.map key).Nodup) {item : Item}
    (member : item ∈ items) (dict : Dict Key Value) :
    (items.foldl (fun dict item => dict.set (key item) (value item))
        dict).get? (key item) =
      some (value item) := by
  induction items generalizing dict with
  | nil =>
      cases member
  | cons first rest inductionHypothesis =>
      obtain ⟨notInRest, restDistinct⟩ := List.nodup_cons.mp distinct
      rcases List.mem_cons.mp member with rfl | inRest
      · rw [List.foldl_cons, get?_foldl_set_of_not_mem notInRest,
          Dict.get?_set, if_pos rfl]
      · exact inductionHypothesis restDistinct inRest _

/-- Items collected by their keys, in order -/
theorem get?_foldl_append {Item : Type} {key : Item → Key}
    (items : List Item) (dict : Dict Key (List Item)) (query : Key) :
    ((items.foldl
        (fun dict item =>
          dict.set (key item) ((dict.get? (key item)).getD [] ++ [item]))
        dict).get? query).getD [] =
      (dict.get? query).getD [] ++ items.filter (key · = query) := by
  induction items generalizing dict with
  | nil =>
      simp
  | cons item rest inductionHypothesis =>
      rw [List.foldl_cons, inductionHypothesis, get?_set, List.filter_cons]
      by_cases same : query = key item
      · subst same
        simp
      · simp [same, Ne.symm same]

theorem get?_combineAt
    (combine : Value → Value → Value) (dict : Dict Key Value)
    (key : Key) (value : Value) (query : Key) :
    (dict.combineAt combine key value).get? query =
      if query = key then
        some (((dict.get? key).map (combine · value)).getD value)
      else dict.get? query := by
  unfold combineAt
  split
  · next old isOld =>
      simp [get?_set, isOld]
  · next absent =>
      simp [get?_set, absent]

/-- A key that is not among those zipped with their values. -/
theorem getItem?_zip_eq_none
    {keys : List Key} {values : List Value} {key : Key}
    (notKey : key ∉ keys) :
    getItem? key (keys.zip values) = none := by
  induction keys generalizing values with
  | nil =>
      rfl
  | cons first rest inductionHypothesis =>
      obtain ⟨notFirst, notInRest⟩ := List.ne_and_not_mem_of_not_mem_cons notKey
      cases values with
      | nil =>
          rfl
      | cons value others =>
          rw [List.zip_cons_cons, getItem?, if_neg notFirst.symm]
          exact inductionHypothesis notInRest

/-- Distinct keys zipped with their values are looked up in order. -/
theorem map_getItem?_zip
    {keys : List Key} {values : List Value} (distinct : keys.Nodup)
    (sameLength : keys.length = values.length) (default : Key → Value) :
    keys.map
        (fun key =>
          (getItem? key (keys.zip values)).getD (default key)) =
      values := by
  induction keys generalizing values with
  | nil =>
      rw [List.length_eq_zero_iff.mp sameLength.symm]
      rfl
  | cons first rest inductionHypothesis =>
      obtain ⟨notLater, restDistinct⟩ := List.nodup_cons.mp distinct
      cases values with
      | nil =>
          cases sameLength
      | cons value others =>
          have later :=
            inductionHypothesis restDistinct (Nat.succ.inj sameLength)
          rw [List.zip_cons_cons, List.map_cons]
          congr 1
          · rw [getItem?, if_pos rfl]
            rfl
          · rw [← later]
            refine List.map_congr_left fun key inRest => ?_
            rw [getItem?, if_neg, later]
            rintro rfl
            exact notLater inRest

theorem getItem?_eq_some_iff
    {items : List (Key × Value)} (nodup : (items.map Prod.fst).Nodup)
    {key : Key} {value : Value} :
    getItem? key items = some value ↔ (key, value) ∈ items := by
  induction items with
  | nil =>
      simp [getItem?]
  | cons item rest inductionHypothesis =>
      rw [List.map_cons, List.nodup_cons] at nodup
      have ofRest := inductionHypothesis nodup.2
      unfold getItem?
      by_cases same : item.1 = key
      · subst key
        have notInRest : (item.1, value) ∉ rest := by
          intro member
          exact nodup.1 (List.mem_map.mpr ⟨_, member, rfl⟩)
        simp [notInRest, Prod.ext_iff, eq_comm]
      · simp [same, ofRest, Prod.ext_iff, Ne.symm same]

/-- A dictionary has a value exactly when it has the item. -/
theorem get?_eq_some_iff
    {dict : Dict Key Value} {key : Key} {value : Value} :
    dict.get? key = some value ↔ (key, value) ∈ dict.items :=
  getItem?_eq_some_iff dict.nodup

section MapValues

variable {Image : Type} (image? : Value → Option Image)

omit [DecidableEq Key] in
/-- Dropping items keeps the keys apart. -/
theorem keys_filterMap_sublist (items : List (Key × Value)) :
    ((items.filterMap fun item =>
      (image? item.2).map (item.1, ·)).map Prod.fst).Sublist
      (items.map Prod.fst) := by
  induction items with
  | nil =>
      exact .slnil
  | cons item rest inductionHypothesis =>
      cases isImage : image? item.2 with
      | none =>
          rw [List.filterMap_cons_none (by rw [isImage]; rfl)]
          exact inductionHypothesis.cons _
      | some image =>
          rw [List.filterMap_cons_some (by rw [isImage]; rfl)]
          exact inductionHypothesis.cons_cons _

/-- Map the values, dropping the items whose value has no image. -/
def filterMapValues (dict : Dict Key Value) : Dict Key Image where
  items :=
    dict.items.filterMap fun item => (image? item.2).map (item.1, ·)
  nodup := dict.nodup.sublist (keys_filterMap_sublist image? dict.items)

/-- Map the values, if all of them have an image. -/
def mapValues? (dict : Dict Key Value) : Option (Dict Key Image) :=
  if ∀ item ∈ dict.items, (image? item.2).isSome then
    some (dict.filterMapValues image?)
  else none

theorem get?_filterMapValues (dict : Dict Key Value) (key : Key) :
    (dict.filterMapValues image?).get? key =
      (dict.get? key).bind image? := by
  refine Option.ext fun image => ?_
  rw [get?_eq_some_iff, filterMapValues, List.mem_filterMap,
    Option.bind_eq_some_iff]
  constructor
  · rintro ⟨item, member, isImage⟩
    rw [Option.map_eq_some_iff] at isImage
    obtain ⟨found, isImage, same⟩ := isImage
    cases same
    exact ⟨item.2, get?_eq_some_iff.mpr member, isImage⟩
  · rintro ⟨value, isValue, isImage⟩
    refine ⟨(key, value), get?_eq_some_iff.mp isValue, ?_⟩
    simp [isImage]

/-- Mapping succeeds when every value of a key has an image. -/
theorem mapValues?_eq_some_iff
    {dict : Dict Key Value} {mapped : Dict Key Image} :
    dict.mapValues? image? = some mapped ↔
      mapped = dict.filterMapValues image? ∧
        ∀ key value, dict.get? key = some value →
          (image? value).isSome := by
  have allItems :
      (∀ item ∈ dict.items, (image? item.2).isSome) ↔
        ∀ key value, dict.get? key = some value →
          (image? value).isSome := by
    constructor
    · intro all key value isValue
      exact all (key, value) (get?_eq_some_iff.mp isValue)
    · intro all item member
      exact all item.1 item.2 (get?_eq_some_iff.mpr member)
  unfold mapValues?
  by_cases all : ∀ item ∈ dict.items, (image? item.2).isSome
  · rw [if_pos all, Option.some_inj]
    exact ⟨fun same => ⟨same.symm, allItems.mp all⟩,
      fun both => both.1.symm⟩
  · rw [if_neg all]
    exact ⟨nofun, fun both => absurd (allItems.mpr both.2) all⟩

/-- Dictionaries that are equal as maps are mapped to such ones. -/
theorem mapValues?_rel
    {first second : Dict Key Value}
    (same : ∀ key, first.get? key = second.get? key) :
    Option.Rel
      (fun mapped other : Dict Key Image =>
        ∀ key, mapped.get? key = other.get? key)
      (first.mapValues? image?) (second.mapValues? image?) := by
  have sameImages (key : Key) :
      (first.filterMapValues image?).get? key =
        (second.filterMapValues image?).get? key := by
    rw [get?_filterMapValues, get?_filterMapValues, same]
  by_cases all :
      ∀ key value, first.get? key = some value → (image? value).isSome
  · have ofFirst :=
      (mapValues?_eq_some_iff image?).mpr ⟨rfl, all⟩
    simp only [same] at all
    have ofSecond :=
      (mapValues?_eq_some_iff image?).mpr ⟨rfl, all⟩
    rw [ofFirst, ofSecond]
    exact .some sameImages
  · have ofFirst : first.mapValues? image? = none := by
      rw [Option.eq_none_iff_forall_ne_some]
      intro mapped isMapped
      exact all ((mapValues?_eq_some_iff image?).mp isMapped).2
    have ofSecond : second.mapValues? image? = none := by
      rw [Option.eq_none_iff_forall_ne_some]
      intro mapped isMapped
      simp only [same] at all
      exact all ((mapValues?_eq_some_iff image?).mp isMapped).2
    rw [ofFirst, ofSecond]
    exact .none

end MapValues

/-! ## Tallies -/

section Tally

variable {Total : Type} (measure : Value → Total)

/-- What the values of each key measure; zero for a key without a value. -/
def tally (dict : Dict Key Value) (key : Key) : WithZero Total :=
  match dict.get? key with
  | some value => (measure value : Total)
  | none => 0

/-- The tally of one value. -/
def single (key : Key) (value : Value) : Key → WithZero Total :=
  fun query => if query = key then (measure value : Total) else 0

@[simp] theorem tally_empty :
    (empty : Dict Key Value).tally measure = 0 :=
  rfl

variable {measure}

/-- Two dictionaries with one tally have the same measured values. -/
theorem tally_eq_iff {first second : Dict Key Value} :
    first.tally measure = second.tally measure ↔
      ∀ key,
        (first.get? key).map measure = (second.get? key).map measure := by
  rw [funext_iff]
  refine forall_congr' fun key => ?_
  unfold tally
  cases first.get? key with
  | none =>
      cases second.get? key with
      | none => simp
      | some value => simp
  | some value =>
      cases second.get? key with
      | none => simp
      | some other => simp

variable
  [AddCommSemigroup Total]
  {combine : Value → Value → Value}
  (adds : ∀ old value,
    measure (combine old value) = measure old + measure value)

include adds

/-- A value that is combined into a dictionary is added to its tally. -/
theorem tally_combineAt
    (dict : Dict Key Value) (key : Key) (value : Value) :
    (dict.combineAt combine key value).tally measure =
      dict.tally measure + single measure key value := by
  funext query
  simp only [tally, single, get?_combineAt, Pi.add_apply]
  by_cases here : query = key
  · subst query
    cases dict.get? key with
    | none => simp
    | some old => simp [adds]
  · simp [here]

/-- Values combined in one after the other are all added to the tally. -/
theorem tally_foldl
    (values : List (Key × Value)) (dict : Dict Key Value) :
    (values.foldl
        (fun done item => done.combineAt combine item.1 item.2)
        dict).tally measure =
      dict.tally measure +
        (values.map fun item => single measure item.1 item.2).sum := by
  induction values generalizing dict with
  | nil =>
      simp
  | cons item rest inductionHypothesis =>
      rw [List.foldl_cons, inductionHypothesis,
        tally_combineAt adds, List.map_cons, List.sum_cons, add_assoc]

omit adds in
/-- The tally of a dictionary is that of its items. -/
theorem tally_eq_sum (dict : Dict Key Value) :
    dict.tally measure =
      (dict.items.map fun item => single measure item.1 item.2).sum := by
  obtain ⟨items, nodup⟩ := dict
  induction items with
  | nil =>
      rfl
  | cons item rest inductionHypothesis =>
      have nodupRest := nodup
      rw [List.map_cons, List.nodup_cons] at nodupRest
      rw [List.map_cons, List.sum_cons, ← inductionHypothesis nodupRest.2]
      have absent : getItem? item.1 rest = none := by
        rw [Option.eq_none_iff_forall_ne_some]
        intro value isValue
        rw [getItem?_eq_some_iff nodupRest.2] at isValue
        exact nodupRest.1 (List.mem_map.mpr ⟨_, isValue, rfl⟩)
      funext query
      simp only [tally, get?, getItem?, single, Pi.add_apply]
      by_cases here : query = item.1
      · simp [here, absent]
      · simp [here, Ne.symm here]

/-- Merging dictionaries adds their tallies. -/
theorem tally_merge (dict other : Dict Key Value) :
    (dict.merge combine other).tally measure =
      dict.tally measure + other.tally measure := by
  rw [merge, tally_foldl adds, ← tally_eq_sum]

/-- So does merging one dictionary after the other. -/
theorem tally_foldl_merge
    (others : List (Dict Key Value)) (dict : Dict Key Value) :
    (others.foldl (merge combine) dict).tally measure =
      dict.tally measure + (others.map (tally measure)).sum := by
  induction others generalizing dict with
  | nil =>
      simp
  | cons other rest inductionHypothesis =>
      rw [List.foldl_cons, inductionHypothesis, tally_merge adds,
        List.map_cons, List.sum_cons, add_assoc]

omit adds in
/-- Tallies of lists of values come from those of their elements. -/
theorem sum_single_flatMap
    {Item : Type} (items : List Item)
    (values : Item → List (Key × Value)) :
    ((items.flatMap values).map fun item =>
        single measure item.1 item.2).sum =
      (items.map fun item =>
        ((values item).map fun item =>
          single measure item.1 item.2).sum).sum := by
  induction items with
  | nil =>
      rfl
  | cons item rest inductionHypothesis =>
      rw [List.flatMap_cons, List.map_append, List.sum_append,
        inductionHypothesis, List.map_cons, List.sum_cons]

end Tally

section Total

variable {Total : Type} [AddCommMonoid Total] {measure : Value → Total}

/-- What a list of values measures at a key. -/
theorem sum_single_apply (values : List (Key × Value)) (key : Key) :
    (values.map fun item => single measure item.1 item.2).sum key =
      if values.filter (·.1 = key) = [] then (0 : WithZero Total)
      else
        WithZero.coe
          ((values.filter (·.1 = key)).map
            fun item => measure item.2).sum := by
  induction values with
  | nil =>
      rfl
  | cons item rest inductionHypothesis =>
      rw [List.map_cons, List.sum_cons, Pi.add_apply, inductionHypothesis]
      by_cases here : item.1 = key
      · rw [List.filter_cons_of_pos (by simp [here])]
        by_cases last : rest.filter (·.1 = key) = []
        · simp [single, here, last]
        · simp [single, here, last]
      · rw [List.filter_cons_of_neg (by simp [here])]
        simp only [single, Ne.symm here, ↓reduceIte, zero_add]

/-- A dictionary whose tally is that of a list has what the list measures. -/
theorem get?_of_tally
    {dict : Dict Key Value} {values : List (Key × Value)}
    (isTally :
      dict.tally measure =
        (values.map fun item => single measure item.1 item.2).sum)
    (key : Key) :
    (dict.get? key).map measure =
      if values.filter (·.1 = key) = [] then none
      else
        some ((values.filter (·.1 = key)).map
          fun item => measure item.2).sum := by
  have atKey := congrFun isTally key
  rw [sum_single_apply] at atKey
  unfold tally at atKey
  by_cases noValues : values.filter (·.1 = key) = []
  · rw [if_pos noValues] at atKey ⊢
    cases isValue : dict.get? key with
    | none => rfl
    | some value => simp [isValue] at atKey
  · rw [if_neg noValues] at atKey ⊢
    cases isValue : dict.get? key with
    | none => simp [isValue] at atKey
    | some value =>
        rw [isValue] at atKey
        exact congrArg some (WithZero.coe_inj.mp atKey)

/-- What is missing from a list of counts has the count zero. -/
theorem getD_of_tally
    {dict : Dict Key Nat} {values : List (Key × Nat)}
    (isTally :
      dict.tally id =
        (values.map fun item => single id item.1 item.2).sum)
    (key : Key) :
    (dict.get? key).getD 0 =
      ((values.filter (·.1 = key)).map (·.2)).sum := by
  have values_eq := get?_of_tally isTally key
  rw [Option.map_id] at values_eq
  rw [id_eq] at values_eq
  rw [values_eq]
  split
  · next noValues =>
      rw [noValues]
      rfl
  · rfl

end Total

section Counting

/-- A dictionary that counts the keys of a list -/
def Counts (dict : Dict Key Nat) (keys : List Key) : Prop :=
  ∀ key,
    dict.get? key =
      if key ∈ keys then some (keys.countP fun other => other = key)
      else none

/-- The counts of some of the keys add up to how often these occur. -/
theorem Counts.sum_filter
    {dict : Dict Key Nat} {keys : List Key} (counts : dict.Counts keys)
    (test : Key → Bool) :
    ((dict.items.filter (test ·.1)).map (·.2)).sum = keys.countP test := by
  have value : ∀ item ∈ dict.items,
      item.1 ∈ keys ∧ item.2 = keys.count item.1 := by
    intro item member
    have found := counts item.1
    rw [get?_eq_some_iff.mpr member] at found
    split at found
    · next isKey =>
        rw [Option.some.inj found, List.count_eq_countP]
        exact ⟨isKey, List.countP_congr fun other _ => by simp⟩
    · cases found
  have sameKeys : (dict.items.map Prod.fst).Perm keys.dedup := by
    refine (List.perm_ext_iff_of_nodup dict.nodup keys.nodup_dedup).mpr ?_
    intro key
    rw [List.mem_dedup, List.mem_map]
    constructor
    · rintro ⟨item, member, rfl⟩
      exact (value item member).1
    · intro isKey
      have found := counts key
      rw [if_pos isKey, get?_eq_some_iff] at found
      exact ⟨_, found, rfl⟩
  calc ((dict.items.filter (test ·.1)).map (·.2)).sum
      = ((dict.items.filter (test ·.1)).map (keys.count ·.1)).sum := by
        refine congrArg List.sum (List.map_congr_left fun item member => ?_)
        exact (value item (List.mem_of_mem_filter member)).2
    _ = (((dict.items.map Prod.fst).filter test).map
          (keys.count ·)).sum := by
        rw [List.filter_map, List.map_map]
        rfl
    _ = ((keys.dedup.filter test).map (keys.count ·)).sum :=
        ((sameKeys.filter test).map _).sum_eq
    _ = keys.countP test := List.sum_map_count_dedup_filter_eq_countP test keys

end Counting

end Dict
