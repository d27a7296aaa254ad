import Inworkspace.RegistryStore.Query

/-!
# What the filters of a query find

The ids that satisfy a filter (`RegistryFilter.satisfiedBy`), on one side, and how often its
iteration finds an id (`RegistryFilter.timesFound`), on the other. If all ids are collected
before a page is taken, a query has an id as often as the filter that finds it least often
(`collected_applyFilters`), and a text finds the ids that have all its words from the
first one on that is in the index at all (`collected_matchWords`). A filter finds what satisfies it
if the index has what it needs (`RegistryFilter.complete`).
-/

namespace Inworkspace.RegistryStore

open RegistryQueryResults LawfulQueryResults RegistryFilter ResultsPagination List

/-! ## What a filter asks for -/

namespace RegistryFilter

variable [CharClasses] (registry : RegistryContents) (filter : RegistryFilter)

/-- A text is asked for by a text. -/
def WellTyped : Prop := filter.op = .textMatch → ∃ text, filter.value = .string text

/-- The words of the text a filter asks for. -/
def words : List (List UInt8) :=
  match filter.value with
  | .string text => RegistryStore.words text
  | _ => []

/-- The keys a filter compares, with their ids. -/
def keys : List (List UInt8 × ℕ) :=
  if filter.isPk then (registry.primaryKeys filter.property).entries
  else (registry.index filter.property).entries

/-- An object has all words of the text, or a value that compares as it should. -/
def satisfiedBy (id : ℕ) : Bool :=
  if filter.op = .textMatch then
    (filter.words).all fun word => (word, id) ∈ (registry.index filter.property).entries
  else (filter.keys registry).any fun e => e.2 = id && compares filter.op e.1 filter.value.asBytes

/-- The ids the iteration of a comparison finds, in the order it finds them. -/
def found : List ℕ :=
  if filter.isPk then
    (registry.primaryKeys filter.property).found filter.op filter.value.asBytes
  else (registry.index filter.property).found filter.op filter.value.asBytes

/-- Some object has the word. -/
def isIndexed (word : List UInt8) : Bool :=
  (registry.index filter.property).entries.any fun e => e.1 = word

/-- The words of the text from the first one on that is in the index. -/
def lookedUp : List (List UInt8) :=
  (filter.words).dropWhile fun word => !filter.isIndexed registry word

/-- How often the iterations of a filter find an id. -/
def timesFound (id : ℕ) : ℕ :=
  if filter.op = .textMatch then
    if filter.lookedUp registry ≠ [] ∧ ∀ word ∈ filter.lookedUp registry,
      (word, id) ∈ (registry.index filter.property).entries then 1 else 0
  else (filter.found registry).count id

/-- The keys whose values a comparison asks for, in their order. -/
def matching : List (List UInt8 × ℕ) :=
  (filter.keys registry).filter fun e => compares filter.op e.1 filter.value.asBytes

/-- The key is in the range that is iterated. -/
def inRange (e : List UInt8 × ℕ) : Bool :=
  if filter.isPk then pkInRange filter.op filter.value.asBytes (numbers e.1)
  else indexInRange filter.op filter.value.asBytes (indexKey e.1 e.2)

/-- The index has what the filter needs: no key that a comparison asks for is out of its range; a
    text has words, and the first one is in the index if another one is. -/
def complete : Bool :=
  if filter.op = .textMatch then
    match filter.words with
    | [] => false
    | first :: rest => filter.isIndexed registry first || rest.all (!filter.isIndexed registry ·)
  else (filter.matching registry).all filter.inRange

end RegistryFilter

/-- The ids of the objects that satisfy all filters, in ascending order. -/
def answer [CharClasses] (registry : RegistryContents) (filters : List RegistryFilter) : List ℕ :=
  registry.ids.filter fun id => filters.all fun filter => filter.satisfiedBy registry id

variable {id : ℕ} {filters : List RegistryFilter}

theorem mem_answer [CharClasses] {registry : RegistryContents} :
    id ∈ answer registry filters ↔
      id ∈ registry.ids ∧ ∀ filter ∈ filters, filter.satisfiedBy registry id := by
  rw [answer, mem_filter, all_eq_true]

theorem pairwise_answer [CharClasses] (registry : RegistryContents)
    (filters : List RegistryFilter) : (answer registry filters).Pairwise (· < ·) :=
  registry.sorted.sublist filter_sublist

/-! ## What an iteration finds -/

variable (registry : RegistryContents) (property : Property) (word : List UInt8)
  {filter : RegistryFilter}

theorem mem_ids_of_mem_found {property : Property} {op : RegistryFilterOp} {value : List UInt8}
    (hmem : id ∈ (registry.index property).found op value) : id ∈ registry.ids := by
  obtain ⟨e, he, rfl⟩ := mem_map.mp hmem
  exact registry.indexed property e (mem_of_mem_filter he)

theorem RegistryFilter.mem_ids_of_mem_found (hmem : id ∈ filter.found registry) :
    id ∈ registry.ids := by
  unfold found at hmem
  split at hmem
  · obtain ⟨e, he, rfl⟩ := mem_map.mp hmem
    exact registry.keyed filter.property e (mem_of_mem_filter he)
  · exact RegistryStore.mem_ids_of_mem_found registry hmem

/-- The keys of a word are those an iteration for it finds. -/
theorem filter_equal :
    (registry.index property).entries.filter (fun e =>
      indexInRange .equal word (indexKey e.1 e.2) && compares .equal e.1 word) =
      (registry.index property).entries.filter fun e => e.1 = word := by
  refine filter_congr fun e he => ?_
  have hlt := registry.lt e.2 (registry.indexed property e he)
  by_cases heq : e.1 = word
  · simp [compares, heq, indexInRange_equal word hlt]
  · simp [compares, heq]

/-- The ids of a word are found in ascending order. -/
theorem pairwise_found_equal : ((registry.index property).found .equal word).Pairwise (· < ·) := by
  rw [SearchIndex.found, filter_equal, pairwise_map]
  refine ((registry.index property).sorted.filter _).imp_of_mem fun {e e'} he he' hlt => ?_
  obtain ⟨hmem, heq⟩ := mem_filter.mp he
  obtain ⟨hmem', heq'⟩ := mem_filter.mp he'
  rw [of_decide_eq_true heq, of_decide_eq_true heq'] at hlt
  exact (indexKey_lt_indexKey word (registry.lt _ (registry.indexed property e hmem))
    (registry.lt _ (registry.indexed property e' hmem'))).mp hlt

theorem mem_found_equal {property : Property} {word : List UInt8} :
    id ∈ (registry.index property).found .equal word ↔
      (word, id) ∈ (registry.index property).entries := by
  rw [SearchIndex.found, filter_equal, mem_map]
  constructor
  · rintro ⟨e, he, rfl⟩
    obtain ⟨hmem, heq⟩ := mem_filter.mp he
    rwa [← of_decide_eq_true heq]
  · exact fun hmem => ⟨(word, id), mem_filter.mpr ⟨hmem, decide_eq_true rfl⟩, rfl⟩

/-- A word is found once for each object that has it. -/
theorem count_found_equal (id : ℕ) :
    ((registry.index property).found .equal word).count id =
      if (word, id) ∈ (registry.index property).entries then 1 else 0 := by
  have hnodup : ((registry.index property).found .equal word).Nodup :=
    (pairwise_found_equal registry property word).imp fun hlt => hlt.ne
  simp only [hnodup.count, mem_found_equal]

variable [CharClasses]

/-- Only ids of objects are found. -/
theorem RegistryFilter.mem_ids_of_timesFound (hfound : 0 < filter.timesFound registry id) :
    id ∈ registry.ids := by
  unfold timesFound at hfound
  split at hfound
  · split at hfound
    case isTrue hwords =>
      obtain ⟨word, hword⟩ := exists_mem_of_ne_nil _ hwords.1
      exact registry.indexed filter.property _ (hwords.2 word hword)
    case isFalse => exact absurd hfound (lt_irrefl 0)
  · exact mem_ids_of_mem_found registry (count_pos_iff.mp hfound)

namespace RegistryFilter

variable {registry} (h : filter.complete registry)

include h

/-- A comparison finds the keys it asks for. -/
theorem found_eq_map_matching (hop : filter.op ≠ .textMatch) :
    filter.found registry = (filter.matching registry).map Prod.snd := by
  rw [complete, if_neg hop, matching, all_filter, all_eq_true] at h
  have hfound : filter.found registry = ((filter.keys registry).filter fun e =>
      filter.inRange e && compares filter.op e.1 filter.value.asBytes).map Prod.snd := by
    unfold found keys inRange
    split <;> rfl
  rw [hfound, matching]
  refine congrArg (map Prod.snd) (filter_congr fun e he => ?_)
  have hrange := h e he
  cases hcompares : compares filter.op e.1 filter.value.asBytes
  · exact Bool.and_false _
  · simpa [hcompares] using hrange

/-- A filter finds what satisfies it. -/
theorem timesFound_pos_iff (id : ℕ) :
    0 < filter.timesFound registry id ↔ filter.satisfiedBy registry id := by
  by_cases hop : filter.op = .textMatch
  · rw [complete, if_pos hop] at h
    rw [timesFound, satisfiedBy, if_pos hop, if_pos hop, lookedUp]
    rcases hwords : filter.words with _ | ⟨first, rest⟩ <;> rw [hwords] at h
    · cases h
    by_cases hfirst : filter.isIndexed registry first
    · rw [dropWhile_cons_of_neg (by simpa using hfirst), all_eq_true]
      simp only [ne_eq, reduceCtorEq, not_false_eq_true, true_and, decide_eq_true_eq]
      split <;> simp_all
    · -- nobody has the first word, and no other one is looked up
      have hrest : rest.all (!filter.isIndexed registry ·) := by simpa [hfirst] using h
      have hnil : (first :: rest).dropWhile (!filter.isIndexed registry ·) = [] :=
        dropWhile_eq_nil_iff.mpr (forall_mem_cons.mpr
          ⟨by simpa using hfirst, fun word hword => all_eq_true.mp hrest word hword⟩)
      have hnot : (first, id) ∉ (registry.index filter.property).entries := fun hid =>
        hfirst (any_eq_true.mpr ⟨_, hid, decide_eq_true rfl⟩)
      rw [hnil]
      simp [hnot]
  · rw [timesFound, satisfiedBy, if_neg hop, if_neg hop, found_eq_map_matching h hop, count_pos_iff,
      mem_map, any_eq_true]
    simp only [matching, mem_filter, Bool.and_eq_true, decide_eq_true_eq]
    exact exists_congr fun e => by tauto

end RegistryFilter

/-! ## What the loops collect -/

section Loops

variable {T : Type} [RegistryQueryResults T] (query : RegistryQuery)

/-- What has been collected for a query, with how often an id is in it. -/
structure Collected (results : ResultsPagination T) (times : ℕ → ℕ) : Prop where
  eq_new : results = { (.new query : ResultsPagination T) with list := results.list }
  sorted : (intoList results.list).Pairwise (· ≤ ·)
  count : ∀ id, (intoList results.list).count id = times id

variable {query} [LawfulQueryResults T]

omit [CharClasses] in
theorem hasItems_iff_count {ids : T} : hasItems ids ↔ ∃ id, 0 < (intoList ids).count id := by
  rw [hasItems_iff]
  constructor
  · intro hne
    obtain ⟨id, hid⟩ := exists_mem_of_ne_nil _ hne
    exact ⟨id, count_pos_iff.mpr hid⟩
  · rintro ⟨id, hid⟩
    exact ne_nil_of_mem (count_pos_iff.mp hid)

variable {results : ResultsPagination T} {times : ℕ → ℕ} {result : ResultsPagination T}
  {times' : ℕ → ℕ}

theorem Collected.hasItems_iff (h : Collected query results times) :
    hasItems results.list ↔ ∃ id, 0 < times id := by
  simp only [hasItems_iff_count, h.count]

theorem collected_new : Collected query (.new query : ResultsPagination T) 0 where
  eq_new := rfl
  sorted := by
    show (intoList (empty : T)).Pairwise (· ≤ ·)
    rw [intoList_empty]
    exact Pairwise.nil
  count id := by
    show (intoList (empty : T)).count id = 0
    rw [intoList_empty, count_nil]

/-- An iteration collects all it finds. -/
theorem collected_collect
    (hdeferred : RegistryQuery.deferredPagination query.filters) {ids : List ℕ}
    (hfits : ∀ id ∈ ids, fits T id) :
    Collected query ((new query : ResultsPagination T).collect ids)
      fun id => kept T (ids.count id) := by
  have hcollect : (new query : ResultsPagination T).collect ids =
      { (.new query : ResultsPagination T) with
        list := sort (ids.foldl push (empty : T)) } := by
    rw [collect, pushAll_deferred hdeferred]
    rfl
  rw [hcollect]
  refine ⟨rfl, pairwise_sort _, fun id => ?_⟩
  rw [count_sort, count_foldl_push hfits]

/-- The next ids are taken over, if there are none yet. -/
theorem Collected.narrow_of_empty (h : Collected query results times)
    (hempty : ∀ id, times id = 0) (h' : Collected query result times') :
    Collected query (results.narrow result) times' := by
  have hnone : hasItems results.list = false := by
    rw [Bool.eq_false_iff, ne_eq, h.hasItems_iff]
    rintro ⟨id, hid⟩
    exact absurd (hempty id) hid.ne'
  rwa [narrow, hnone]

/-- Otherwise the ids in common are kept. -/
theorem Collected.narrow_of_pos (h : Collected query results times)
    (hpos : ∃ id, 0 < times id) (h' : Collected query result times') :
    Collected query (results.narrow result) fun id => min (times id) (times' id) := by
  rw [narrow, h.hasItems_iff.mpr hpos, if_neg (by decide)]
  refine ⟨?_, pairwise_intersect h.sorted _, fun id => ?_⟩
  · rw [h.eq_new]
  · rw [count_intersect h.sorted h'.sorted, h.count, h'.count]

variable {registry} (hdeferred : RegistryQuery.deferredPagination query.filters)
  (hfits : ∀ id ∈ registry.ids, fits T id) (property : Property)
  (words : List (List UInt8))

include hdeferred hfits

/-- A word collects the objects that have it. -/
theorem collected_word (word : List UInt8) :
    Collected query (indexRange (registry.index property) word .equal
        (.new query : ResultsPagination T))
      fun id => if (word, id) ∈ (registry.index property).entries then 1 else 0 := by
  have h : Collected query (indexRange (registry.index property) word .equal
      (.new query : ResultsPagination T)) _ :=
    collected_collect hdeferred fun id hid => hfits id (mem_ids_of_mem_found registry hid)
  refine ⟨h.eq_new, h.sorted, fun id => ?_⟩
  rw [h.count, count_found_equal]
  split
  · unfold kept
    split <;> rfl
  · exact kept_zero T

/-- Once there are ids, those are kept that have all words that follow. -/
theorem collected_matchWords_of_pos (h : Collected query results times)
    (hpos : ∃ id, 0 < times id) (hone : ∀ id, times id ≤ 1) :
    Collected query (matchWords query (registry.index property) words results)
      fun id => if ∀ word ∈ words, (word, id) ∈ (registry.index property).entries then times id
        else 0 := by
  induction words generalizing results times with
  | nil => simpa [matchWords] using h
  | cons word words ih =>
    have hnext := h.narrow_of_pos hpos (collected_word hdeferred hfits property word)
    rw [matchWords, h.hasItems_iff.mpr hpos]
    by_cases hitems : hasItems (results.narrow
        (indexRange (registry.index property) word .equal (.new query))).list
    · rw [hitems]
      have hrest := ih hnext (hnext.hasItems_iff.mp hitems) fun id => by
        have := hone id
        omega
      refine ⟨hrest.eq_new, hrest.sorted, fun id => (hrest.count id).trans ?_⟩
      have := hone id
      by_cases hword : (word, id) ∈ (registry.index property).entries
      · simp [hword, this]
      · simp [hword]
    · -- no id is left, so none has all the words
      have hnone : ∀ id, ¬ 0 < min (times id)
          (if (word, id) ∈ (registry.index property).entries then 1 else 0) :=
        fun id hid => hitems (hnext.hasItems_iff.mpr ⟨id, hid⟩)
      rw [Bool.not_eq_true] at hitems
      rw [hitems]
      refine ⟨hnext.eq_new, hnext.sorted, fun id => (hnext.count id).trans ?_⟩
      have hid := hnone id
      by_cases hword : (word, id) ∈ (registry.index property).entries
      · simp only [hword, if_true] at hid ⊢
        split <;> omega
      · simp [hword]

/-- Words not in the index are passed over, as long as there are no ids. -/
theorem collected_matchWords (h : Collected query results 0) :
    Collected query (matchWords query (registry.index property) words results) fun id =>
        let rest := words.dropWhile fun word =>
          !(registry.index property).entries.any fun e => e.1 = word
        if rest ≠ [] ∧ ∀ word ∈ rest, (word, id) ∈ (registry.index property).entries then 1
        else 0 := by
  induction words generalizing results with
  | nil => exact h
  | cons word words ih =>
    have hnext := h.narrow_of_empty (fun _ => rfl) (collected_word hdeferred hfits property word)
    have hitems : hasItems results.list = false := by
      rw [Bool.eq_false_iff, ne_eq, h.hasItems_iff]
      simp
    rw [matchWords, hitems]
    -- the first word that is in the index collects the ids that the others narrow
    by_cases hany : (registry.index property).entries.any fun e => e.1 = word
    · obtain ⟨e, he, heq⟩ := any_eq_true.mp hany
      have hentry : (word, e.2) ∈ (registry.index property).entries := by
        rwa [← of_decide_eq_true heq]
      have hall := collected_matchWords_of_pos hdeferred hfits property words hnext
        ⟨e.2, by simp [hentry]⟩ fun id => by split <;> omega
      refine ⟨hall.eq_new, hall.sorted, fun id => (hall.count id).trans ?_⟩
      rw [dropWhile_cons_of_neg (by simpa using hany)]
      by_cases hword : (word, id) ∈ (registry.index property).entries <;> simp [hword]
    · have hzero : ∀ id, (word, id) ∉ (registry.index property).entries := fun id hid =>
        hany (any_eq_true.mpr ⟨_, hid, decide_eq_true rfl⟩)
      have hnone : Collected query (results.narrow (indexRange (registry.index property)
          word .equal (.new query))) 0 :=
        ⟨hnext.eq_new, hnext.sorted, fun id => by rw [hnext.count, if_neg (hzero id)]; rfl⟩
      rw [dropWhile_cons_of_pos (by rw [Bool.eq_false_iff.mpr hany]; rfl)]
      exact ih hnone

/-- A filter collects what it finds. -/
theorem collected_matchFilter (htyped : filter.WellTyped) :
    ∃ result : ResultsPagination T, matchFilter registry query filter = .ok result ∧
      Collected query result fun id => kept T (filter.timesFound registry id) := by
  by_cases hop : filter.op = .textMatch
  · obtain ⟨text, htext⟩ := htyped hop
    refine ⟨_, by rw [matchFilter, if_pos hop, htext], ?_⟩
    have hnew : Collected query (.new query : ResultsPagination T) 0 := collected_new
    have h := collected_matchWords hdeferred hfits filter.property (words text) hnew
    refine ⟨h.eq_new, h.sorted, fun id => (h.count id).trans ?_⟩
    have hone : kept T 1 = 1 := by
      unfold kept
      split <;> rfl
    simp only [RegistryFilter.timesFound, RegistryFilter.lookedUp, RegistryFilter.words, htext,
      RegistryFilter.isIndexed, if_pos hop]
    split
    · exact hone.symm
    · exact (kept_zero T).symm
  · refine ⟨(new query).collect (filter.found registry), ?_, ?_⟩
    · rw [matchFilter, if_neg hop, found]
      cases filter.isPk <;> rfl
    · simp only [timesFound, if_neg hop]
      exact collected_collect hdeferred fun id hid =>
        hfits id (RegistryFilter.mem_ids_of_mem_found registry hid)

omit hdeferred hfits [LawfulQueryResults T] in
/-- One round of the loop over the filters. -/
theorem applyFilters_cons (hresult : matchFilter registry query filter = .ok result)
    (filters : List RegistryFilter) :
    applyFilters registry query (filter :: filters) results =
      if hasItems (results.narrow result).list then
        applyFilters registry query filters (results.narrow result)
      else .ok (results.narrow result) := by
  rw [applyFilters, hresult]
  cases hitems : hasItems (results.narrow result).list <;>
    simp [hitems, bind, Except.bind, pure, Except.pure]

/-- The filters keep an id as often as the one that finds it least. -/
theorem collected_applyFilters
    (htyped : ∀ filter ∈ filters, filter.WellTyped) (h : Collected query results times)
    (hpos : ∃ id, 0 < times id) :
    ∃ all : ResultsPagination T, applyFilters registry query filters results = .ok all ∧
      Collected query all fun id => filters.foldl
        (fun n filter => min n (kept T (filter.timesFound registry id))) (times id) := by
  induction filters generalizing results times with
  | nil => exact ⟨results, rfl, h⟩
  | cons filter filters ih =>
    obtain ⟨hfilter, htyped⟩ := forall_mem_cons.mp htyped
    obtain ⟨result, hresult, hcollected⟩ := collected_matchFilter hdeferred hfits hfilter
    have hnext := h.narrow_of_pos hpos hcollected
    rw [applyFilters_cons hresult]
    by_cases hitems : hasItems (results.narrow result).list
    · rw [if_pos hitems]
      exact ih htyped hnext (hnext.hasItems_iff.mp hitems)
    rw [if_neg hitems]
    refine ⟨_, rfl, hnext.eq_new, hnext.sorted, fun id => (hnext.count id).trans ?_⟩
    have hzero : min (times id) (kept T (filter.timesFound registry id)) = 0 := by
      exact Nat.eq_zero_of_not_pos fun hid => hitems (hnext.hasItems_iff.mpr ⟨id, hid⟩)
    rw [foldl_cons, hzero]
    exact (foldl_fixed' (fun filter => Nat.zero_min (kept T _)) filters).symm

end Loops

end Inworkspace.RegistryStore
