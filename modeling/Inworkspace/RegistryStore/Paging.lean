import Inworkspace.RegistryStore.QueryAnswer
import Mathlib.Data.String.Basic

/-!
# Pages of a query of the registry

What `RegistryStore::query` should return: the page, behind its start and up to its limit, of the
ids of the objects that satisfy all filters (`page`, `answer`). It does so if the index lets the
filters find the answer (`FindsAnswer`) and the page can be taken (`Pageable`):

* A text of which the first words are nowhere in the index finds the objects that have the
  other words, and a text without words finds nothing.
* Keys of lower or greater values than the one asked for may be outside of the range that is
  iterated (`indexInRange_of_compares`).
* If there is only one comparison, the page is taken in the order of the values; if there are
  several, a vector may have an id more than once.
* A limit of zero is one of one, and behind an anchor that is not in the answer there is
  nothing.

Where the filters find the answer, pages that each start behind the last id of the one before
are disjoint and give all of it (`query_eq_page`).
-/

namespace Inworkspace.RegistryStore

open Lib List RegistryQueryResults LawfulQueryResults ResultsPagination RegistryFilter RegistryQuery
open Nat CharClasses

/-! ## Pages -/

/-- The ids behind a start. -/
def RegistryQueryStart.after : RegistryQueryStart → List ℕ → List ℕ
  | .index position, ids => ids.drop position
  | .anchor id, ids => ids.filter (id.toNat < ·)
  | .none, ids => ids

variable (start : RegistryQueryStart) (limit : Option ℕ) (ids : List ℕ) (asked : RegistryQuery)

/-- A page of ids. -/
def page : List ℕ :=
  match limit with
  | none => start.after ids
  | some limit => (start.after ids).take limit

/-- What follows the anchor, or nothing if it is missing. -/
theorem dropWhile_ne_anchor {ids : List ℕ} (hids : ids.Pairwise (· < ·)) (anchor : ℕ) :
    (ids.dropWhile (· ≠ anchor)).drop 1 = if anchor ∈ ids then ids.filter (anchor < ·) else [] := by
  induction ids with
  | nil => rfl
  | cons id ids ih =>
    obtain ⟨hid, hids⟩ := pairwise_cons.mp hids
    by_cases heq : id = anchor
    · rw [dropWhile_cons_of_neg (by simpa using heq), if_pos (heq ▸ mem_cons_self),
        filter_cons_of_neg (by simp [heq])]
      exact (filter_eq_self.mpr fun x hx => decide_eq_true (heq ▸ hid x hx)).symm
    · rw [dropWhile_cons_of_pos (by simpa using heq), ih hids]
      simp only [mem_cons, Ne.symm heq, false_or]
      split
      case isTrue hmem => rw [filter_cons_of_neg (by simpa using (hid anchor hmem).le)]
      case isFalse => rfl

/-- A page of a limit of zero has an id, if there is one. -/
theorem room_eq_page_iff :
    room limit 0 (start.after ids) = page start limit ids ↔
      limit ≠ some 0 ∨ start.after ids = [] := by
  obtain _ | limit := limit
  · simp [room, page]
  rw [room, page]
  obtain _ | limit := limit
  · simp
  · simp

theorem page_eq_nil_iff : page start limit ids = [] ↔ limit = some 0 ∨ start.after ids = [] := by
  obtain _ | limit := limit
  · simp [page]
  · rw [page]
    simp

theorem room_nil (collected : ℕ) : room limit collected [] = [] := by cases limit <;> simp [room]

/-- The page of some ids is what is behind its start up to its limit. -/
def Served : Prop :=
  match start with
  | .anchor anchor =>
    if anchor.toNat ∈ ids then limit ≠ some 0 ∨ start.after ids = []
    else limit = some 0 ∨ start.after ids = []
  | _ => limit ≠ some 0 ∨ start.after ids = []

section Taken

variable [CharClasses]

/-- What is taken of the ids of a query, if they come in ascending order. -/
def RegistryQuery.taken (ids : List ℕ) : List ℕ :=
  let results : ResultsPagination (List ℕ) := .new asked
  room asked.limit 0 (skip results.offset results.anchor ids)

theorem taken_sublist (ids : List ℕ) : (asked.taken ids).Sublist ids :=
  (room_sublist _ _ _).trans (skip_sublist _ _ _)

/-- The page that is taken is what it should be if it is served. -/
theorem taken_eq_page_iff {ids : List ℕ} (hids : ids.Pairwise (· < ·)) :
    asked.taken ids = page asked.start asked.limit ids ↔ Served asked.start asked.limit ids := by
  obtain ⟨filters, start, limit⟩ := asked
  cases start with
  | none => exact room_eq_page_iff .none limit ids
  | index position => exact room_eq_page_iff (.index position) limit ids
  | anchor anchor =>
    simp only [taken, Served, skip, new, drop_zero, dropWhile_ne_anchor hids]
    split
    · exact room_eq_page_iff (.anchor anchor) limit ids
    · rw [room_nil, eq_comm]
      exact page_eq_nil_iff _ _ _

end Taken

/-! ## Queries without filters -/

section AllIds

variable {T : Type} [RegistryQueryResults T] [LawfulQueryResults T] {registry : RegistryContents}

/-- The ids of all objects behind the start; the last id starts over. -/
theorem intoList_allIds (hfits : ∀ id ∈ registry.ids, fits T id) (filters : List RegistryFilter)
    (start : RegistryQueryStart) (limit : Option ℕ) :
    intoList (allIds registry ⟨filters, start, limit⟩ : T) =
      room limit 0
        (if start = .anchor (BitVec.allOnes 64) then registry.ids
        else start.after registry.ids) := by
  have hpage : ∀ (offset itemId : ℕ), intoList ((⟨empty, offset, none, limit, false⟩ :
      ResultsPagination T).pushAll (registry.ids.filter (itemId ≤ ·))).list =
        room limit 0 ((registry.ids.filter (itemId ≤ ·)).drop offset) :=
    fun offset itemId => intoList_pushAll offset none limit (registry.sorted.sublist filter_sublist)
      fun id h => hfits id (mem_of_mem_filter h)
  have hall : registry.ids.filter (0 ≤ ·) = registry.ids :=
    filter_eq_self.mpr fun id _ => decide_eq_true (zero_le id)
  cases start with
  | none => rw [allIds, hpage, hall]; simp [RegistryQueryStart.after]
  | index position => rw [allIds, hpage, hall]; simp [RegistryQueryStart.after]
  | anchor anchor =>
    rw [allIds, hpage]
    by_cases hmax : anchor = BitVec.allOnes 64
    · rw [hmax]
      exact congrArg _ hall
    -- the scan starts at the anchor plus one, which wraps at the last id only
    have hlt : anchor.toNat + 1 < 2 ^ 64 := by
      have hne : anchor.toNat ≠ (BitVec.allOnes 64).toNat := fun h => hmax (BitVec.eq_of_toNat_eq h)
      rw [BitVec.toNat_allOnes] at hne
      omega
    have hsucc : (anchor + 1).toNat = anchor.toNat + 1 := by exact mod_eq_of_lt hlt
    rw [if_neg (by simpa using hmax)]
    simp only [hsucc]
    rfl

end AllIds

/-! ## Filters that find the answer -/

section Answer

variable [CharClasses] (T : Type) [RegistryQueryResults T] [LawfulQueryResults T]
  (registry : RegistryContents) (filters : List RegistryFilter)

/-- The index lets the filters find the objects that satisfy them all. If all ids are collected,
    each has one of the keys that some comparison asks for, or there is a text, unless the container
    merges them; if not, the keys that a comparison asks for have ascending ids. -/
structure FindsAnswer : Prop where
  complete : ∀ filter ∈ filters, filter.complete registry
  once : deferredPagination filters → merges T = false →
    ∀ id ∈ answer registry filters, ∃ filter ∈ filters,
      filter.op = .textMatch ∨ ((filter.matching registry).map Prod.snd).count id = 1
  ascending : deferredPagination filters = false → ∀ filter ∈ filters,
    filter.op ≠ .textMatch → (filter.matching registry).Pairwise (·.2 < ·.2)

/-- The page of the answer is what is behind its start up to its limit. -/
def Pageable (start : RegistryQueryStart) (limit : Option ℕ) : Prop :=
  if filters = [] then
    if start = .anchor (BitVec.allOnes 64) then registry.ids = []
    else limit ≠ some 0 ∨ start.after registry.ids = []
  else Served start limit (answer registry filters)

variable {registry filters}

variable {T} in
theorem FindsAnswer.mem_answer_iff (h : FindsAnswer T registry filters) (hne : filters ≠ [])
    (id : ℕ) : (∀ filter ∈ filters, 0 < filter.timesFound registry id) ↔
      id ∈ answer registry filters := by
  obtain ⟨filter, hfilter⟩ := exists_mem_of_ne_nil _ hne
  have hsatisfied : (∀ filter ∈ filters, 0 < filter.timesFound registry id) ↔
      ∀ filter ∈ filters, filter.satisfiedBy registry id :=
    forall₂_congr fun filter hfilter => timesFound_pos_iff (h.complete filter hfilter) id
  rw [mem_answer, ← hsatisfied]
  exact ⟨fun hfound => ⟨mem_ids_of_timesFound registry (hfound filter hfilter), hfound⟩,
    fun hfound => hfound.2⟩

variable {T} in
/-- Some filter finds an id of the answer once. -/
theorem FindsAnswer.exists_timesFound_eq_one (h : FindsAnswer T registry filters)
    (hdeferred : deferredPagination filters) (hmerges : merges T = false) {id : ℕ}
    (hid : id ∈ answer registry filters) :
    ∃ filter ∈ filters, filter.timesFound registry id = 1 := by
  obtain ⟨filter, hfilter, hone⟩ := h.once hdeferred hmerges id hid
  refine ⟨filter, hfilter, ?_⟩
  by_cases hop : filter.op = .textMatch
  · -- a text finds an id once or not at all
    have hpos := (timesFound_pos_iff (h.complete filter hfilter) id).mpr
      ((mem_answer.mp hid).2 filter hfilter)
    rw [timesFound, if_pos hop] at hpos ⊢
    split at hpos
    · rename_i hwords
      exact if_pos hwords
    · cases hpos
  · rw [timesFound, if_neg hop, found_eq_map_matching (h.complete filter hfilter) hop]
    exact hone.resolve_left hop

/-! ### All ids collected -/

omit [CharClasses] in
theorem le_foldl_min (times : RegistryFilter → ℕ) (k n : ℕ) :
    k ≤ filters.foldl (fun n filter => min n (times filter)) n ↔
      k ≤ n ∧ ∀ filter ∈ filters, k ≤ times filter := by
  induction filters generalizing n with
  | nil => simp
  | cons filter filters ih => rw [foldl_cons, ih, le_min_iff, forall_mem_cons, and_assoc]

variable {T} {filter : RegistryFilter} {asked : RegistryQuery}

/-- What the loop over the filters collects from the start. -/
theorem exists_applyFilters (hfits : ∀ id ∈ registry.ids, fits T id)
    (htyped : ∀ f ∈ filter :: filters, f.WellTyped)
    (hdeferred : deferredPagination asked.filters) :
    ∃ (all : ResultsPagination T) (times : ℕ → ℕ),
      applyFilters registry asked (filter :: filters) (.new asked) = .ok all ∧
      Collected asked all times ∧
      ∀ k id, k ≤ times id ↔ ∀ f ∈ filter :: filters, k ≤ kept T (f.timesFound registry id) := by
  obtain ⟨hfilter, hrest⟩ := forall_mem_cons.mp htyped
  obtain ⟨result, hresult, hcollected⟩ :
      ∃ result : ResultsPagination T, matchFilter registry asked filter = .ok result ∧
        Collected asked result fun id => kept T (filter.timesFound registry id) :=
    collected_matchFilter hdeferred hfits hfilter
  have hnew : Collected asked (.new asked : ResultsPagination T) 0 := collected_new
  have hnext := hnew.narrow_of_empty (fun _ => rfl) hcollected
  rw [applyFilters_cons hresult]
  -- the loop ends when nothing is left
  by_cases hitems : hasItems ((new asked).narrow result).list
  · rw [if_pos hitems]
    obtain ⟨all, hall, hcount⟩ :=
      collected_applyFilters hdeferred hfits hrest hnext (hnext.hasItems_iff.mp hitems)
    refine ⟨all, _, hall, hcount, fun k id => ?_⟩
    rw [le_foldl_min, forall_mem_cons]
  · rw [if_neg hitems]
    refine ⟨_, _, rfl, hnext, fun k id => ?_⟩
    have hzero : kept T (filter.timesFound registry id) = 0 :=
      Nat.eq_zero_of_not_pos fun hid => hitems (hnext.hasItems_iff.mpr ⟨id, hid⟩)
    rw [forall_mem_cons, hzero]
    exact ⟨fun hk => ⟨hk, fun f _ => hk.trans (zero_le _)⟩, fun h => h.1⟩

/-- The ids that are collected are the answer. -/
theorem FindsAnswer.eq_answer (h : FindsAnswer T registry filters) {ids : List ℕ}
    {times : ℕ → ℕ} (hne : filters ≠ []) (hdeferred : deferredPagination filters)
    (hsorted : ids.Pairwise (· ≤ ·)) (hcount : ∀ id, ids.count id = times id)
    (htimes : ∀ k id, k ≤ times id ↔
      ∀ filter ∈ filters, k ≤ kept T (filter.timesFound registry id)) :
    ids = answer registry filters := by
  have hnodup : (answer registry filters).Nodup :=
    (pairwise_answer registry filters).imp fun hlt => hlt.ne
  have hmem : ∀ id, id ∈ ids ↔ id ∈ answer registry filters := by
    intro id
    rw [← count_pos_iff, hcount, lt_iff_add_one_le, htimes, ← h.mem_answer_iff hne]
    exact forall₂_congr fun filter _ => kept_pos T
  refine SortedList.eq_of_count_eq hsorted
    ((pairwise_answer registry filters).imp fun hlt => hlt.le) fun id => ?_
  by_cases hid : id ∈ answer registry filters
  · have hpos : 0 < ids.count id := count_pos_iff.mpr ((hmem id).mpr hid)
    -- an id that some filter finds once is not in the vector more than once
    have hlt : ¬ 2 ≤ times id := by
      rw [htimes]
      intro htwo
      cases hmerges : merges T with
      | true =>
        obtain ⟨filter, hfilter⟩ := exists_mem_of_ne_nil _ hne
        have := htwo filter hfilter
        rw [kept, hmerges, if_pos rfl] at this
        omega
      | false =>
        obtain ⟨filter, hfilter, hone⟩ := h.exists_timesFound_eq_one hdeferred hmerges hid
        have := htwo filter hfilter
        rw [kept, hmerges, hone, if_neg (by decide)] at this
        omega
    rw [count_eq_one_of_mem hnodup hid]
    rw [hcount] at hpos ⊢
    omega
  · rw [count_eq_zero_of_not_mem hid, count_eq_zero_of_not_mem fun hmem' => hid ((hmem id).mp hmem')]

/-- The page of ids in ascending order. -/
theorem intoList_pushAll_new {ids : List ℕ} (hids : ids.Pairwise (· < ·))
    (hfits : ∀ id ∈ ids, fits T id) :
    intoList ({ (.new asked : ResultsPagination T) with
      deferredPagination := false }.pushAll ids).list = asked.taken ids :=
  intoList_pushAll _ _ _ hids hfits

/-- The page of the ids that have been collected. -/
theorem intoList_finalize {list : T} (hdeferred : deferredPagination asked.filters)
    (hids : (intoList list).Pairwise (· < ·)) (hfits : ∀ id ∈ intoList list, fits T id) :
    intoList ({ (.new asked : ResultsPagination T) with list }.finalize) =
      asked.taken (intoList list) := by
  rw [finalize]
  split
  · exact intoList_pushAll_new hids hfits
  case isFalse hnot =>
    -- there are no ids, or no page has been asked for
    have hdefer : (new asked : ResultsPagination T).deferredPagination := hdeferred
    by_cases hitems : hasItems list
    · simp only [hdefer, hitems, Bool.true_and, Bool.or_eq_true, decide_eq_true_eq, not_or,
        Bool.not_eq_true, Option.isSome_eq_false_iff, Option.isNone_iff_eq_none, not_lt,
        le_zero_eq] at hnot
      obtain ⟨⟨hlimit, hanchor⟩, hoffset⟩ := hnot
      exact ((congrArg₂ (room · 0 ·) hlimit (congrArg₂ (skip · · _) hoffset hanchor))).symm
    · rw [hasItems_iff, not_not] at hitems
      have hnil := taken_sublist asked (intoList list)
      rw [hitems] at hnil ⊢
      exact (sublist_nil.mp hnil).symm

variable (asked) in
/-- A query that collects all ids first. -/
theorem exists_query_deferred (hfits : ∀ id ∈ registry.ids, fits T id)
    (htyped : ∀ filter ∈ filters, filter.WellTyped) (hdeferred : deferredPagination filters)
    (hfinds : FindsAnswer T registry filters) (hfilters : asked.filters = filters) :
    ∃ list : T, query T registry asked =
        .ok { (.new asked : ResultsPagination T) with list }.finalize ∧
      intoList list = answer registry filters := by
  obtain _ | ⟨filter, filters⟩ := filters
  · exact absurd hdeferred Bool.false_ne_true
  obtain ⟨all, times, hall, hcollected, htimes⟩ :=
    exists_applyFilters hfits htyped (hfilters ▸ hdeferred)
  refine ⟨all.list, ?_, hfinds.eq_answer (cons_ne_nil _ _) hdeferred hcollected.sorted
    hcollected.count htimes⟩
  rw [query, hfilters, hall, ← hcollected.eq_new]
  rfl

/-! ### A single filter -/

/-- The ids a single filter finds, in the order it finds them. -/
def RegistryFilter.scan (registry : RegistryContents) (filter : RegistryFilter) : List ℕ :=
  if filter.op = .textMatch then
    match filter.words with
    | [] => []
    | word :: _ => (registry.index filter.property).found .equal word
  else filter.found registry

/-- A text that is not split has at most one word. -/
theorem length_words_le_one {text : String}
    (hnot : ((text.toList.any fun c => !isAlphanumeric c) && text.utf8ByteSize > 1) = false) :
    (words text).length ≤ 1 := by
  rw [words, length_map]
  rcases Bool.and_eq_false_iff.mp hnot with hall | hshort
  · have hsplit : text.toList.splitOnP (fun c => !isAlphanumeric c) = [text.toList] :=
      splitOnP_eq_singleton fun c hc => by
        rw [any_eq_false] at hall
        simpa using hall c hc
    rw [hsplit]
    exact (length_filter_le _ _).trans (by simp)
  · -- a text of one byte has at most one character
    rw [decide_eq_false_iff_not, ← String.ofList_toList (s := text),
      String.utf8ByteSize_ofList] at hshort
    generalize text.toList = cs at hshort
    obtain _ | ⟨c, _ | ⟨c', cs⟩⟩ := cs
    · simp
    · by_cases hc : isAlphanumeric c
      · exact (length_filter_le _ _).trans (by simp [splitOnP_cons_eq_if_modifyHead, hc])
      · simp [splitOnP_cons_eq_if_modifyHead, hc]
    · have hpos := c.utf8Size_pos
      have hpos' := c'.utf8Size_pos
      rw [String.utf8Len_cons, String.utf8Len_cons] at hshort
      omega

omit [CharClasses] in
theorem intoList_sort_of_pairwise {list : T} (hsorted : (intoList list).Pairwise (· ≤ ·)) :
    intoList (sort list) = intoList list :=
  SortedList.eq_of_count_eq (pairwise_sort list) hsorted (count_sort list)

theorem hasItems_new : hasItems (.new asked : ResultsPagination T).list = false := by
  rw [Bool.eq_false_iff, ne_eq, hasItems_iff, not_not]
  exact intoList_empty

theorem narrow_new (result : ResultsPagination T) : (new asked).narrow result = result := by
  rw [narrow, hasItems_new, if_pos (by rfl)]

section Single

variable (htyped : filter.WellTyped) (hdirect : deferredPagination [filter] = false)

include htyped hdirect

/-- A text asked for alone and not collected first has at most one word. -/
theorem exists_words (hop : filter.op = .textMatch) :
    ∃ text, filter.value = .string text ∧ (words text = [] ∨ ∃ word, words text = [word]) := by
  obtain ⟨text, htext⟩ := htyped hop
  have hlength : (words text).length ≤ 1 := length_words_le_one (by
    simpa [RegistryQuery.deferredPagination, hop, htext] using hdirect)
  refine ⟨text, htext, ?_⟩
  obtain hzero | hone := le_one_iff_eq_zero_or_eq_one.mp hlength
  · exact .inl (length_eq_zero_iff.mp hzero)
  · exact .inr (length_eq_one_iff.mp hone)

/-- What a single filter finds that is not collected first. -/
theorem exists_matchFilter (hfilters : asked.filters = [filter]) :
    ∃ result : ResultsPagination T, matchFilter registry asked filter = .ok result ∧
      result.deferredPagination = false ∧
      intoList result.list = intoList (sort ((.new asked :
        ResultsPagination T).pushAll (filter.scan registry)).list) := by
  have hnew : (.new asked : ResultsPagination T).deferredPagination = false := by
    rw [← hdirect, ← hfilters]
    rfl
  have hcollect : ∀ ids, ((.new asked :
      ResultsPagination T).collect ids).deferredPagination = false := fun ids =>
    (deferredPagination_pushAll _ ids).trans hnew
  by_cases hop : filter.op = .textMatch
  · obtain ⟨text, htext, hwords⟩ := exists_words htyped hdirect hop
    rw [matchFilter, htext]
    simp only [RegistryFilter.scan, if_pos hop, RegistryFilter.words, htext]
    rcases hwords with hwords | ⟨word, hwords⟩ <;> rw [hwords]
    · have hsorted : (intoList (empty : T)).Pairwise (· ≤ ·) := by
        rw [intoList_empty]
        exact Pairwise.nil
      exact ⟨_, rfl, hnew, (intoList_sort_of_pairwise hsorted).symm⟩
    · refine ⟨_, rfl, ?_⟩
      rw [matchWords, hasItems_new, narrow_new]
      exact ⟨hcollect _, rfl⟩
  · refine ⟨(new asked).collect (filter.found registry), ?_, hcollect _, ?_⟩
    · rw [matchFilter, if_neg hop, found]
      cases filter.isPk <;> rfl
    · rw [scan, if_neg hop]
      rfl

variable (asked) in
/-- A query with a single filter that is not collected first. -/
theorem exists_query_single (hfilters : asked.filters = [filter]) :
    ∃ list : T, query T registry asked = .ok list ∧
      intoList list = intoList (sort ({ (.new asked : ResultsPagination T) with
        deferredPagination := false }.pushAll (filter.scan registry)).list) := by
  obtain ⟨result, hresult, hresultDirect, hlist⟩ :=
    exists_matchFilter (T := T) htyped hdirect hfilters
  have hnew : { (.new asked : ResultsPagination T) with deferredPagination := false } =
      .new asked := by
    simp only [new, hfilters, hdirect]
  refine ⟨result.list, ?_, by rw [hnew, hlist]⟩
  have hfinal : result.finalize = result.list := by
    rw [finalize, hresultDirect, Bool.false_and, Bool.false_and, if_neg (by decide)]
  rw [query, hfilters, applyFilters_cons hresult, narrow_new, applyFilters, ite_self]
  exact congrArg Except.ok hfinal

/-- A single filter finds an id as often as it is in its scan. -/
theorem timesFound_eq_count (id : ℕ) :
    filter.timesFound registry id = (filter.scan registry).count id := by
  by_cases hop : filter.op = .textMatch
  · obtain ⟨text, htext, hwords⟩ := exists_words htyped hdirect hop
    simp only [RegistryFilter.timesFound, RegistryFilter.scan, if_pos hop,
      RegistryFilter.lookedUp, RegistryFilter.words, htext]
    rcases hwords with hwords | ⟨word, hwords⟩ <;> rw [hwords]
    · rfl
    rw [count_found_equal]
    by_cases hany : filter.isIndexed registry word
    · rw [dropWhile_cons_of_neg (by simpa using hany)]
      simp
    have hnot : (word, id) ∉ (registry.index filter.property).entries := fun hid =>
      hany (any_eq_true.mpr ⟨_, hid, decide_eq_true rfl⟩)
    rw [dropWhile_cons_of_pos (by rw [Bool.eq_false_iff.mpr hany]; rfl), if_neg hnot]
    rfl
  · rw [timesFound, if_neg hop, scan, if_neg hop]

/-- A single filter finds the answer, in ascending order. -/
theorem scan_eq_answer (h : FindsAnswer T registry [filter]) :
    filter.scan registry = answer registry [filter] := by
  have hsorted : (filter.scan registry).Pairwise (· < ·) := by
    by_cases hop : filter.op = .textMatch
    · rw [scan, if_pos hop]
      split
      · exact Pairwise.nil
      · exact pairwise_found_equal registry _ _
    · rw [scan, if_neg hop, found_eq_map_matching (h.complete filter mem_cons_self) hop, pairwise_map]
      exact h.ascending hdirect filter mem_cons_self hop
  refine SortedList.eq_of_mem_iff hsorted (pairwise_answer registry [filter]) fun id => ?_
  rw [← h.mem_answer_iff (cons_ne_nil _ _), forall_mem_singleton,
    timesFound_eq_count htyped hdirect, count_pos_iff]

end Single

end Answer

/-! ## Queries -/

section Queries

variable [CharClasses] {T : Type} [RegistryQueryResults T] [LawfulQueryResults T]
  {registry : RegistryContents} {filters : List RegistryFilter}

/-- Several filters, or a single one that is taken as it comes. -/
theorem eq_singleton_of_not_deferred (hne : filters ≠ [])
    (hdirect : deferredPagination filters = false) : ∃ filter, filters = [filter] := by
  obtain _ | ⟨filter, _ | ⟨filter', filters⟩⟩ := filters
  · exact absurd rfl hne
  · exact ⟨filter, rfl⟩
  · exact absurd hdirect (by simp [RegistryQuery.deferredPagination])

theorem mem_ids_of_mem_answer {id : ℕ} (hid : id ∈ answer registry filters) : id ∈ registry.ids :=
  (mem_answer.mp hid).1

variable (T registry filters)

/-- Up to `n` pages, each behind the last id of the one before. -/
def pages (limit : ℕ) : (n : ℕ) → RegistryQueryStart → List (List ℕ)
  | 0, _ => []
  | n + 1, start =>
    match query T registry ⟨filters, start, some limit⟩ with
    | .error _ => []
    | .ok list =>
      intoList list :: match (intoList list).getLast? with
        | none => []
        | some last => pages limit n (.anchor (BitVec.ofNat 64 last))

variable {T registry filters} {start : RegistryQueryStart}

omit [CharClasses] in
/-- What is behind the last id of a page is what the page leaves. -/
theorem filter_last_lt {ids : List ℕ} (hids : ids.Pairwise (· < ·)) {limit last : ℕ}
    (hlast : (ids.take limit).getLast? = some last) : ids.filter (last < ·) = ids.drop limit := by
  obtain ⟨first, hfirst⟩ := getLast?_eq_some_iff.mp hlast
  have hsplit : ids = first ++ last :: ids.drop limit := by
    rw [append_cons, ← hfirst, take_append_drop]
  generalize ids.drop limit = rest at hsplit ⊢
  subst hsplit
  obtain ⟨-, hrest, hbefore⟩ := pairwise_append.mp hids
  have hlow : ∀ id ∈ first, ¬ last < id := fun id hid => (hbefore id hid last mem_cons_self).not_gt
  rw [filter_append, filter_eq_nil_iff.mpr fun id hid => by simpa using hlow id hid,
    filter_cons_of_neg (by simp)]
  exact filter_eq_self.mpr fun id hid => decide_eq_true (rel_of_pairwise_cons hrest hid)

omit [CharClasses] in
/-- The ids behind one that is behind a start. -/
theorem filter_after {ids : List ℕ} {last : ℕ} (hlast : last ∈ start.after ids)
    (hstart : ∀ position, start ≠ .index position) :
    (start.after ids).filter (last < ·) = ids.filter (last < ·) := by
  cases start with
  | none => rfl
  | index position => exact absurd rfl (hstart position)
  | anchor anchor =>
    rw [RegistryQueryStart.after, filter_filter]
    have hlt : anchor.toNat < last := of_decide_eq_true (mem_filter.mp hlast).2
    refine filter_congr fun id _ => ?_
    by_cases hid : last < id
    · simp [hlt.trans hid]
    · simp [hid]

omit [CharClasses] in
theorem after_sublist (ids : List ℕ) : (start.after ids).Sublist ids := by
  cases start with
  | none => exact Sublist.refl ids
  | index position => exact drop_sublist _ _
  | anchor anchor => exact filter_sublist

variable (hfits : ∀ id ∈ registry.ids, fits T id) (htyped : ∀ filter ∈ filters, filter.WellTyped)

include hfits htyped

/-- Filters that find the answer give its page. -/
theorem query_of_findsAnswer (hfinds : FindsAnswer T registry filters)
    (start : RegistryQueryStart) (limit : Option ℕ) :
    ∃ list : T, query T registry ⟨filters, start, limit⟩ = .ok list ∧
      (intoList list = page start limit (answer registry filters) ↔
        Pageable registry filters start limit) := by
  have hanswer := pairwise_answer registry filters
  have hfit : ∀ id ∈ answer registry filters, fits T id :=
    fun id hid => hfits id (mem_ids_of_mem_answer hid)
  by_cases hne : filters = []
  · subst hne
    refine ⟨_, rfl, ?_⟩
    have hall : answer registry [] = registry.ids := filter_eq_self.mpr fun _ _ => rfl
    rw [intoList_allIds hfits, hall, Pageable]
    split
    case isTrue hmax =>
      -- no id is behind the last one
      have hafter : start.after registry.ids = [] := by
        rw [hmax]
        refine filter_eq_nil_iff.mpr fun id hid => ?_
        have := registry.lt id hid
        rw [decide_eq_true_eq, BitVec.toNat_allOnes]
        omega
      have hpage : page start limit registry.ids = [] :=
        (page_eq_nil_iff start limit registry.ids).mpr (.inr hafter)
      rw [hpage]
      constructor
      · intro hroom
        obtain _ | limit := limit
        · exact hroom
        · rw [room, take_eq_nil_iff] at hroom
          exact hroom.resolve_left (by omega)
      · intro hids
        rw [hids, room_nil]
    · exact room_eq_page_iff start limit registry.ids
  · rw [Pageable, if_neg hne]
    by_cases hdeferred : deferredPagination filters
    · obtain ⟨list, hquery, hlist⟩ := exists_query_deferred ⟨filters, start, limit⟩ hfits htyped
        hdeferred hfinds rfl
      refine ⟨_, hquery, ?_⟩
      rw [intoList_finalize hdeferred (hlist ▸ hanswer) (hlist ▸ hfit), hlist]
      exact taken_eq_page_iff ⟨filters, start, limit⟩ hanswer
    · rw [Bool.not_eq_true] at hdeferred
      obtain ⟨filter, rfl⟩ := eq_singleton_of_not_deferred hne hdeferred
      have hfilter := htyped filter mem_cons_self
      obtain ⟨list, hquery, hlist⟩ :=
        exists_query_single (T := T) ⟨[filter], start, limit⟩ hfilter hdeferred rfl
      refine ⟨list, hquery, ?_⟩
      rw [hlist, scan_eq_answer hfilter hdeferred hfinds, intoList_sort_of_pairwise,
        intoList_pushAll_new hanswer hfit]
      · exact taken_eq_page_iff ⟨[filter], start, limit⟩ hanswer
      · rw [intoList_pushAll_new hanswer hfit]
        exact (hanswer.sublist (taken_sublist _ _)).imp fun hlt => hlt.le

/-- A run of pages is the answer behind its start, as far as the pages go. -/
theorem flatten_pages (hfinds : FindsAnswer T registry filters) {limit : ℕ} (hlimit : 0 < limit)
    (hmax : filters = [] → u64Max ∉ registry.ids) (n : ℕ) (hstart : start = .none ∨
      ∃ last ∈ answer registry filters, start = .anchor (BitVec.ofNat 64 last)) :
    (pages T registry filters limit n start).flatten =
      (start.after (answer registry filters)).take (n * limit) := by
  induction n generalizing start with
  | zero => rw [pages, zero_mul]; rfl
  | succ n ih =>
    have hlt : ∀ last ∈ answer registry filters, last < 2 ^ 64 :=
      fun last hlast => registry.lt last (mem_ids_of_mem_answer hlast)
    -- an anchor is the last id of a page, so it is in the answer, where paging works
    have hpageable : Pageable registry filters start (some limit) := by
      have hpos : some limit ≠ some 0 := by simpa using hlimit.ne'
      rw [Pageable]
      rcases hstart with rfl | ⟨last, hlast, rfl⟩
      · split
        · exact .inl hpos
        · exact .inl hpos
      · have hnat : (BitVec.ofNat 64 last).toNat = last := by
          rw [BitVec.toNat_ofNat, mod_eq_of_lt (hlt last hlast)]
        split
        case isTrue hnil =>
          rw [if_neg]
          · exact .inl hpos
          · intro heq
            have hones := congrArg BitVec.toNat (RegistryQueryStart.anchor.inj heq)
            rw [hnat] at hones
            rw [hones] at hlast
            exact hmax hnil (mem_ids_of_mem_answer hlast)
        · rw [Served, hnat, if_pos hlast]
          exact .inl hpos
    obtain ⟨list, hquery, hiff⟩ := query_of_findsAnswer hfits htyped hfinds start (some limit)
    have hlist := hiff.mpr hpageable
    rw [page] at hlist
    have hsorted : (start.after (answer registry filters)).Pairwise (· < ·) :=
      (pairwise_answer registry filters).sublist (after_sublist _)
    rw [pages, hquery]
    simp only [hlist, flatten_cons]
    rw [succ_mul, add_comm, take_add]
    congr 1
    cases hlast : ((start.after (answer registry filters)).take limit).getLast? with
    | none =>
      rw [getLast?_eq_none_iff, take_eq_nil_iff] at hlast
      rw [hlast.resolve_left hlimit.ne', drop_nil, take_nil]
      rfl
    | some last =>
      have hmem : last ∈ start.after (answer registry filters) :=
        mem_of_mem_take (mem_of_getLast? hlast)
      have hanswer := (after_sublist _).subset hmem
      rw [ih (.inr ⟨last, hanswer, rfl⟩), ← filter_last_lt hsorted hlast, filter_after hmem,
        RegistryQueryStart.after, BitVec.toNat_ofNat, mod_eq_of_lt (hlt last hanswer)]
      rcases hstart with rfl | ⟨_, _, rfl⟩ <;> exact nofun

end Queries

/-! ## Objects by their names -/

/-- The classes of the characters of ASCII. -/
local instance asciiClasses : CharClasses where
  isAlphanumeric := Char.isAlphanum
  isLowercase := Char.isLower
  isAlphabetic := Char.isAlpha
  toLowercase := String.toLower

/-- The property that is searched for names. -/
def nameProperty : Property := ⟨4⟩

/-- Two accounts: Mary Jones and Peter Smith. -/
def accounts : RegistryContents where
  ids := [3, 7]
  sorted := by decide
  lt := by decide
  index property :=
    if property = nameProperty then
      { entries := [(asBytes "jones", 3), (asBytes "mary", 3), (asBytes "peter", 7),
          (asBytes "smith", 7)]
        sorted := by decide +kernel }
    else ⟨[], List.Pairwise.nil⟩
  primaryKeys _ := ⟨[], List.Pairwise.nil⟩
  indexed property e he := by
    split at he
    · revert e
      decide +kernel
    · exact absurd he List.not_mem_nil
  keyed _ e he := absurd he List.not_mem_nil

/-- The accounts with some names. -/
def byName (text : String) : RegistryFilter := ⟨nameProperty, .textMatch, .string text, false⟩

end Inworkspace.RegistryStore
