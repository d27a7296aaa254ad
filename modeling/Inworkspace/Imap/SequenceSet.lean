import Inworkspace.Imap.MailboxState
import Mathlib

/-!
# Sequence sets

A sequence set denotes the messages that one of its parts denotes: a number, a range in either
direction, or `$`, the result of the saved search.

A set without `$` selects what it denotes, one with `$` only the saved result, so that what its
other parts denote beyond that is lost (`not_selects_savedSearch`). `expand` has the numbers of
`contains`, except for a list in a list, which it does not look into.
-/

namespace Inworkspace.Imap.Selected

open Sequence

mutual

/-- The numbers, the ranges and the `$` of a set. -/
def Sequence.parts : Sequence → List Sequence
  | .list items => partsOf items
  | part => [part]

def partsOf : List Sequence → List Sequence
  | [] => []
  | item :: items => item.parts ++ partsOf items

end

/-- The part covers the number, where `*` is the greatest one. -/
def Sequence.Covers (value maxValue : ℕ) : Sequence → Prop
  | .number n => value = n
  | .range start stop => value ∈ Set.uIcc (start.getD maxValue) (stop.getD maxValue)
  | .savedSearch | .list _ => False

/-- The numbers that `expand` has of an item. -/
def Sequence.expandItem (maxValue : ℕ) : Sequence → Finset ℕ
  | .number value => {value}
  | .range start stop =>
    let start := start.getD maxValue
    let stop := stop.getD maxValue
    match compare start stop with
    | .eq => {start}
    | .lt => Finset.Icc start stop
    | .gt => Finset.Icc stop start
  | .savedSearch | .list _ => ∅

def Sequence.expand (maxValue : ℕ) : Sequence → Finset ℕ
  | .list items => items.foldl (fun result item => result ∪ item.expandItem maxValue) ∅
  | item => item.expandItem maxValue

variable (state : MailboxState) (savedSearch : Option (List ImapId)) (sequence : Sequence)
  (isUid : Bool)

/-- The message has a number that the part covers. -/
def Covered (part : Sequence) (id : ℕ) : Prop :=
  let numbering := (state.nextState.map (·.nextState)).getD state.toNumbering
  ∃ imapId, (id, imapId) ∈ numbering.idToImap ∧
    if isUid then part.Covers imapId.uid numbering.uidMax
    else part.Covers imapId.seqnum numbering.totalMessages

/-- The message is one of the saved result that are still there. -/
def Saved (id : ℕ) : Prop :=
  ∃ savedIds ∈ savedSearch, ∃ imapId ∈ savedIds, state.uidToId.lookup imapId.uid = some id

/-- The message is selected. Without a saved result `$` is an error, and nothing is. -/
def IsSelected (id : ℕ) : Prop :=
  ∃ ids ∈ sequenceToIds state savedSearch sequence isUid, ∃ imapId, (id, imapId) ∈ ids

/-- The messages that are selected are those that a part denotes. -/
def Selects : Prop :=
  ∀ id, IsSelected state savedSearch sequence isUid id ↔ ∃ part ∈ sequence.parts,
    Covered state isUid part id ∨ part = .savedSearch ∧ Saved state savedSearch id

/-! ## Parts -/

mutual

/-- `contains` looks at the parts of a set. -/
theorem contains_iff (value maxValue : ℕ) : ∀ s : Sequence,
    s.contains value maxValue = true ↔ ∃ part ∈ s.parts, part.Covers value maxValue
  | .number n => by simp [contains, parts, Sequence.Covers, eq_comm]
  | .range start stop => by
    cases start <;> cases stop <;>
      simp [contains, parts, Sequence.Covers, Set.mem_uIcc, or_comm]
    omega
  | .savedSearch => by simp [contains, parts, Sequence.Covers]
  | .list items => by
    rw [contains, parts]
    exact containsAny_iff value maxValue items

theorem containsAny_iff (value maxValue : ℕ) : ∀ items : List Sequence,
    containsAny value maxValue items = true ↔ ∃ part ∈ partsOf items, part.Covers value maxValue
  | [] => by simp [containsAny, partsOf]
  | item :: items => by
    rw [containsAny, Bool.or_eq_true, contains_iff, containsAny_iff value maxValue items, partsOf]
    simp only [List.mem_append, or_and_right, exists_or]

end

mutual

theorem isSavedSearch_iff : ∀ s : Sequence, s.isSavedSearch = true ↔ .savedSearch ∈ s.parts
  | .number _ | .range _ _ | .savedSearch => by simp [isSavedSearch, parts]
  | .list items => by
    rw [isSavedSearch, parts]
    exact anySavedSearch_iff items

theorem anySavedSearch_iff : ∀ items : List Sequence,
    anySavedSearch items = true ↔ .savedSearch ∈ partsOf items
  | [] => by simp [anySavedSearch, partsOf]
  | item :: items => by
    rw [anySavedSearch, Bool.or_eq_true, isSavedSearch_iff, anySavedSearch_iff items, partsOf,
      List.mem_append]

end

/-- An item expands to the values that it covers. -/
theorem mem_expandItem (value maxValue : ℕ) (item : Sequence) :
    value ∈ item.expandItem maxValue ↔ item.Covers value maxValue := by
  cases item with
  | number n => simp [expandItem, Sequence.Covers]
  | range start stop =>
    simp only [expandItem, Sequence.Covers]
    split
    case h_1 heq => simp [compare_eq_iff_eq.mp heq]
    case h_2 hlt => rw [Finset.mem_Icc, Set.uIcc_of_le (compare_lt_iff_lt.mp hlt).le, Set.mem_Icc]
    case h_3 hgt => rw [Finset.mem_Icc, Set.uIcc_of_ge (compare_gt_iff_gt.mp hgt).le, Set.mem_Icc]
  | savedSearch | list items => simp [expandItem, Sequence.Covers]

theorem mem_expand_list (value maxValue : ℕ) (items : List Sequence) :
    value ∈ (list items).expand maxValue ↔ ∃ item ∈ items, item.Covers value maxValue := by
  have hfold (result : Finset ℕ) :
      value ∈ items.foldl (fun result item => result ∪ item.expandItem maxValue) result ↔
        value ∈ result ∨ ∃ item ∈ items, item.Covers value maxValue := by
    induction items generalizing result with
    | nil => simp
    | cons item items ih => simp [ih, mem_expandItem, or_assoc]
  simpa [expand] using hfold ∅

/-! ## Sets -/

/-- Without a `$` the messages selected are those that a part covers. -/
theorem isSelected_iff_covered (h : .savedSearch ∉ sequence.parts) (id : ℕ) :
    IsSelected state savedSearch sequence isUid id ↔
      ∃ part ∈ sequence.parts, Covered state isUid part id := by
  have hnot : sequence.isSavedSearch = false :=
    Bool.eq_false_iff.mpr ((isSavedSearch_iff sequence).not.mpr h)
  have hcontains (uid uidMax seqnum total : ℕ) :
      (if isUid then sequence.contains uid uidMax else sequence.contains seqnum total) = true ↔
        ∃ part ∈ sequence.parts, if isUid then part.Covers uid uidMax
          else part.Covers seqnum total := by
    cases isUid <;> exact contains_iff _ _ sequence
  simp only [IsSelected, sequenceToIds, hnot, Covered, Option.mem_def]
  constructor
  · rintro ⟨_, ⟨⟩, imapId, hmem⟩
    obtain ⟨hid, hvalue⟩ := List.mem_filter.mp hmem
    obtain ⟨part, hpart, hcovers⟩ := (hcontains _ _ _ _).mp hvalue
    exact ⟨part, hpart, imapId, hid, hcovers⟩
  · rintro ⟨part, hpart, imapId, hid, hcovers⟩
    exact ⟨_, rfl, imapId, List.mem_filter.mpr ⟨hid, (hcontains _ _ _ _).mpr ⟨part, hpart, hcovers⟩⟩⟩

theorem isSelected_iff_saved (h : .savedSearch ∈ sequence.parts) (id : ℕ) :
    IsSelected state savedSearch sequence isUid id ↔ Saved state savedSearch id := by
  rw [IsSelected, sequenceToIds, (isSavedSearch_iff sequence).mpr h]
  cases savedSearch <;> simp [Saved]

/-- A set selects what its parts denote if and only if it has no `$`, or its other parts denote
    nothing that is not in the saved result. `expand` agrees with `contains` if and only if a list
    in a list has no numbers that are not in an item beside it. -/
theorem sequence_exact_iff : (Selects state savedSearch sequence isUid ↔
      (.savedSearch ∈ sequence.parts → ∀ part ∈ sequence.parts, ∀ id,
        Covered state isUid part id → Saved state savedSearch id)) ∧
    ∀ maxValue, (∀ value, value ∈ sequence.expand maxValue ↔
        sequence.contains value maxValue = true) ↔
      ∀ items, sequence = .list items → ∀ item ∈ items, ∀ value,
        item.contains value maxValue = true → ∃ other ∈ items, other.Covers value maxValue := by
  refine ⟨?_, fun maxValue => ?_⟩
  -- with a `$` among the parts only the saved result is selected
  · by_cases h : .savedSearch ∈ sequence.parts
    · simp only [Selects, isSelected_iff_saved state savedSearch sequence isUid h]
      refine ⟨fun hsaved _ part hpart id hid => (hsaved id).mpr ⟨part, hpart, .inl hid⟩, ?_⟩
      refine fun hcovered id => ⟨fun hid => ⟨_, h, .inr ⟨rfl, hid⟩⟩, ?_⟩
      rintro ⟨part, hpart, hid | ⟨-, hid⟩⟩
      · exact hcovered h part hpart id hid
      · exact hid
    · refine iff_of_true (fun id => ?_) (absurd · h)
      rw [isSelected_iff_covered state savedSearch sequence isUid h]
      refine exists_congr fun part => and_congr_right fun hpart => (or_iff_left ?_).symm
      rintro ⟨rfl, -⟩
      exact h hpart
  cases sequence with
  | list items =>
    have hany (value : ℕ) : containsAny value maxValue items = true ↔
        ∃ item ∈ items, item.contains value maxValue = true := by
      induction items with
      | nil => simp [containsAny]
      | cons item items ih => simp [containsAny, ih]
    simp only [mem_expand_list, contains, hany]
    constructor
    · rintro h _ ⟨⟩ item hitem value hvalue
      exact (h value).mpr ⟨item, hitem, hvalue⟩
    · refine fun h value => ⟨fun ⟨item, hitem, hcovers⟩ => ⟨item, hitem, ?_⟩, ?_⟩
      · cases item with
        | number | range => exact (contains_iff _ _ _).mpr ⟨_, .head _, hcovers⟩
        | savedSearch | list => exact hcovers.elim
      · exact fun ⟨item, hitem, hvalue⟩ => h items rfl item hitem value hvalue
  | number | range | savedSearch =>
    refine iff_of_true (fun value => ?_) nofun
    rw [expand, mem_expandItem, contains_iff, parts]
    · simp
    all_goals exact nofun

/-- Two messages, of which a search has found the first. -/
def twoMessages : MailboxState :=
  { Numbering.of [⟨1, 10⟩, ⟨2, 11⟩] 1 with nextState := none }

/-- `2,$` selects the first message only. -/
theorem not_selects_savedSearch :
    sequenceToIds twoMessages (some [⟨1, 1⟩]) (.list [.number 2, .savedSearch]) false =
        some [(10, ⟨1, 1⟩)] ∧
      ¬Selects twoMessages (some [⟨1, 1⟩]) (.list [.number 2, .savedSearch]) false := by
  have hids : sequenceToIds twoMessages (some [⟨1, 1⟩]) (.list [.number 2, .savedSearch]) false =
      some [(10, ⟨1, 1⟩)] := by
    decide
  refine ⟨hids, fun h => ?_⟩
  have hmem := (h 11).mpr ⟨.number 2, .head _, .inl ⟨⟨2, 2⟩, by decide, rfl⟩⟩
  simp [IsSelected, hids] at hmem

end Inworkspace.Imap.Selected
