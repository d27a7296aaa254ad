import Mathlib.Data.List.Induction
import Mathlib.Order.MinMax

/-!
# Extreme values of a list

A fold with `min` or `max` gives a value of the list that bounds the others (`foldl_min_spec`,
`foldl_max_spec`). With zero for "no value yet" instead of a first value (`lower`), the fold gives
the least value, unless that is zero itself: then it starts over after it (`foldl_lower_spec`).

The least value above a bound (`LeastAbove`) is found part by part (`LeastAbove.append_find`), and
from one to the next all values are found (`exists_nth_eq`).
-/

namespace Inworkspace.Lib.Extremum

open List

variable {α : Type*} [LinearOrder α]

theorem foldl_min_spec (values : List α) (first : α) :
    values.foldl min first ∈ first :: values ∧
      ∀ value ∈ first :: values, values.foldl min first ≤ value :=
  min?_eq_some_iff.mp rfl

theorem foldl_max_spec (values : List α) (first : α) :
    values.foldl max first ∈ first :: values ∧
      ∀ value ∈ first :: values, value ≤ values.foldl max first :=
  max?_eq_some_iff.mp rfl

/-! ## The least value above a bound -/

/-- The least value above a bound, or none if there is none. -/
def LeastAbove (bound : α) (values : List α) : Option α → Prop
  | none => ∀ value ∈ values, value ≤ bound
  | some least => least ∈ values ∧ bound < least ∧ ∀ value ∈ values, bound < value → least ≤ value

namespace LeastAbove

variable {bound : α} {values : List α}

variable {least : Option α}

section

variable (h : LeastAbove bound values least)

include h

theorem unique {least' : Option α} (h' : LeastAbove bound values least') : least = least' := by
  rcases least with _ | a <;> rcases least' with _ | b
  · rfl
  · exact absurd (h b h'.1) (not_le.mpr h'.2.1)
  · exact absurd (h' a h.1) (not_le.mpr h.2.1)
  · exact congrArg some (le_antisymm (h.2.2 b h'.1 h'.2.1) (h'.2.2 a h.1 h.2.1))

theorem of_mem_iff {values' : List α} (hmem : ∀ value, value ∈ values ↔ value ∈ values') :
    LeastAbove bound values' least := by
  rcases least with _ | a
  · exact fun value hvalue => h value ((hmem value).mpr hvalue)
  · exact ⟨(hmem a).mp h.1, h.2.1, fun value hvalue => h.2.2 value ((hmem value).mpr hvalue)⟩

/-- Ascending values are gone through up to the first one above the bound and below the least so
    far. -/
theorem append_find {more : List α} (hmore : more.Pairwise (· ≤ ·)) :
    LeastAbove bound (values ++ more)
      ((more.find? fun value => bound < value ∧ ∀ a ∈ least, value < a).or least) := by
  rcases hfind : more.find? fun value => bound < value ∧ ∀ a ∈ least, value < a with _ | first
  · rw [find?_eq_none] at hfind
    simp only [decide_eq_true_eq, not_and, not_forall, not_lt] at hfind
    rcases least with _ | a
    · refine forall_mem_append.mpr ⟨h, fun value hvalue => not_lt.mp fun hlt => ?_⟩
      obtain ⟨a, ha, -⟩ := hfind value hvalue hlt
      contradiction
    · refine ⟨mem_append_left _ h.1, h.2.1,
        forall_mem_append.mpr ⟨h.2.2, fun value hvalue hlt => ?_⟩⟩
      obtain ⟨b, hb, hle⟩ := hfind value hvalue hlt
      exact Option.some.inj hb ▸ hle
  · obtain ⟨hfirst, before, after, rfl, hbefore⟩ := find?_eq_some_iff_append.mp hfind
    obtain ⟨hlt, hbelow⟩ := of_decide_eq_true hfirst
    refine ⟨mem_append_right _ (mem_append_right _ mem_cons_self), hlt, ?_⟩
    rw [forall_mem_append, forall_mem_append, forall_mem_cons]
    refine ⟨fun value hvalue hvlt => ?_, fun value hvalue hvlt => ?_, fun _ => le_refl _,
      fun value hvalue _ => ?_⟩
    · rcases least with _ | a
      · exact absurd hvlt (not_lt.mpr (h value hvalue))
      · exact (hbelow a rfl).le.trans (h.2.2 value hvalue hvlt)
    · -- a value before it was left out, because the least one so far is not above it
      have hout := hbefore value hvalue
      simp only [Bool.not_eq_eq_eq_not, Bool.not_true, decide_eq_false_iff_not, not_and,
        not_forall, not_lt] at hout
      obtain ⟨a, ha, hle⟩ := hout hvlt
      exact (hbelow a ha).le.trans hle
    · exact rel_of_pairwise_cons (pairwise_append.mp hmore).2.1 hvalue

end

/-- The least of some values is the least of all if the others have one of them below. -/
theorem iff_of_subset {part : List α} (hsub : ∀ value ∈ part, value ∈ values)
    (h : LeastAbove bound part least) :
    LeastAbove bound values least ↔
      ∀ value ∈ values, bound < value → ∃ low ∈ part, bound < low ∧ low ≤ value := by
  rcases least with _ | a
  · refine ⟨fun hall value hvalue hlt => absurd hlt (not_lt.mpr (hall value hvalue)),
      fun hlow value hvalue => not_lt.mp fun hlt => ?_⟩
    obtain ⟨low, hmem, hbound, -⟩ := hlow value hvalue hlt
    exact absurd hbound (not_lt.mpr (h low hmem))
  · refine ⟨fun hall value hvalue hlt => ⟨a, h.1, h.2.1, hall.2.2 value hvalue hlt⟩,
      fun hlow => ⟨hsub a h.1, h.2.1, fun value hvalue hlt => ?_⟩⟩
    obtain ⟨low, hmem, hbound, hle⟩ := hlow value hvalue hlt
    exact (h.2.2 low hmem hbound).trans hle

end LeastAbove

/-- What is found from a bound on: the first value, the next one, and so on. -/
def nth (next : α → Option α) (bound : α) : ℕ → Option α
  | 0 => next bound
  | n + 1 => (nth next bound n).bind next

omit [LinearOrder α] in
theorem nth_succ (next : α → Option α) (bound : α) (n : ℕ) :
    nth next bound (n + 1) = (next bound).bind (nth next · n) := by
  induction n with
  | zero => rfl
  | succ n ih =>
    rw [nth, ih]
    rcases next bound with _ | a <;> rfl

variable {values : List α}

/-- One after the other, all values above the bound are found. -/
theorem exists_nth_eq {next : α → Option α} (h : ∀ bound, LeastAbove bound values (next bound))
    {bound value : α} (hvalue : value ∈ values) (hlt : bound < value) :
    ∃ n, nth next bound n = some value := by
  -- by induction on how many of the values are between
  induction hn : (values.filter fun v => bound < v ∧ v < value).length using
    Nat.strong_induction_on generalizing bound with
  | _ n ih =>
    have hleast := h bound
    rcases hnext : next bound with _ | a
    · rw [hnext] at hleast
      exact absurd hlt (not_lt.mpr (hleast value hvalue))
    rw [hnext] at hleast
    obtain ⟨ha, hbound, hle⟩ := hleast
    rcases (hle value hvalue hlt).eq_or_lt with rfl | hbefore
    · exact ⟨0, hnext⟩
    have hfewer : (values.filter fun v => a < v ∧ v < value).length < n := by
      have hfilter : (values.filter fun v => a < v ∧ v < value) =
          (values.filter fun v => bound < v ∧ v < value).filter fun v => a < v := by
        rw [filter_filter]
        refine filter_congr fun v _ => ?_
        rw [Bool.eq_iff_iff, Bool.and_eq_true, decide_eq_true_iff, decide_eq_true_iff,
          decide_eq_true_iff]
        exact ⟨fun ⟨hav, hv⟩ => ⟨hav, hbound.trans hav, hv⟩, fun ⟨hav, _, hv⟩ => ⟨hav, hv⟩⟩
      rw [← hn, hfilter]
      refine length_filter_lt_length_iff_exists.mpr
        ⟨a, mem_filter.mpr ⟨ha, decide_eq_true ⟨hbound, hbefore⟩⟩, ?_⟩
      rw [decide_eq_true_iff]
      exact lt_irrefl a
    obtain ⟨m, hm⟩ := ih _ hfewer hbefore rfl
    refine ⟨m + 1, ?_⟩
    rw [nth_succ, hnext]
    exact hm

/-! ## Zero for no value -/

variable [Zero α]

/-- The lowest value so far, where zero is for no value. -/
def lower (low t : α) : α := if t < low ∨ low = 0 then t else low

/-- The lowest of the values is zero. -/
def LeastIsZero (values : List α) : Prop := 0 ∈ values ∧ ∀ t ∈ values, 0 ≤ t

/-- What is found is the lowest value, or one after it if that is zero. -/
theorem foldl_lower_spec (h : values ≠ []) :
    values.foldl lower 0 ∈ values ∧ ((∀ t ∈ values, values.foldl lower 0 ≤ t) ∨
      (LeastIsZero values ∧ 0 < values.foldl lower 0)) := by
  induction values using reverseRecOn with
  | nil => contradiction
  | append_singleton values t ih =>
    rw [foldl_append, foldl_cons]
    generalize hlow : values.foldl lower 0 = low at ih ⊢
    have hmore {bound : α} (hall : ∀ u ∈ values, bound ≤ u) (hlast : bound ≤ t) :
        ∀ u ∈ values ++ [t], bound ≤ u :=
      forall_mem_append.mpr ⟨hall, forall_mem_singleton.mpr hlast⟩
    have ht : t ∈ values ++ [t] := mem_append_right _ (mem_singleton_self t)
    rcases eq_or_ne values [] with rfl | hne
    · obtain rfl : 0 = low := hlow
      rw [lower, if_pos (Or.inr rfl)]
      exact ⟨ht, Or.inl (hmore (forall_mem_nil _) (le_refl t))⟩
    obtain ⟨hmem, hleast⟩ := ih hne
    rw [lower]
    split
    · rename_i hlower
      refine ⟨ht, ?_⟩
      -- the lowest value may have been zero, which is then taken for none
      have hzero : (∀ u ∈ values, t ≤ u) ∨ LeastIsZero values := by
        rcases hleast with hleast | ⟨hzero, -⟩
        · rcases hlower with hlt | rfl
          · exact Or.inl fun u hu => hlt.le.trans (hleast u hu)
          · exact Or.inr ⟨hmem, hleast⟩
        · exact Or.inr hzero
      rcases hzero with hle | ⟨hzero, hall⟩
      · exact Or.inl (hmore hle (le_refl t))
      · rcases lt_or_ge 0 t with hpos | hneg
        · exact Or.inr ⟨⟨mem_append_left _ hzero, hmore hall hpos.le⟩, hpos⟩
        · exact Or.inl (hmore (fun u hu => hneg.trans (hall u hu)) (le_refl t))
    · rename_i hlower
      have hle : low ≤ t := not_lt.mp fun hlt => hlower (Or.inl hlt)
      refine ⟨mem_append_left _ hmem, ?_⟩
      rcases hleast with hleast | ⟨⟨hzero, hall⟩, hpos⟩
      · exact Or.inl (hmore hleast hle)
      · exact Or.inr ⟨⟨mem_append_left _ hzero, hmore hall (hpos.le.trans hle)⟩, hpos⟩

/-- Zero is found only if it is the last value. -/
theorem getLast?_of_foldl_lower (hne : values ≠ []) (h : values.foldl lower 0 = 0) :
    values.getLast? = some 0 := by
  rcases eq_nil_or_concat values with rfl | ⟨values, t, rfl⟩
  · contradiction
  rw [concat_eq_append] at h ⊢
  rw [foldl_append, foldl_cons, foldl_nil, lower] at h
  rw [getLast?_concat]
  split at h
  · rw [h]
  · rename_i hlower
    exact absurd (Or.inr h) hlower

/-- Zero is found if it is the last value and no value is lower. -/
theorem foldl_lower_of_getLast? (hall : ∀ t ∈ values, 0 ≤ t) (h : values.getLast? = some 0) :
    values.foldl lower 0 = 0 := by
  rcases eq_nil_or_concat values with rfl | ⟨values, t, rfl⟩
  · rfl
  rw [concat_eq_append] at h hall ⊢
  rw [getLast?_concat] at h
  obtain rfl := Option.some.inj h
  rw [foldl_append, foldl_cons, lower]
  rcases eq_or_ne values [] with rfl | hne
  · exact if_pos (Or.inr rfl)
  · have hlow := (forall_mem_append.mp hall).1 _ (foldl_lower_spec hne).1
    exact if_pos (hlow.lt_or_eq.imp_right Eq.symm)

/-- The least value is found, if it is not zero or comes last. -/
theorem foldl_lower_le (h : LeastIsZero values → values.getLast? = some 0) :
    ∀ t ∈ values, values.foldl lower 0 ≤ t := by
  rcases eq_or_ne values [] with rfl | hne
  · exact forall_mem_nil _
  rcases (foldl_lower_spec hne).2 with hle | ⟨hzero, -⟩
  · exact hle
  · rw [foldl_lower_of_getLast? hzero.2 (h hzero)]
    exact hzero.2

/-- Zero is the least value if it is the least of those below which no other is. -/
theorem leastIsZero_iff {lows : List α} (hsub : ∀ low ∈ lows, low ∈ values)
    (hlow : ∀ value ∈ values, ∃ low ∈ lows, low ≤ value) :
    LeastIsZero lows ↔ LeastIsZero values := by
  refine ⟨fun ⟨hzero, hall⟩ => ⟨hsub 0 hzero, fun value hvalue => ?_⟩,
    fun ⟨hzero, hall⟩ => ⟨?_, fun low hlow => hall low (hsub low hlow)⟩⟩
  · obtain ⟨low, hlow, hle⟩ := hlow value hvalue
    exact (hall low hlow).trans hle
  · obtain ⟨low, hlow, hle⟩ := hlow 0 hzero
    rwa [hle.antisymm (hall low (hsub low hlow))] at hlow

end Inworkspace.Lib.Extremum
