import Mathlib.Data.List.Sort
import Mathlib.Order.Lex
import Mathlib.Data.List.Lex

/-!
# Ordered scans

A scan over entries in key order starts at a key and ends before the first key that is
not accepted. When the accepted keys form an interval from the start, the scan finds
all of them (`scanFrom_eq_filter`). The lists with a common prefix are such an interval.
Entries with consecutive numbers are found by their position, and a set of numbers in
order picks the entries in order (`filterMap_find_eq_filter`).
-/

namespace Bowfolio

section Scan

variable {Entry Key : Type} [LinearOrder Key]

/-- The entries from `start` on, as long as their keys are accepted. -/
def scanFrom (key : Entry → Key) (entries : List Entry) (start : Key) (accepts : Key → Bool) :
    List Entry :=
  (entries.dropWhile fun entry => key entry < start).takeWhile fun entry => accepts (key entry)

/-- The accepted keys are the first ones from `start` on. -/
structure Interval (start : Key) (accepts : Key → Bool) : Prop where
  above : ∀ key, accepts key → start ≤ key
  closed : ∀ key other, start ≤ key → key ≤ other → accepts other → accepts key

variable {key : Entry → Key} {entries : List Entry} {start : Key} {accepts : Key → Bool}

/-- A scan of sorted keys from the start of an interval finds all accepted entries. -/
theorem takeWhile_eq_filter (interval : Interval start accepts)
    (sorted : entries.Pairwise fun first second => key first ≤ key second)
    (above : ∀ entry ∈ entries, start ≤ key entry) :
    entries.takeWhile (fun entry => accepts (key entry)) =
      entries.filter fun entry => accepts (key entry) := by
  induction entries with
  | nil => rfl
  | cons entry entries ih =>
      obtain ⟨first, sorted⟩ := List.pairwise_cons.mp sorted
      have rest := ih sorted fun other member => above other (List.mem_cons_of_mem _ member)
      rw [List.takeWhile_cons, List.filter_cons, rest]
      split
      · rfl
      · next rejected =>
          refine (List.filter_eq_nil_iff.mpr fun other member later => rejected ?_).symm
          exact interval.closed _ _ (above entry List.mem_cons_self) (first other member) later

/-- **Ordered scans.** A scan over an interval finds every accepted entry. -/
theorem scanFrom_eq_filter (interval : Interval start accepts)
    (sorted : entries.Pairwise fun first second => key first ≤ key second) :
    scanFrom key entries start accepts = entries.filter fun entry => accepts (key entry) := by
  induction entries with
  | nil => rfl
  | cons entry entries ih =>
      obtain ⟨first, rest⟩ := List.pairwise_cons.mp sorted
      by_cases before : key entry < start
      · have rejected : ¬ accepts (key entry) := fun accepted =>
          absurd (interval.above _ accepted) (not_le.mpr before)
        rw [List.filter_cons, if_neg rejected, ← ih rest, scanFrom, scanFrom, List.dropWhile_cons,
          if_pos (decide_eq_true before)]
      · have stop : ¬ (decide (key entry < start) = true) := by simpa using before
        rw [scanFrom, List.dropWhile_cons, if_neg stop]
        refine takeWhile_eq_filter interval sorted fun other member => ?_
        rcases List.mem_cons.mp member with rfl | later
        · exact not_lt.mp before
        · exact (not_lt.mp before).trans (first other later)

end Scan

/-! ## Common prefixes -/

section Prefixes

variable {Segment : Type} [LinearOrder Segment] {path first second : List Segment}

/-- A list comes before all of its extensions. -/
theorem le_of_isPrefix (extended : path <+: first) : path ≤ first := by
  obtain ⟨rest, rfl⟩ := extended
  induction path with
  | nil => exact not_lt.mp (List.not_lt_nil _)
  | cons head path ih => exact List.cons_le_cons head ih

/-- A common beginning does not change the order. -/
theorem append_le_append (path : List Segment) (below : first ≤ second) :
    path ++ first ≤ path ++ second := by
  induction path with
  | nil => exact below
  | cons head path ih => exact List.cons_le_cons head ih

/-- A list whose head is not below a segment comes after that segment alone. -/
theorem singleton_le_cons {least head : Segment} (below : least ≤ head) (rest : List Segment) :
    [least] ≤ head :: rest := by
  rcases lt_or_eq_of_le below with before | rfl
  · exact le_of_lt (List.cons_lt_cons_iff.mpr (.inl before))
  · exact le_of_isPrefix (List.prefix_append [least] rest)

/-- What lies between a path and one of its extensions extended it too. -/
theorem isPrefix_of_between (above : path ≤ first) (below : first ≤ second)
    (extended : path <+: second) : path <+: first := by
  obtain ⟨rest, rfl⟩ := extended
  induction path generalizing first with
  | nil => exact List.nil_prefix
  | cons head path ih =>
      cases first with
      | nil => exact absurd (List.nil_lt_cons head path) (not_lt.mpr above)
      | cons other first =>
          have lower := not_lt.mpr above
          have upper := not_lt.mpr below
          rw [List.cons_append, List.cons_lt_cons_iff, not_or, not_and] at upper
          rw [List.cons_lt_cons_iff, not_or, not_and] at lower
          have same : head = other := le_antisymm (not_lt.mp lower.1) (not_lt.mp upper.1)
          subst same
          exact (List.prefix_cons_inj _).mpr
            (ih (not_lt.mp (lower.2 rfl)) (not_lt.mp (upper.2 rfl)))

end Prefixes

/-! ## Consecutive numbers -/

section Numbers

variable {Entry : Type} {number : Entry → Nat} {first : Nat} {entries : List Entry}

/-- The entries are numbered consecutively from `first` on. -/
def Consecutive (number : Entry → Nat) (first : Nat) (entries : List Entry) : Prop :=
  entries.map number = List.range' first entries.length

theorem Consecutive.cons_iff {entry : Entry} :
    Consecutive number first (entry :: entries) ↔
      number entry = first ∧ Consecutive number (first + 1) entries := by
  rw [Consecutive, List.map_cons, List.length_cons, List.range'_succ, List.cons.injEq, Consecutive]

/-- The next number may be added at the end. -/
theorem Consecutive.append_singleton {entry : Entry} (numbered : Consecutive number first entries)
    (next : number entry = first + entries.length) :
    Consecutive number first (entries ++ [entry]) := by
  rw [Consecutive, List.map_append, numbered, List.map_singleton, next, List.length_append,
    List.length_singleton, List.range'_concat, Nat.one_mul]

/-- The numbers range from the first over the length of the list. -/
theorem Consecutive.number_mem (numbered : Consecutive number first entries) {entry : Entry}
    (member : entry ∈ entries) : first ≤ number entry ∧ number entry < first + entries.length := by
  have listed : number entry ∈ entries.map number := List.mem_map_of_mem member
  rw [numbered, List.mem_range'_1] at listed
  exact listed

theorem Consecutive.sorted (numbered : Consecutive number first entries) :
    entries.Pairwise fun first second => number first < number second := by
  have ordered : (entries.map number).Pairwise (· < ·) := by
    rw [numbered]
    exact List.pairwise_lt_range'
  exact List.pairwise_map.mp ordered

/-- A number gives the position of its entry. -/
theorem Consecutive.find_number (numbered : Consecutive number first entries) (wanted : Nat) :
    entries.find? (fun entry => number entry = wanted) =
      if first ≤ wanted then entries[wanted - first]? else none := by
  induction entries generalizing first with
  | nil => simp
  | cons entry entries ih =>
      obtain ⟨own, rest⟩ := Consecutive.cons_iff.mp numbered
      rw [List.find?_cons, ih rest]
      by_cases same : number entry = wanted
      · have first_eq : wanted = first := same.symm.trans own
        simp [same, first_eq]
      · have apart : wanted ≠ first := fun equal => same (own.trans equal.symm)
        simp only [same, decide_false]
        by_cases later : first + 1 ≤ wanted
        · have position : wanted - first = (wanted - (first + 1)) + 1 := by omega
          rw [if_pos later, if_pos (by omega), position, List.getElem?_cons_succ]
        · rw [if_neg later, if_neg (by omega)]

/-- The first entry with a number from `wanted` on. -/
theorem Consecutive.find_from (numbered : Consecutive number first entries) (wanted : Nat) :
    entries.find? (fun entry => wanted ≤ number entry) = entries[wanted - first]? := by
  induction entries generalizing first with
  | nil => rfl
  | cons entry entries ih =>
      obtain ⟨own, rest⟩ := Consecutive.cons_iff.mp numbered
      rw [List.find?_cons, ih rest, own]
      by_cases reached : wanted ≤ first
      · rw [Nat.sub_eq_zero_of_le reached]
        simp [reached]
      · have position : wanted - first = (wanted - (first + 1)) + 1 := by omega
        simp only [reached, decide_false]
        rw [position, List.getElem?_cons_succ]

/-- Every entry is found by its number. -/
theorem find_of_mem (sorted : entries.Pairwise fun first second => number first < number second)
    {entry : Entry} (member : entry ∈ entries) :
    entries.find? (fun other => number other = number entry) = some entry := by
  induction entries with
  | nil => exact absurd member List.not_mem_nil
  | cons head entries ih =>
      obtain ⟨above, sorted⟩ := List.pairwise_cons.mp sorted
      rw [List.find?_cons]
      rcases List.mem_cons.mp member with rfl | later
      · simp
      · have apart : number head ≠ number entry := Nat.ne_of_lt (above entry later)
        simp only [apart, decide_false]
        exact ih sorted later

/-- Numbers in order are those of the entries that carry them, in order. -/
theorem eq_map_filter (sorted : entries.Pairwise fun first second => number first < number second)
    {numbers : List Nat} (ordered : numbers.Pairwise (· < ·)) {chosen : Entry → Bool}
    (carried : ∀ wanted,
      wanted ∈ numbers ↔ ∃ entry ∈ entries, number entry = wanted ∧ chosen entry) :
    numbers = (entries.filter chosen).map number := by
  have filtered : ((entries.filter chosen).map number).Pairwise (· < ·) :=
    List.pairwise_map.mpr (sorted.filter _)
  refine ordered.eq_of_mem_iff filtered fun wanted => ?_
  rw [carried, List.mem_map]
  simp only [List.mem_filter]
  exact exists_congr fun entry => by tauto

/-- **Numbers in order.** Looking up numbers in order picks the chosen entries in order. -/
theorem filterMap_find_eq_filter
    (sorted : entries.Pairwise fun first second => number first < number second)
    {numbers : List Nat} (ordered : numbers.Pairwise (· < ·)) {chosen : Entry → Bool}
    (carried : ∀ wanted,
      wanted ∈ numbers ↔ ∃ entry ∈ entries, number entry = wanted ∧ chosen entry) :
    (numbers.filterMap fun wanted => entries.find? fun entry => number entry = wanted) =
      entries.filter chosen := by
  rw [eq_map_filter sorted ordered carried, List.filterMap_map]
  have found : ∀ entry ∈ entries.filter chosen,
      ((fun wanted => entries.find? fun other => number other = wanted) ∘ number) entry =
        some entry :=
    fun entry member => find_of_mem sorted (List.mem_filter.mp member).1
  rw [List.filterMap_congr found, List.filterMap_some]

/-- Looking up the numbers of entries gives the entries. -/
theorem mapM_find (sorted : entries.Pairwise fun first second => number first < number second)
    {chosen : List Entry} (listed : ∀ entry ∈ chosen, entry ∈ entries) :
    ((chosen.map number).mapM fun wanted => entries.find? fun entry => number entry = wanted) =
      some chosen := by
  induction chosen with
  | nil => rfl
  | cons entry chosen ih =>
      rw [List.map_cons, List.mapM_cons, find_of_mem sorted (listed entry List.mem_cons_self),
        ih fun other member => listed other (List.mem_cons_of_mem _ member)]
      rfl

end Numbers

end Bowfolio
