import Mathlib.Data.List.Basic
import Mathlib.Data.List.Infix
import Mathlib.Data.List.Nodup

/-!
# Collecting loops

A loop that appends each element its accumulator does not hold yet. The result lists
the elements of the accumulator and of the input without repetition, those of the
input in the order of their first occurrences, and more input only appends to it.
Loops that append a value for each accepted element are a filter and a map.
-/

namespace Bowfolio

variable {α : Type} [DecidableEq α]

/-- Append an element that is not in the list. -/
def appendMissing (collected : List α) (item : α) : List α :=
  if item ∈ collected then collected else collected ++ [item]

/-- Append the elements in order, each unless the list holds it already. -/
def collect (collected items : List α) : List α :=
  items.foldl appendMissing collected

variable {collected items : List α} {item : α}

@[simp] theorem appendMissing_of_mem (held : item ∈ collected) :
    appendMissing collected item = collected :=
  if_pos held

@[simp] theorem appendMissing_of_not_mem (missing : item ∉ collected) :
    appendMissing collected item = collected ++ [item] :=
  if_neg missing

/-- Adding an item adds it and no other. -/
theorem mem_appendMissing {other : α} :
    other ∈ appendMissing collected item ↔ other ∈ collected ∨ other = item := by
  by_cases held : item ∈ collected
  · rw [appendMissing_of_mem held]
    exact ⟨Or.inl, fun either => either.elim id fun same => same ▸ held⟩
  · simp [held]

/-- Adding keeps the items distinct. -/
theorem nodup_appendMissing (nodup : collected.Nodup) : (appendMissing collected item).Nodup := by
  by_cases held : item ∈ collected
  · simpa [held] using nodup
  · rw [appendMissing_of_not_mem held, ← List.concat_eq_append]
    exact nodup.concat held

/-- Adding only extends the list at its end. -/
theorem prefix_appendMissing : collected <+: appendMissing collected item := by
  by_cases held : item ∈ collected <;> simp [held]

@[simp] theorem collect_nil (collected : List α) : collect collected [] = collected := rfl

theorem collect_cons (collected items : List α) (item : α) :
    collect collected (item :: items) = collect (appendMissing collected item) items := rfl

theorem collect_append (collected first second : List α) :
    collect collected (first ++ second) = collect (collect collected first) second :=
  List.foldl_append

/-- Collecting list after list collects their concatenation. -/
theorem foldl_collect {Record : Type} (listed : Record → List α) (records : List Record)
    (collected : List α) :
    records.foldl (fun collected record => collect collected (listed record)) collected =
      collect collected (records.flatMap listed) := by
  induction records generalizing collected with
  | nil => rfl
  | cons record records ih =>
      rw [List.foldl_cons, ih, List.flatMap_cons, collect_append]

/-- Exactly the old and the given items are collected. -/
theorem mem_collect {other : α} :
    other ∈ collect collected items ↔ other ∈ collected ∨ other ∈ items := by
  induction items generalizing collected with
  | nil => simp
  | cons item items ih => rw [collect_cons, ih, mem_appendMissing, List.mem_cons, or_assoc]

/-- Collecting keeps the items distinct, whatever repeats in the given ones. -/
theorem nodup_collect (nodup : collected.Nodup) : (collect collected items).Nodup := by
  induction items generalizing collected with
  | nil => exact nodup
  | cons item items ih => exact ih (nodup_appendMissing nodup)

/-- More input only appends. -/
theorem prefix_collect : collected <+: collect collected items := by
  induction items generalizing collected with
  | nil => exact List.prefix_rfl
  | cons item items ih => exact prefix_appendMissing.trans ih

/-- The collected elements that were not there before are appended, each once. -/
theorem collect_eq_append (collected items : List α) :
    ∃ added : List α, collect collected items = collected ++ added ∧ added.Nodup ∧
      ∀ other, other ∈ added ↔ other ∉ collected ∧ other ∈ items := by
  induction items generalizing collected with
  | nil => exact ⟨[], (List.append_nil _).symm, List.nodup_nil, by simp⟩
  | cons item items ih =>
      rw [collect_cons]
      by_cases held : item ∈ collected
      · rw [appendMissing_of_mem held]
        obtain ⟨added, result, nodup, members⟩ := ih collected
        refine ⟨added, result, nodup, fun other => (members other).trans ?_⟩
        rw [List.mem_cons]
        refine and_congr_right fun missing => (or_iff_right ?_).symm
        exact fun same => missing (same ▸ held)
      · rw [appendMissing_of_not_mem held]
        obtain ⟨added, result, nodup, members⟩ := ih (collected ++ [item])
        have later : item ∉ added := fun member =>
          ((members item).mp member).1 (List.mem_append_right _ (List.mem_singleton.mpr rfl))
        refine ⟨item :: added, by rw [result, List.append_assoc, List.singleton_append],
          List.nodup_cons.mpr ⟨later, nodup⟩, fun other => ?_⟩
        by_cases same : other = item
        · subst same
          exact iff_of_true List.mem_cons_self ⟨held, List.mem_cons_self⟩
        · simp [members, same]

/-- Renaming all elements apart renames the collected list. -/
theorem collect_map {β : Type} [DecidableEq β] {f : α → β} (injective : Function.Injective f)
    (collected items : List α) :
    collect (collected.map f) (items.map f) = (collect collected items).map f := by
  induction items generalizing collected with
  | nil => rfl
  | cons item items ih =>
      rw [List.map_cons, collect_cons, collect_cons, ← ih]
      by_cases held : item ∈ collected
      · rw [appendMissing_of_mem held, appendMissing_of_mem (List.mem_map_of_mem held)]
      · have missing : f item ∉ collected.map f := by
          rwa [List.mem_map_of_injective injective]
        rw [appendMissing_of_not_mem held, appendMissing_of_not_mem missing, List.map_append,
          List.map_singleton]

/-- Items that are all held already change nothing. -/
theorem collect_of_subset (held : ∀ other ∈ items, other ∈ collected) :
    collect collected items = collected := by
  induction items with
  | nil => rfl
  | cons item items ih =>
      rw [collect_cons, appendMissing_of_mem (held item List.mem_cons_self)]
      exact ih fun other member => held other (List.mem_cons_of_mem _ member)

/-- **First occurrences.** The collected elements stand in the order of their first
occurrences in the input. -/
theorem pairwise_idxOf_collect (items : List α) :
    (collect [] items).Pairwise fun first second => items.idxOf first < items.idxOf second := by
  induction items using List.reverseRecOn with
  | nil => exact List.Pairwise.nil
  | append_singleton items item ih =>
      -- An element of the collected list occurs in `items`, so its index stays.
      have kept : (collect [] items).Pairwise fun first second =>
          (items ++ [item]).idxOf first < (items ++ [item]).idxOf second := by
        refine ih.imp_of_mem fun {first second} one other before => ?_
        have firstHeld : first ∈ items := by simpa using mem_collect.mp one
        have secondHeld : second ∈ items := by simpa using mem_collect.mp other
        rwa [List.idxOf_append_of_mem firstHeld, List.idxOf_append_of_mem secondHeld]
      rw [collect_append, collect_cons, collect_nil]
      by_cases held : item ∈ collect [] items
      · rwa [appendMissing_of_mem held]
      · rw [appendMissing_of_not_mem held]
        refine List.pairwise_append.mpr ⟨kept, List.pairwise_singleton _ _, ?_⟩
        intro first member second last
        have same : second = item := List.mem_singleton.mp last
        have firstHeld : first ∈ items := by simpa using mem_collect.mp member
        have missing : item ∉ items := by simpa [mem_collect] using held
        subst same
        rw [List.idxOf_append_of_mem firstHeld, List.idxOf_append_of_notMem missing]
        exact lt_of_lt_of_le (List.idxOf_lt_length_of_mem firstHeld) (Nat.le_add_right ..)

/-! ## Filtering loops -/

section Filtering

variable {Item Value : Type}

/-- A loop that sets a flag at an accepted element. -/
theorem foldl_flag (accepts : Item → Bool) (items : List Item) (flag : Bool) :
    items.foldl (fun flag item => if accepts item then true else flag) flag =
      (flag || items.any accepts) := by
  induction items generalizing flag with
  | nil => simp
  | cons item items ih =>
      rw [List.foldl_cons, ih, List.any_cons]
      cases accepts item <;> simp

/-- A loop that appends a value for each accepted element. -/
theorem foldl_append_value (accepts : Item → Bool) (value : Item → Value) (items : List Item)
    (result : List Value) :
    items.foldl (fun result item => if accepts item then result ++ [value item] else result)
        result = result ++ (items.filter accepts).map value := by
  induction items generalizing result with
  | nil => simp
  | cons item items ih =>
      rw [List.foldl_cons, ih]
      cases accepted : accepts item <;> simp [accepted]

end Filtering

end Bowfolio
