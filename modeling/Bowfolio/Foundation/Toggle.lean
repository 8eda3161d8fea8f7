import Mathlib.Algebra.Ring.Parity
import Mathlib.Data.List.Basic
import Mathlib.Data.List.Nodup
import Mathlib.Tactic.Tauto

/-!
# Toggled selections

A selection is a list without repetition in the order of choice. Toggling removes
an element that is selected and appends one that is not. After any sequence of
toggles an element is selected according to the parity of its toggles, and the
elements that were never toggled are listed as before.
-/

namespace Bowfolio

variable {α : Type} [DecidableEq α]

/-- Remove a selected element or append an unselected one. -/
def toggle (selected : List α) (item : α) : List α :=
  if item ∈ selected then selected.erase item else selected ++ [item]

/-- Toggle the listed elements in order. -/
def toggleAll (selected items : List α) : List α :=
  items.foldl toggle selected

theorem toggle_of_mem {selected : List α} {item : α} (member : item ∈ selected) :
    toggle selected item = selected.erase item :=
  if_pos member

theorem toggle_of_not_mem {selected : List α} {item : α} (absent : item ∉ selected) :
    toggle selected item = selected ++ [item] :=
  if_neg absent

/-- A toggle keeps the selected items distinct. -/
theorem nodup_toggle {selected : List α} (nodup : selected.Nodup) (item : α) :
    (toggle selected item).Nodup := by
  unfold toggle
  split_ifs with member
  · exact nodup.erase item
  · exact List.nodup_append.mpr ⟨nodup, List.nodup_singleton item, by
      intro other listed _ last same
      exact member (List.mem_singleton.mp last ▸ same ▸ listed)⟩

/-- One toggle flips the toggled element and no other. -/
theorem mem_toggle {selected : List α} (nodup : selected.Nodup) {item other : α} :
    other ∈ toggle selected item ↔ Xor (other ∈ selected) (other = item) := by
  rw [xor_iff_iff_not]
  by_cases member : item ∈ selected
  · rw [toggle_of_mem member, nodup.mem_erase_iff]
    by_cases same : other = item
    · subst same
      simp only [ne_eq, not_true_eq_false, false_and, member, iff_false, not_true_eq_false]
    · simp only [ne_eq, same, not_false_eq_true, true_and, iff_true]
  · rw [toggle_of_not_mem member, List.mem_append, List.mem_singleton]
    by_cases same : other = item
    · subst same
      simp only [member, or_true, not_true_eq_false]
    · simp only [same, or_false, not_false_eq_true, iff_true]

/-- A toggle keeps the listing of the elements that `kept` selects when it does not
select the toggled one. -/
theorem filter_toggle {selected : List α} {item : α} {kept : α → Bool} (apart : kept item = false) :
    (toggle selected item).filter kept = selected.filter kept := by
  unfold toggle
  split_ifs with member
  · rw [← List.erase_filter, List.erase_of_not_mem]
    exact fun listed => Bool.false_ne_true (apart.symm.trans (List.mem_filter.mp listed).2)
  · rw [List.filter_append, List.filter_cons_of_neg (by simp only [apart, Bool.false_eq_true,
      not_false_eq_true]), List.filter_nil, List.append_nil]

/-- **Parity.** An element is selected in the end exactly when being selected at
the start differs from being toggled an odd number of times. -/
theorem mem_toggleAll {selected : List α} (nodup : selected.Nodup) (items : List α) (other : α) :
    other ∈ toggleAll selected items ↔ Xor (other ∈ selected) (Odd (items.count other)) := by
  induction items generalizing selected with
  | nil => simp only [toggleAll, List.foldl_nil, List.count_nil, Nat.not_odd_zero, xor_iff_iff_not,
      not_false_eq_true, iff_true]
  | cons item items ih =>
      have tail := ih (nodup_toggle nodup item)
      rw [mem_toggle nodup] at tail
      refine tail.trans ?_
      rw [List.count_cons]
      by_cases same : other = item
      · subst same
        simp only [BEq.rfl, ↓reduceIte, Nat.odd_add_one, xor_iff_iff_not]
        tauto
      · have different : (item == other) = false := beq_false_of_ne (Ne.symm same)
        simp only [same, different, Bool.false_eq_true, ↓reduceIte, Nat.add_zero, xor_iff_iff_not]
        tauto

/-- The elements that no toggle touches keep their listing. -/
theorem filter_toggleAll {selected : List α} {items : List α} {kept : α → Bool}
    (apart : ∀ item ∈ items, kept item = false) :
    (toggleAll selected items).filter kept = selected.filter kept := by
  induction items generalizing selected with
  | nil => rfl
  | cons item items ih =>
      have tail : (toggleAll (toggle selected item) items).filter kept =
          (toggle selected item).filter kept :=
        ih fun other member => apart other (List.mem_cons_of_mem _ member)
      exact tail.trans (filter_toggle (apart item List.mem_cons_self))

end Bowfolio
