import Bowfolio.Foundation.LineOverlap
import Bowfolio.View.ChipLayout

/-!
# Overlapping chips

At a line break `generateContent` moves `height` by the height of the chip that breaks the
line, not by that of the line it ends. A chip that wraps its text is higher than the chips
around it, and reaches into the lines below its own unless their first chips add up to its
height (`chipsApart_iff`).
-/

namespace Bowfolio

namespace GenerateContent

variable {R : Type} [CommRing R] [LinearOrder R]

/-- No two chips overlap in the layout pass that starts with both variables at zero. -/
def ChipsApart (size : R) (chips : List (Chip R)) : Prop :=
  (positions size chips 0).Pairwise fun box other =>
    ¬ box.Overlaps Chip.width Chip.height other

instance (size : R) (chips : List (Chip R)) : Decidable (ChipsApart size chips) :=
  inferInstanceAs (Decidable (List.Pairwise _ _))

variable {size : R} {chips : List (Chip R)}

/-- Chips of positive size on greedy lines. -/
theorem positive_greedyLines (fits : ∀ chip ∈ chips, 0 < chip.width ∧ chip.width ≤ size)
    (high : ∀ chip ∈ chips, 0 < chip.height) :
    ∀ line ∈ greedyLines Chip.width size chips, ∀ chip ∈ line,
      0 < chip.width ∧ 0 < chip.height := by
  intro line member chip held
  have greedy := greedyLines_greedyLines fun chip member => (fits chip member).2
  have listed : chip ∈ chips := by
    rw [← greedy.flatten]
    exact List.mem_flatten_of_mem member held
  exact ⟨(fits chip listed).1, high chip listed⟩

variable [IsStrictOrderedRing R]

/-- A layout pass from zero places the chips on the greedy lines. -/
theorem positions_eq_placeLines (distinct : (chips.map Chip.selectedItem).Nodup)
    (fits : ∀ chip ∈ chips, 0 < chip.width ∧ chip.width ≤ size) :
    positions size chips 0 =
      (placeLines Chip.width Chip.height 0 (greedyLines Chip.width size chips)).flatten := by
  rw [positions_eq_flow distinct fun chip member => (fits chip member).1.le]
  exact flow_eq_flatten_placeLines fun chip member => (fits chip member).2

/-- **When chips overlap.** Chips of distinct items and of positive size that each fit in
the container do not overlap exactly when every chip is at most as high as the first chips
of the lines after its own together, up to any line that is longer than its left edge. -/
theorem chipsApart_iff (distinct : (chips.map Chip.selectedItem).Nodup)
    (fits : ∀ chip ∈ chips, 0 < chip.width ∧ chip.width ≤ size)
    (high : ∀ chip ∈ chips, 0 < chip.height) :
    ChipsApart size chips ↔
      ClearsLines Chip.width Chip.height (greedyLines Chip.width size chips) := by
  rw [ChipsApart, positions_eq_placeLines distinct fits]
  exact pairwise_placeLines_iff (positive_greedyLines fits high)

/-- Two chips on a line and a higher one on the next. -/
def brokenChips : List (Chip Int) :=
  [⟨"Biology", 160, 32⟩, ⟨"HPC", 60, 32⟩, ⟨"Collaborative data analysis", 290, 56⟩]

/-- Three chips on two lines stay apart. -/
theorem chipsApart_iff_brokenChips :
    (greedyLines Chip.width 300 brokenChips).length = 2 ∧ ChipsApart 300 brokenChips := by
  refine ⟨by decide, (chipsApart_iff (by decide) (by decide) (by decide)).mpr ?_⟩
  decide

/-- A chip that wraps its text, followed by one that does not. -/
def wrappedChips : List (Chip Int) :=
  [⟨"Collaborative analysis of large data sets", 290, 56⟩, ⟨"HPC", 60, 32⟩]

/-- The second chip starts above the lower edge of the first one. -/
theorem not_chipsApart_wrappedChips :
    (wrappedChips.map Chip.selectedItem).Nodup ∧
      (∀ chip ∈ wrappedChips, 0 < chip.width ∧ chip.width ≤ 300 ∧ 0 < chip.height) ∧
      ¬ ChipsApart 300 wrappedChips := by
  decide

/-- Chips in the order of their heights, as chips of one height are, do not overlap. -/
theorem chipsApart_of_sorted (distinct : (chips.map Chip.selectedItem).Nodup)
    (fits : ∀ chip ∈ chips, 0 < chip.width ∧ chip.width ≤ size)
    (high : ∀ chip ∈ chips, 0 < chip.height)
    (sorted : chips.Pairwise fun chip other => chip.height ≤ other.height) :
    ChipsApart size chips := by
  have greedy := greedyLines_greedyLines fun chip member => (fits chip member).2
  have positive := positive_greedyLines fits high
  rw [ChipsApart, positions_eq_placeLines distinct fits]
  refine (pairwise_placeLines_iff positive).mpr (clearsLines_of_sorted positive greedy.nonempty ?_)
  rwa [greedy.flatten]

end GenerateContent

end Bowfolio
