import Mathlib.Algebra.Order.Group.Unbundled.Abs
import Mathlib.Data.Int.Order.Basic
import Mathlib.Algebra.Order.Ring.Int
import Mathlib.Logic.Function.Iterate
import Bowfolio.Foundation.LineBreaking

/-!
# The layout of the chips

`generateContent` aligns the selected interests in a `ZStack`: the guides of every chip
read and write two variables that all guides share, and the last chip sets them back. The
chips stand on the greedy lines of the container's width, in every layout pass
(`positions_greedy`).
-/

namespace Bowfolio

variable {R : Type}

/-- A chip: the selected item it shows and the dimensions of its view. -/
structure Chip (R : Type) where
  selectedItem : String
  width : R
  height : R
  deriving DecidableEq, Repr

/-- The variables `width` and `height` of `generateContent`. -/
structure Guides (R : Type) where
  width : R
  height : R
  deriving DecidableEq, Repr

/-- A chip with the values of its guides. -/
structure Alignment (R : Type) where
  chip : Chip R
  leading : R
  top : R
  deriving DecidableEq, Repr

namespace GenerateContent

variable [CommRing R] [LinearOrder R]

/-- The alignment guide `.leading` of a chip. -/
def leadingGuide (size : R) (selectedArray : List String) (d : Chip R) (guides : Guides R) :
    R × Guides R :=
  let guides := if |guides.width - d.width| > size then ⟨0, guides.height - d.height⟩ else guides
  let result := guides.width
  -- `last!` does not trap: the array holds the item of the chip.
  if some d.selectedItem = selectedArray.getLast? then (result, { guides with width := 0 })
  else (result, { guides with width := guides.width - d.width })

/-- The alignment guide `.top` of a chip. -/
def topGuide (selectedArray : List String) (d : Chip R) (guides : Guides R) : R × Guides R :=
  let result := guides.height
  if some d.selectedItem = selectedArray.getLast? then (result, { guides with height := 0 })
  else (result, guides)

/-- Both guides of every chip, in list order. -/
def align (size : R) (selectedArray : List String) :
    List (Chip R) → Guides R → List (Alignment R) × Guides R
  | [], guides => ([], guides)
  | d :: chips, guides =>
      let (leading, guides) := leadingGuide size selectedArray d guides
      let (top, guides) := topGuide selectedArray d guides
      let (aligned, guides) := align size selectedArray chips guides
      (⟨d, leading, top⟩ :: aligned, guides)

/-- One layout pass in a container of the width `size`. -/
def layoutPass (size : R) (chips : List (Chip R)) (guides : Guides R) :
    List (Alignment R) × Guides R :=
  align size (chips.map Chip.selectedItem) chips guides

/-- The variables after a number of layout passes. -/
def guidesAfter (size : R) (chips : List (Chip R)) (passes : Nat) : Guides R :=
  (fun guides => (layoutPass size chips guides).2)^[passes] ⟨0, 0⟩

end GenerateContent

/-- Where the `ZStack` puts a chip: the guides are aligned at its leading and top edges. -/
def Alignment.box [CommRing R] (aligned : Alignment R) : Box (Chip R) R :=
  ⟨aligned.chip, -aligned.leading, -aligned.top⟩

namespace GenerateContent

variable [CommRing R] [LinearOrder R]

/-- The chips as the layout pass after a number of passes places them. -/
def positions (size : R) (chips : List (Chip R)) (passes : Nat) : List (Box (Chip R) R) :=
  (layoutPass size chips (guidesAfter size chips passes)).1.map Alignment.box

/-- The chips on the greedy lines: each inside the container, the first at its corner, and
each next one directly after the one before it when it fits there, and otherwise at the
start of a line. -/
structure OnGreedyLines (size : R) (chips : List (Chip R)) (boxes : List (Box (Chip R) R)) :
    Prop where
  lines : ∃ lines, GreedyLines Chip.width size chips lines ∧
    boxes = (placeLines Chip.width Chip.height 0 lines).flatten
  within : ∀ box ∈ boxes, 0 ≤ box.left ∧ box.left + box.item.width ≤ size
  corner : ∀ box ∈ boxes.head?, box.left = 0 ∧ box.upper = 0
  next : boxes.IsChain (Box.Precedes Chip.width Chip.height size)

variable {size x y : R} {selectedArray : List String} {d : Chip R} {chips : List (Chip R)}

omit [CommRing R] [LinearOrder R] in
/-- Among distinct items only the last one is the last. -/
theorem getLast?_of_cons (distinct : ((d :: chips).map Chip.selectedItem).Nodup)
    (more : chips ≠ []) :
    ((d :: chips).map Chip.selectedItem).getLast? = (chips.map Chip.selectedItem).getLast? ∧
      some d.selectedItem ≠ (chips.map Chip.selectedItem).getLast? := by
  cases chips with
  | nil => exact absurd rfl more
  | cons other chips =>
      refine ⟨by simp, fun last => ?_⟩
      exact (List.nodup_cons.mp distinct).1 (List.mem_of_getLast? last.symm)

variable [IsStrictOrderedRing R]

theorem abs_guide (reach : 0 ≤ x + d.width) : |-x - d.width| = x + d.width := by
  rw [← neg_add', abs_neg, abs_of_nonneg reach]

/-- The guides of one chip place it as the next item of the flow, and leave the point
behind it, or zero after the last item. -/
theorem align_cons (reach : 0 ≤ x + d.width) (y : R) (chips : List (Chip R)) :
    align size selectedArray (d :: chips) ⟨-x, -y⟩ =
      let box := place Chip.width Chip.height size x y d
      let rest := align size selectedArray chips
        (if some d.selectedItem = selectedArray.getLast? then ⟨0, 0⟩
          else ⟨-(box.left + d.width), -box.upper⟩)
      (⟨d, -box.left, -box.upper⟩ :: rest.1, rest.2) := by
  rcases le_or_gt (x + d.width) size with fits | full
  · rw [place_of_fits fits]
    simp only [align, leadingGuide, topGuide, abs_guide reach, gt_iff_lt, fits.not_gt, if_false,
      neg_add']
    split_ifs <;> rfl
  · rw [place_of_full full]
    simp only [align, leadingGuide, topGuide, abs_guide reach, gt_iff_lt, full, if_true, neg_add',
      neg_zero, zero_sub, zero_add]
    split_ifs <;> rfl

/-- The guides place the chips along the flow, and the last chip sets the variables back. -/
theorem align_eq_flow (size y : R) (distinct : (chips.map Chip.selectedItem).Nodup)
    (nonempty : chips ≠ [])
    (last : selectedArray.getLast? = (chips.map Chip.selectedItem).getLast?)
    (wide : ∀ chip ∈ chips, 0 ≤ chip.width) (start : 0 ≤ x) :
    (align size selectedArray chips ⟨-x, -y⟩).1.map Alignment.box =
        flow Chip.width Chip.height size x y chips ∧
      (align size selectedArray chips ⟨-x, -y⟩).2 = ⟨0, 0⟩ := by
  induction chips generalizing x y with
  | nil => exact absurd rfl nonempty
  | cons d chips ih =>
      obtain ⟨dWide, restWide⟩ := List.forall_mem_cons.mp wide
      have reach : 0 ≤ x + d.width := add_nonneg start dWide
      have nonneg : 0 ≤ (place Chip.width Chip.height size x y d).left :=
        place_left_nonneg start y d
      have item : (place Chip.width Chip.height size x y d).item = d := place_item x y d
      simp only [align_cons reach, flow]
      generalize place Chip.width Chip.height size x y d = box at nonneg item
      subst item
      by_cases more : chips = []
      · subst more
        simp [last, align, flow, Alignment.box]
      · obtain ⟨same, other⟩ := getLast?_of_cons distinct more
        rw [same] at last
        obtain ⟨placed, zero⟩ := ih box.upper (List.nodup_cons.mp distinct).2 more last restWide
          (add_nonneg nonneg dWide)
        rw [last, if_neg other]
        refine ⟨?_, zero⟩
        simp only [List.map_cons, placed, Alignment.box, neg_neg]

/-- A layout pass from zero places the chips along the flow and ends at zero. -/
theorem layoutPass_eq_flow (distinct : (chips.map Chip.selectedItem).Nodup)
    (wide : ∀ chip ∈ chips, 0 ≤ chip.width) :
    (layoutPass size chips ⟨0, 0⟩).1.map Alignment.box =
        flow Chip.width Chip.height size 0 0 chips ∧
      (layoutPass size chips ⟨0, 0⟩).2 = ⟨0, 0⟩ := by
  by_cases nonempty : chips = []
  · subst nonempty
    exact ⟨rfl, rfl⟩
  · have aligned := align_eq_flow size 0 distinct nonempty rfl wide le_rfl
    rwa [neg_zero] at aligned

/-- Every pass leaves both guides at zero. -/
theorem guidesAfter_eq (distinct : (chips.map Chip.selectedItem).Nodup)
    (wide : ∀ chip ∈ chips, 0 ≤ chip.width) (passes : Nat) :
    guidesAfter size chips passes = ⟨0, 0⟩ :=
  Function.iterate_fixed (layoutPass_eq_flow distinct wide).2 passes

/-- Every pass places the chips as the flow does. -/
theorem positions_eq_flow (distinct : (chips.map Chip.selectedItem).Nodup)
    (wide : ∀ chip ∈ chips, 0 ≤ chip.width) (passes : Nat) :
    positions size chips passes = flow Chip.width Chip.height size 0 0 chips := by
  rw [positions, guidesAfter_eq distinct wide]
  exact (layoutPass_eq_flow distinct wide).1

/-- A flow from the corner is on greedy lines. -/
theorem onGreedyLines_flow (wide : ∀ chip ∈ chips, 0 ≤ chip.width)
    (single : ∀ chip ∈ chips, chip.width ≤ size) :
    OnGreedyLines size chips (flow Chip.width Chip.height size 0 0 chips) where
  lines := ⟨greedyLines Chip.width size chips, greedyLines_greedyLines single,
    flow_eq_flatten_placeLines single⟩
  within := within_flow le_rfl wide single
  corner := by
    cases chips with
    | nil => simp [flow]
    | cons d chips =>
        have fits : 0 + d.width ≤ size := by simpa using single d List.mem_cons_self
        simp [flow, place_of_fits fits]
  next := isChain_flow Chip.width Chip.height size 0 0 chips

/-- **Greedy chips.** In every layout pass, chips of distinct items that each fit in the
container stand on its greedy lines, where the first pass puts them, and after every pass
both variables are zero. -/
theorem positions_greedy (distinct : (chips.map Chip.selectedItem).Nodup)
    (fits : ∀ chip ∈ chips, 0 < chip.width ∧ chip.width ≤ size) (passes : Nat) :
    OnGreedyLines size chips (positions size chips passes) ∧
      positions size chips passes = positions size chips 0 ∧
      guidesAfter size chips passes = ⟨0, 0⟩ := by
  have wide : ∀ chip ∈ chips, 0 ≤ chip.width := fun chip member => (fits chip member).1.le
  have single : ∀ chip ∈ chips, chip.width ≤ size := fun chip member => (fits chip member).2
  rw [positions_eq_flow distinct wide, positions_eq_flow distinct wide]
  exact ⟨onGreedyLines_flow wide single, rfl, guidesAfter_eq distinct wide passes⟩

/-- Three chips, of which the third is too wide for the first line. -/
def pickedChips : List (Chip Int) :=
  [⟨"AI", 3, 2⟩, ⟨"HPC", 4, 2⟩, ⟨"Robotics", 6, 2⟩]

/-- A later pass places the chips as the first does. -/
theorem positions_greedy_pickedChips :
    OnGreedyLines 10 pickedChips (positions 10 pickedChips 2) ∧
      positions 10 pickedChips 2 = positions 10 pickedChips 0 ∧
      guidesAfter 10 pickedChips 2 = ⟨0, 0⟩ :=
  positions_greedy (by decide) (by decide) 2

end GenerateContent

end Bowfolio
