import Mathlib.Algebra.Order.BigOperators.Group.List
import Mathlib.Tactic.Linarith
import Bowfolio.Foundation.LineBreaking

/-!
# Overlaps between lines

Boxes of one line abut. A box reaches into a later line when that line begins above the
box's lower edge, and then overlaps an item of it when the line is longer than the box's
left edge. `ClearsLines` excludes this for every box and every later line
(`pairwise_placeLines_iff`).
-/

namespace Bowfolio

variable {α R : Type} [CommRing R] [LinearOrder R]

/-- Two boxes share a rectangle of positive area. -/
def Box.Overlaps (width height : α → R) (box other : Box α R) : Prop :=
  max box.left other.left < min (box.left + width box.item) (other.left + width other.item) ∧
    max box.upper other.upper <
      min (box.upper + height box.item) (other.upper + height other.item)

/-- An item that stands at `x`, and whose upper edge is `drop` above that of the line before
`lines`, ends above every one of these lines that is longer than `x`. -/
def ItemClears (width height : α → R) (x : R) (item : α) (drop : R) : List (List α) → Prop
  | [] => True
  | line :: lines =>
      (x < total width line → height item ≤ drop + lineStep height line) ∧
        ItemClears width height x item (drop + lineStep height line) lines

/-- The items of a line, from `x` on, clear the lines after it. -/
def LineClears (width height : α → R) (lines : List (List α)) (x : R) : List α → Prop
  | [] => True
  | item :: line =>
      ItemClears width height x item 0 lines ∧
        LineClears width height lines (x + width item) line

/-- Every item clears the lines after its own. -/
def ClearsLines (width height : α → R) : List (List α) → Prop
  | [] => True
  | line :: lines => LineClears width height lines 0 line ∧ ClearsLines width height lines

instance (width height : α → R) (box other : Box α R) :
    Decidable (box.Overlaps width height other) :=
  inferInstanceAs (Decidable (_ ∧ _))

instance ItemClears.decidable (width height : α → R) (x : R) (item : α) (drop : R) :
    (lines : List (List α)) → Decidable (ItemClears width height x item drop lines)
  | [] => .isTrue trivial
  | line :: lines =>
      have := decidable width height x item (drop + lineStep height line) lines
      inferInstanceAs (Decidable ((x < total width line →
        height item ≤ drop + lineStep height line) ∧ _))

instance LineClears.decidable (width height : α → R) (lines : List (List α)) (x : R) :
    (line : List α) → Decidable (LineClears width height lines x line)
  | [] => .isTrue trivial
  | item :: line =>
      have := decidable width height lines (x + width item) line
      inferInstanceAs (Decidable (ItemClears width height x item 0 lines ∧ _))

instance ClearsLines.decidable (width height : α → R) :
    (lines : List (List α)) → Decidable (ClearsLines width height lines)
  | [] => .isTrue trivial
  | line :: lines =>
      have := decidable width height lines
      inferInstanceAs (Decidable (LineClears width height lines 0 line ∧ _))

variable {width height : α → R} {x y drop : R} {item : α} {line : List α}
  {lines : List (List α)}

/-- A line covers every point between its ends. -/
theorem exists_mem_placeLine (width : α → R) (y : R) {point : R} (begun : x ≤ point)
    (inside : point < x + total width line) :
    ∃ box ∈ placeLine width x y line, box.left ≤ point ∧ point < box.left + width box.item := by
  induction line generalizing x with
  | nil =>
      rw [total_nil, add_zero] at inside
      exact absurd inside begun.not_gt
  | cons item line ih =>
      rw [total_cons, ← add_assoc] at inside
      rcases lt_or_ge point (x + width item) with before | behind
      · exact ⟨⟨item, x, y⟩, List.mem_cons_self, begun, before⟩
      · obtain ⟨box, member, covers⟩ := ih behind inside
        exact ⟨box, List.mem_cons_of_mem _ member, covers⟩

/-- A line never steps upwards. -/
theorem lineStep_nonneg (positive : ∀ item ∈ line, 0 < width item ∧ 0 < height item) :
    0 ≤ lineStep height line := by
  cases line with
  | nil => exact le_rfl
  | cons item line => exact (positive item List.mem_cons_self).2.le

variable [IsStrictOrderedRing R]

/-- Where the boxes of a line lie. -/
theorem bounds_of_mem_placeLine (wide : ∀ item ∈ line, 0 < width item) :
    ∀ box ∈ placeLine width x y line, box.item ∈ line ∧ box.upper = y ∧ x ≤ box.left ∧
      box.left + width box.item ≤ x + total width line := by
  induction line generalizing x with
  | nil => simp [placeLine]
  | cons item line ih =>
      obtain ⟨itemWide, restWide⟩ := List.forall_mem_cons.mp wide
      have reach : 0 ≤ total width line :=
        List.sum_nonneg (List.forall_mem_map.mpr fun other member => (restWide other member).le)
      refine List.forall_mem_cons.mpr ⟨⟨List.mem_cons_self, rfl, le_rfl, ?_⟩, fun box member => ?_⟩
      · simpa using reach
      · obtain ⟨held, upper, left, right⟩ := ih restWide box member
        rw [total_cons, ← add_assoc]
        exact ⟨List.mem_cons_of_mem _ held, upper, by linarith, right⟩

/-- The boxes of a line abut: each ends where a later one may begin. -/
theorem pairwise_placeLine (wide : ∀ item ∈ line, 0 < width item) :
    (placeLine width x y line).Pairwise fun box other =>
      box.left + width box.item ≤ other.left := by
  induction line generalizing x with
  | nil => exact List.Pairwise.nil
  | cons item line ih =>
      have restWide := (List.forall_mem_cons.mp wide).2
      refine List.pairwise_cons.mpr ⟨fun box member => ?_, ih restWide⟩
      exact (bounds_of_mem_placeLine restWide box member).2.2.1

/-- A box that begins `drop` below another one overlaps it exactly when they share a
horizontal stretch and the upper one is higher than that. -/
theorem overlaps_iff_of_below {box : Box α R} (below : 0 ≤ drop) (upper : box.upper = y + drop)
    (high : 0 < height box.item) :
    Box.Overlaps width height ⟨item, x, y⟩ box ↔
      max x box.left < min (x + width item) (box.left + width box.item) ∧ drop < height item := by
  have first : max y (y + drop) = y + drop := max_eq_right (le_add_of_nonneg_right below)
  have inside : y + drop < y + drop + height box.item := lt_add_of_pos_right _ high
  simp only [Box.Overlaps, upper, first, lt_min_iff, inside, and_true, add_lt_add_iff_left]

/-- A box is apart from a line that begins `drop` below it exactly when the line does not
reach it or begins below its lower edge. -/
theorem apart_placeLine_iff (itemWide : 0 < width item) (start : 0 ≤ x) (below : 0 ≤ drop)
    (positive : ∀ item ∈ line, 0 < width item ∧ 0 < height item) :
    (∀ box ∈ placeLine width 0 (y + drop) line, ¬ Box.Overlaps width height ⟨item, x, y⟩ box) ↔
      (x < total width line → height item ≤ drop) := by
  have wide : ∀ item ∈ line, 0 < width item := fun other member => (positive other member).1
  constructor
  · intro apart reaches
    by_contra deep
    obtain ⟨box, member, left, right⟩ :=
      exists_mem_placeLine width (y + drop) start (by simpa using reaches)
    obtain ⟨held, upper, -, -⟩ := bounds_of_mem_placeLine wide box member
    have shared : max x box.left < min (x + width item) (box.left + width box.item) := by
      rw [max_eq_left left]
      exact lt_min (lt_add_of_pos_right x itemWide) right
    exact apart box member
      ((overlaps_iff_of_below below upper (positive box.item held).2).mpr
        ⟨shared, not_le.mp deep⟩)
  · intro clears box member overlaps
    obtain ⟨held, upper, -, right⟩ := bounds_of_mem_placeLine wide box member
    obtain ⟨shared, deep⟩ :=
      (overlaps_iff_of_below below upper (positive box.item held).2).mp overlaps
    have before : x < box.left + width box.item := (lt_min_iff.mp (max_lt_iff.mp shared).1).2
    have reaches : x < total width line := by linarith
    exact (clears reaches).not_gt deep

/-- A box is apart from the lines below it exactly when its item clears them. -/
theorem apart_placeBelow_iff (itemWide : 0 < width item) (start : 0 ≤ x) (below : 0 ≤ drop)
    (positive : ∀ line ∈ lines, ∀ item ∈ line, 0 < width item ∧ 0 < height item) :
    (∀ box ∈ (placeBelow width height (y + drop) lines).flatten,
        ¬ Box.Overlaps width height ⟨item, x, y⟩ box) ↔
      ItemClears width height x item drop lines := by
  induction lines generalizing drop with
  | nil => simp [placeBelow, ItemClears]
  | cons line lines ih =>
      obtain ⟨first, later⟩ := List.forall_mem_cons.mp positive
      have lower : 0 ≤ drop + lineStep height line := add_nonneg below (lineStep_nonneg first)
      rw [placeBelow, List.flatten_cons, List.forall_mem_append, add_assoc,
        apart_placeLine_iff itemWide start lower first, ih lower later]
      rfl

/-- The boxes of a line are apart from the lines below it exactly when its items clear
them. -/
theorem apart_line_iff (lineWide : ∀ item ∈ line, 0 < width item) (start : 0 ≤ x)
    (positive : ∀ line ∈ lines, ∀ item ∈ line, 0 < width item ∧ 0 < height item) :
    (∀ box ∈ placeLine width x y line, ∀ other ∈ (placeBelow width height y lines).flatten,
        ¬ box.Overlaps width height other) ↔
      LineClears width height lines x line := by
  induction line generalizing x with
  | nil => simp [placeLine, LineClears]
  | cons item line ih =>
      obtain ⟨itemWide, restWide⟩ := List.forall_mem_cons.mp lineWide
      have apart := apart_placeBelow_iff (y := y) itemWide start le_rfl positive
      rw [add_zero] at apart
      rw [placeLine, List.forall_mem_cons, apart, ih restWide (add_nonneg start itemWide.le)]
      rfl

/-- Boxes of one line do not overlap. -/
theorem pairwise_apart_placeLine (wide : ∀ item ∈ line, 0 < width item) :
    (placeLine width x y line).Pairwise fun box other => ¬ box.Overlaps width height other := by
  refine (pairwise_placeLine wide).imp fun {box other} abut overlaps => ?_
  have across := (lt_min_iff.mp (max_lt_iff.mp overlaps.1).2).1
  exact abut.not_gt across

/-- An item clears lines of items that are as high. -/
theorem itemClears_of_le (below : 0 ≤ drop)
    (positive : ∀ line ∈ lines, ∀ item ∈ line, 0 < width item ∧ 0 < height item)
    (nonempty : ∀ line ∈ lines, line ≠ [])
    (higher : ∀ other ∈ lines.flatten, height item ≤ height other) :
    ItemClears width height x item drop lines := by
  induction lines generalizing drop with
  | nil => trivial
  | cons line lines ih =>
      obtain ⟨first, later⟩ := List.forall_mem_cons.mp positive
      obtain ⟨filled, laterFilled⟩ := List.forall_mem_cons.mp nonempty
      rw [List.flatten_cons, List.forall_mem_append] at higher
      have lower : 0 ≤ drop + lineStep height line := add_nonneg below (lineStep_nonneg first)
      refine ⟨fun _ => ?_, ih lower later laterFilled higher.2⟩
      cases line with
      | nil => exact absurd rfl filled
      | cons head line => exact le_add_of_nonneg_of_le below (higher.1 head List.mem_cons_self)

/-- A line clears the later ones when none of its items is taller than any of theirs. -/
theorem lineClears_of_le
    (positive : ∀ line ∈ lines, ∀ item ∈ line, 0 < width item ∧ 0 < height item)
    (nonempty : ∀ line ∈ lines, line ≠ [])
    (higher : ∀ item ∈ line, ∀ other ∈ lines.flatten, height item ≤ height other) :
    LineClears width height lines x line := by
  induction line generalizing x with
  | nil => trivial
  | cons item line ih =>
      obtain ⟨itemHigher, restHigher⟩ := List.forall_mem_cons.mp higher
      exact ⟨itemClears_of_le le_rfl positive nonempty itemHigher, ih restHigher⟩

/-- Items in the order of their heights clear the lines after their own. -/
theorem clearsLines_of_sorted
    (positive : ∀ line ∈ lines, ∀ item ∈ line, 0 < width item ∧ 0 < height item)
    (nonempty : ∀ line ∈ lines, line ≠ [])
    (sorted : lines.flatten.Pairwise fun item other => height item ≤ height other) :
    ClearsLines width height lines := by
  induction lines with
  | nil => trivial
  | cons line lines ih =>
      have later := (List.forall_mem_cons.mp positive).2
      have laterFilled := (List.forall_mem_cons.mp nonempty).2
      rw [List.flatten_cons, List.pairwise_append] at sorted
      obtain ⟨_, laterSorted, higher⟩ := sorted
      exact ⟨lineClears_of_le later laterFilled higher, ih later laterFilled laterSorted⟩

/-- **When lines overlap.** Placed lines of items of positive size do not overlap exactly
when every item clears the lines after its own. -/
theorem pairwise_placeLines_iff
    (positive : ∀ line ∈ lines, ∀ item ∈ line, 0 < width item ∧ 0 < height item) :
    (placeLines width height y lines).flatten.Pairwise
        (fun box other => ¬ box.Overlaps width height other) ↔
      ClearsLines width height lines := by
  induction lines generalizing y with
  | nil => simp [placeLines, ClearsLines]
  | cons line lines ih =>
      obtain ⟨first, later⟩ := List.forall_mem_cons.mp positive
      have wide : ∀ item ∈ line, 0 < width item := fun item member => (first item member).1
      have below : (placeBelow width height y lines).flatten.Pairwise
          (fun box other => ¬ box.Overlaps width height other) ↔
          ClearsLines width height lines := by
        cases lines with
        | nil => simp [placeBelow, ClearsLines]
        | cons next lines => exact ih later
      rw [placeLines, List.flatten_cons, List.pairwise_append, below,
        apart_line_iff wide le_rfl later]
      exact ((and_iff_right (pairwise_apart_placeLine wide)).trans and_comm)

-- An item of height 2 reaches into the next line when that starts with one of height 1.
example : ¬ ClearsLines (R := Int) Prod.fst Prod.snd [[(3, 2)], [(3, 1), (1, 5)]] := by
  decide

end Bowfolio
