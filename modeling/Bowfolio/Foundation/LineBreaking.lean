import Mathlib.Algebra.Order.Ring.Defs
import Mathlib.Algebra.BigOperators.Group.List.Basic
import Mathlib.Data.List.Chain

/-!
# Greedy line breaking

Items of given widths are broken into lines of at most a given length: an item joins the
line before it as long as it fits, and otherwise starts a new line. `breakLines` collects
the lines; `flow` places the items one after the other and needs only the end of the line
so far. Both place every item at the same point (`flow_eq_flatten_placeLines`).
-/

namespace Bowfolio

variable {α R : Type} [CommRing R]

/-! ## Lines and places -/

/-- The length of a line. -/
def total (width : α → R) (line : List α) : R :=
  (line.map width).sum

/-- A placed item: its left and its upper edge. -/
structure Box (α R : Type) where
  item : α
  left : R
  upper : R
  deriving DecidableEq, Repr

/-- Place the items of a line at `y`, from `x` on. -/
def placeLine (width : α → R) (x y : R) : List α → List (Box α R)
  | [] => []
  | item :: rest => ⟨item, x, y⟩ :: placeLine width (x + width item) y rest

/-- The distance of a line from the line above it: the height of its first item. -/
def lineStep (height : α → R) : List α → R
  | [] => 0
  | item :: _ => height item

/-- Place lines below a line at `y`. -/
def placeBelow (width height : α → R) (y : R) : List (List α) → List (List (Box α R))
  | [] => []
  | line :: rest =>
      placeLine width 0 (y + lineStep height line) line ::
        placeBelow width height (y + lineStep height line) rest

/-- Place lines, the first of them at `y`. -/
def placeLines (width height : α → R) (y : R) : List (List α) → List (List (Box α R))
  | [] => []
  | line :: rest => placeLine width 0 y line :: placeBelow width height y rest

section Lines

variable {width : α → R} {item : α} {line rest : List α}

@[simp] theorem total_nil : total width [] = 0 := rfl

@[simp] theorem total_cons : total width (item :: line) = width item + total width line :=
  List.sum_cons

@[simp] theorem total_append :
    total width (line ++ rest) = total width line + total width rest := by
  simp [total]

/-- The second part of a line is placed after the width of the first. -/
theorem placeLine_append (width : α → R) (x y : R) (line rest : List α) :
    placeLine width x y (line ++ rest) =
      placeLine width x y line ++ placeLine width (x + total width line) y rest := by
  induction line generalizing x with
  | nil => simp [placeLine]
  | cons item line ih => simp [placeLine, ih, add_assoc]

end Lines

/-! ## Breaking -/

variable [LinearOrder R]

/-- Continue a line with the items that fit. -/
def breakLines (width : α → R) (limit : R) (line : List α) : List α → List (List α)
  | [] => [line]
  | item :: rest =>
      if total width line + width item ≤ limit then
        breakLines width limit (line ++ [item]) rest
      else line :: breakLines width limit [item] rest

def greedyLines (width : α → R) (limit : R) : List α → List (List α)
  | [] => []
  | item :: rest => breakLines width limit [item] rest

/-- Lines that hold the items in order, each within the limit, each broken only where the
next item does not fit. -/
structure GreedyLines (width : α → R) (limit : R) (items : List α) (lines : List (List α)) :
    Prop where
  flatten : lines.flatten = items
  nonempty : ∀ line ∈ lines, line ≠ []
  fits : ∀ line ∈ lines, total width line ≤ limit
  breaks : lines.IsChain fun line next =>
    ∀ item ∈ next.head?, limit < total width line + width item

/-- The place of an item that may join a line at `y` from the point `x` on. When it does
not fit it starts a line, as far below as it is high. -/
def place (width height : α → R) (limit x y : R) (item : α) : Box α R :=
  if x + width item ≤ limit then ⟨item, x, y⟩ else ⟨item, 0, y + height item⟩

/-- Place the items one by one, the first from the point `x` of a line at `y` on. -/
def flow (width height : α → R) (limit x y : R) : List α → List (Box α R)
  | [] => []
  | item :: rest =>
      let next := place width height limit x y item
      next :: flow width height limit (next.left + width item) next.upper rest

/-- How an item is placed after the box before it. -/
def Box.Precedes (width height : α → R) (limit : R) (box next : Box α R) : Prop :=
  if box.left + width box.item + width next.item ≤ limit then
    next.left = box.left + width box.item ∧ next.upper = box.upper
  else next.left = 0 ∧ next.upper = box.upper + height next.item

variable {width height : α → R} {limit x y : R} {item : α} {line items rest : List α}

/-- An item that fits joins the open line. -/
theorem breakLines_of_fits (fits : total width line + width item ≤ limit) :
    breakLines width limit line (item :: rest) = breakLines width limit (line ++ [item]) rest :=
  if_pos fits

/-- An item that does not fit closes the open line and starts the next. -/
theorem breakLines_of_full (full : limit < total width line + width item) :
    breakLines width limit line (item :: rest) = line :: breakLines width limit [item] rest :=
  if_neg full.not_ge

theorem place_of_fits (fits : x + width item ≤ limit) :
    place width height limit x y item = ⟨item, x, y⟩ :=
  if_pos fits

theorem place_of_full (full : limit < x + width item) :
    place width height limit x y item = ⟨item, 0, y + height item⟩ :=
  if_neg full.not_ge

/-- The first line continues the line it is given. -/
theorem exists_breakLines (width : α → R) (limit : R) (line rest : List α) :
    ∃ more lines, breakLines width limit line rest = (line ++ more) :: lines := by
  induction rest generalizing line with
  | nil => exact ⟨[], [], by simp [breakLines]⟩
  | cons item rest ih =>
      rcases le_or_gt (total width line + width item) limit with fits | full
      · obtain ⟨more, lines, broken⟩ := ih (line ++ [item])
        exact ⟨item :: more, lines, by simp [breakLines_of_fits fits, broken]⟩
      · exact ⟨[], breakLines width limit [item] rest, by simp [breakLines_of_full full]⟩

/-- Lines that continue a line within the limit are greedy. -/
theorem greedyLines_breakLines (nonempty : line ≠ []) (within : total width line ≤ limit)
    (single : ∀ item ∈ rest, width item ≤ limit) :
    GreedyLines width limit (line ++ rest) (breakLines width limit line rest) := by
  induction rest generalizing line with
  | nil =>
      refine ⟨by simp [breakLines], ?_, ?_, List.isChain_singleton _⟩
      · simpa [breakLines] using nonempty
      · simpa [breakLines] using within
  | cons item rest ih =>
      obtain ⟨alone, later⟩ := List.forall_mem_cons.mp single
      rcases le_or_gt (total width line + width item) limit with fits | full
      · have extended : line ++ [item] ≠ [] := by simp
        rw [breakLines_of_fits fits, List.append_cons]
        exact ih extended (by simpa using fits) later
      · have greedy := ih (List.cons_ne_nil item []) (by simpa using alone) later
        obtain ⟨more, lines, broken⟩ := exists_breakLines width limit [item] rest
        rw [breakLines_of_full full]
        refine ⟨by simp [greedy.flatten], ?_, ?_, ?_⟩
        · exact List.forall_mem_cons.mpr ⟨nonempty, greedy.nonempty⟩
        · exact List.forall_mem_cons.mpr ⟨within, greedy.fits⟩
        · have chain := greedy.breaks
          rw [broken] at chain ⊢
          refine List.isChain_cons_cons.mpr ⟨?_, chain⟩
          simpa using full

/-- Breaking greedily gives greedy lines, when every item fits a line alone. -/
theorem greedyLines_greedyLines (single : ∀ item ∈ items, width item ≤ limit) :
    GreedyLines width limit items (greedyLines width limit items) := by
  cases items with
  | nil => exact ⟨rfl, by simp [greedyLines], by simp [greedyLines], List.isChain_nil⟩
  | cons item rest =>
      obtain ⟨alone, later⟩ := List.forall_mem_cons.mp single
      exact greedyLines_breakLines (List.cons_ne_nil item []) (by simpa using alone) later

/-! ## Placing item by item -/

/-- Lines that follow a broken line are placed below it. -/
theorem placeBelow_breakLines (height : α → R) (y : R) (item : α) (rest : List α) :
    placeBelow width height y (breakLines width limit [item] rest) =
      placeLines width height (y + height item) (breakLines width limit [item] rest) := by
  obtain ⟨more, lines, broken⟩ := exists_breakLines width limit [item] rest
  rw [broken]
  rfl

/-- Placing the items from the end of a line on places the lines that continue it. -/
theorem placeLine_append_flow (width height : α → R) (limit y : R) (line rest : List α) :
    placeLine width 0 y line ++ flow width height limit (total width line) y rest =
      (placeLines width height y (breakLines width limit line rest)).flatten := by
  induction rest generalizing line y with
  | nil => simp [flow, breakLines, placeLines, placeBelow]
  | cons item rest ih =>
      rcases le_or_gt (total width line + width item) limit with fits | full
      · have continued := ih y (line ++ [item])
        rw [placeLine_append, zero_add, total_append, total_cons, total_nil, add_zero,
          List.append_assoc] at continued
        rw [flow, place_of_fits fits, breakLines_of_fits fits, ← continued]
        rfl
      · have started := ih (y + height item) [item]
        rw [total_cons, total_nil, add_zero] at started
        rw [flow, place_of_full full, zero_add, breakLines_of_full full, placeLines,
          placeBelow_breakLines, List.flatten_cons, ← started]
        rfl

/-- **Placing is greedy.** Placed one by one, items that fit on a line stand on the greedy
lines. -/
theorem flow_eq_flatten_placeLines (single : ∀ item ∈ items, width item ≤ limit) :
    flow width height limit 0 y items =
      (placeLines width height y (greedyLines width limit items)).flatten := by
  cases items with
  | nil => rfl
  | cons item rest =>
      have fits : 0 + width item ≤ limit := by simpa using single item List.mem_cons_self
      have placed := placeLine_append_flow width height limit y [item] rest
      rw [total_cons, total_nil, add_zero] at placed
      rw [flow, place_of_fits fits, zero_add, greedyLines, ← placed]
      rfl

@[simp] theorem place_item (x y : R) (item : α) :
    (place width height limit x y item).item = item := by
  simp only [place]
  split_ifs <;> rfl

/-- No box begins left of the container. -/
theorem place_left_nonneg (start : 0 ≤ x) (y : R) (item : α) :
    0 ≤ (place width height limit x y item).left := by
  simp only [place]
  split_ifs
  · exact start
  · exact le_rfl

/-- A box precedes the one that is placed right after it. -/
theorem precedes_place (box : Box α R) (item : α) :
    box.Precedes width height limit
      (place width height limit (box.left + width box.item) box.upper item) := by
  rcases le_or_gt (box.left + width box.item + width item) limit with fits | full
  · simp [Box.Precedes, place_of_fits fits, fits]
  · simp [Box.Precedes, place_of_full full, full.not_ge]

/-- In the flow every box precedes the next. -/
theorem isChain_cons_flow (width height : α → R) (limit : R) (box : Box α R) (items : List α) :
    (box :: flow width height limit (box.left + width box.item) box.upper items).IsChain
      (Box.Precedes width height limit) := by
  induction items generalizing box with
  | nil => exact List.isChain_singleton box
  | cons item rest ih =>
      refine List.isChain_cons_cons.mpr ⟨precedes_place box item, ?_⟩
      have chain := ih (place width height limit (box.left + width box.item) box.upper item)
      rwa [place_item] at chain

/-- Every box of a flow precedes the next one. -/
theorem isChain_flow (width height : α → R) (limit x y : R) (items : List α) :
    (flow width height limit x y items).IsChain (Box.Precedes width height limit) := by
  cases items with
  | nil => exact List.isChain_nil
  | cons item rest =>
      have chain := isChain_cons_flow width height limit (place width height limit x y item) rest
      rwa [place_item] at chain

variable [IsStrictOrderedRing R]

/-- A flow stays within the limit. -/
theorem within_flow (start : 0 ≤ x) (wide : ∀ item ∈ items, 0 ≤ width item)
    (single : ∀ item ∈ items, width item ≤ limit) :
    ∀ box ∈ flow width height limit x y items,
      0 ≤ box.left ∧ box.left + width box.item ≤ limit := by
  induction items generalizing x y with
  | nil => simp [flow]
  | cons item rest ih =>
      obtain ⟨itemWide, restWide⟩ := List.forall_mem_cons.mp wide
      obtain ⟨itemSingle, restSingle⟩ := List.forall_mem_cons.mp single
      have nonneg : 0 ≤ (place width height limit x y item).left :=
        place_left_nonneg start y item
      refine List.forall_mem_cons.mpr
        ⟨⟨nonneg, ?_⟩, ih (add_nonneg nonneg itemWide) restWide restSingle⟩
      rcases le_or_gt (x + width item) limit with fits | full
      · simpa [place_of_fits fits] using fits
      · simpa [place_of_full full] using itemSingle

end Bowfolio
