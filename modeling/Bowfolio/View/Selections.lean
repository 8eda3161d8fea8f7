import Bowfolio.Foundation.Machine
import Bowfolio.Foundation.Toggle

/-!
# The picker

`Selections` lists one `SelectionRow` per item. A row keeps its own check mark and
shares the selected array with the other rows; the two copies of the selection are
linked only by `onAppear` and by the tap. The picker simulates the toggling of one
selection (`Selections.selectedArray_of_run`), and its forced unwrapping of
`firstIndex(of:)` never traps.
-/

namespace Bowfolio

namespace SelectionRow

/-- The button of a row: toggle the check mark, then append or remove the content.
The unwrapping `firstIndex(of:)!` traps when the content is not selected. -/
def tap (isSelected : Bool) (selectedArray : List String) (content : String) :
    Option (Bool × List String) :=
  if isSelected = false then some (true, selectedArray ++ [content])
  else (selectedArray.idxOf? content).map fun index => (false, selectedArray.eraseIdx index)

def onAppear (isSelected : Bool) (selectedArray : List String) (content : String) : Bool :=
  if content ∈ selectedArray then true else isSelected

end SelectionRow

/-- The state of a picker: the two bindings, the check marks of the rows that are
present, and whether a forced unwrapping has trapped. -/
structure Selections where
  selectedArray : List String
  itemsArray : List String
  isSelected : String → Bool
  trapped : Bool

inductive SelectionsEvent where
  | replaceItems (items : List String)
  | appear (item : String)
  | tap (item : String)
  deriving DecidableEq, Repr

namespace Selections

/-- A picker over an array, before any items are offered. -/
def launch (selectedArray : List String) : Selections where
  selectedArray := selectedArray
  itemsArray := []
  isSelected := fun _ => false
  trapped := false

/-- The items change. A row whose string stays keeps its check mark; an entering one
starts unchecked and appears. -/
def replaceItems (picker : Selections) (items : List String) : Selections :=
  { picker with
    itemsArray := items
    isSelected := fun item =>
      if item ∈ items then
        if item ∈ picker.itemsArray then picker.isSelected item
        else SelectionRow.onAppear false picker.selectedArray item
      else false }

def appear (picker : Selections) (item : String) : Selections :=
  { picker with
    isSelected := Function.update picker.isSelected item
      (SelectionRow.onAppear (picker.isSelected item) picker.selectedArray item) }

def tap (picker : Selections) (item : String) : Selections :=
  match SelectionRow.tap (picker.isSelected item) picker.selectedArray item with
  | none => { picker with trapped := true }
  | some (isSelected, selectedArray) =>
      { picker with
        selectedArray
        isSelected := Function.update picker.isSelected item isSelected }

end Selections

/-- The picker. Items are lists of distinct strings, only present rows appear and
are tapped, and nothing happens after a trap. -/
def selectionsMachine : Machine Selections SelectionsEvent where
  step picker
    | .replaceItems items =>
        if picker.trapped = false ∧ items.Nodup then some (picker.replaceItems items) else none
    | .appear item =>
        if picker.trapped = false ∧ item ∈ picker.itemsArray then some (picker.appear item)
        else none
    | .tap item =>
        if picker.trapped = false ∧ item ∈ picker.itemsArray then some (picker.tap item) else none

/-- What an event does to the selection as a whole: a tap toggles its string. -/
def SelectionsEvent.act (selected : List String) : SelectionsEvent → List String
  | .tap item => toggle selected item
  | _ => selected

/-- The strings whose rows are tapped, in order. -/
def SelectionsEvent.tapped (events : List SelectionsEvent) : List String :=
  events.filterMap fun
    | .tap item => some item
    | _ => none

/-- Of the events only the taps act on the selection. -/
theorem SelectionsEvent.foldl_act (selected : List String) (events : List SelectionsEvent) :
    events.foldl SelectionsEvent.act selected = toggleAll selected (tapped events) := by
  induction events generalizing selected with
  | nil => rfl
  | cons event events ih =>
      cases event with
      | replaceItems items => exact ih selected
      | appear item => exact ih selected
      | tap item => exact ih (toggle selected item)

namespace SelectionRow

variable {selectedArray : List String} {content : String}

/-- Tapping an unmarked row marks it and selects its string. -/
theorem tap_of_unchecked :
    tap false selectedArray content = some (true, selectedArray ++ [content]) :=
  rfl

/-- Tapping a marked row with a selected string unmarks and deselects it. -/
theorem tap_of_checked (member : content ∈ selectedArray) :
    tap true selectedArray content = some (false, selectedArray.erase content) := by
  cases located : selectedArray.idxOf? content with
  | none => exact (List.idxOf?_eq_none_iff.mp located member).elim
  | some index => simp only [tap, Bool.true_eq_false, ↓reduceIte, located, Option.map_some,
      List.erase_eq_eraseIdx]

end SelectionRow

namespace Selections

/-- What every step keeps, for any selected array: no trap has happened, and the
check marks are on strings that are selected, which is what a tap unwraps. -/
structure Backed (picker : Selections) : Prop where
  running : picker.trapped = false
  selected : ∀ item, picker.isSelected item = true → item ∈ picker.selectedArray

theorem backed_launch (selectedArray : List String) : (launch selectedArray).Backed :=
  ⟨rfl, fun _ checked => (Bool.false_ne_true checked).elim⟩

/-- A tap on a backed row either appends its unchecked string or removes its checked
one, and never traps. -/
theorem Backed.tap_cases {picker : Selections} (backed : picker.Backed) (item : String) :
    (picker.isSelected item = false ∧
      picker.tap item = { picker with
        selectedArray := picker.selectedArray ++ [item]
        isSelected := Function.update picker.isSelected item true }) ∨
    (picker.isSelected item = true ∧ item ∈ picker.selectedArray ∧
      picker.tap item = { picker with
        selectedArray := picker.selectedArray.erase item
        isSelected := Function.update picker.isSelected item false }) := by
  cases checked : picker.isSelected item with
  | false => exact .inl ⟨rfl, by simp only [tap, checked, SelectionRow.tap_of_unchecked]⟩
  | true =>
      have member := backed.selected item checked
      exact .inr ⟨rfl, member, by simp only [tap, checked, SelectionRow.tap_of_checked member]⟩

/-- After a tap the marked rows have selected strings. -/
theorem Backed.tap {picker : Selections} (backed : picker.Backed) (item : String) :
    (picker.tap item).Backed := by
  rcases backed.tap_cases item with ⟨_, result⟩ | ⟨_, _, result⟩
  · rw [result]
    refine ⟨backed.running, fun other checked => ?_⟩
    change Function.update picker.isSelected item true other = true at checked
    by_cases same : other = item
    · exact List.mem_append.mpr (.inr (List.mem_singleton.mpr same))
    · rw [Function.update_of_ne same] at checked
      exact List.mem_append.mpr (.inl (backed.selected other checked))
  · rw [result]
    refine ⟨backed.running, fun other checked => ?_⟩
    change Function.update picker.isSelected item false other = true at checked
    by_cases same : other = item
    · rw [same, Function.update_self] at checked
      exact (Bool.false_ne_true checked).elim
    · rw [Function.update_of_ne same] at checked
      exact (List.mem_erase_of_ne same).mpr (backed.selected other checked)

/-- A row that appears is marked exactly when its string is selected. -/
theorem onAppear_true {isSelected : Bool} {selectedArray : List String} {content : String}
    (backed : isSelected = true → content ∈ selectedArray) :
    SelectionRow.onAppear isSelected selectedArray content = true ↔ content ∈ selectedArray := by
  unfold SelectionRow.onAppear
  split_ifs with member
  · exact ⟨fun _ => member, fun _ => rfl⟩
  · exact ⟨backed, fun listed => (member listed).elim⟩

/-- One event keeps the marked rows backed by selected strings. -/
theorem Backed.step {picker next : Selections} {event : SelectionsEvent} (backed : picker.Backed)
    (stepped : selectionsMachine.step picker event = some next) : next.Backed := by
  cases event with
  | replaceItems items =>
      obtain ⟨_, rfl⟩ := Option.ite_some_none_eq_some.mp stepped
      refine ⟨backed.running, fun item checked => ?_⟩
      simp only [replaceItems] at checked
      split_ifs at checked with stays old
      · exact backed.selected item checked
      · exact (onAppear_true fun lit => (Bool.false_ne_true lit).elim).mp checked
  | appear item =>
      obtain ⟨_, rfl⟩ := Option.ite_some_none_eq_some.mp stepped
      refine ⟨backed.running, fun other checked => ?_⟩
      by_cases same : other = item
      · subst same
        simp only [appear, Function.update_self] at checked
        exact (onAppear_true (backed.selected other)).mp checked
      · simp only [appear, Function.update_of_ne same] at checked
        exact backed.selected other checked
  | tap item =>
      obtain ⟨_, rfl⟩ := Option.ite_some_none_eq_some.mp stepped
      exact backed.tap item

/-- The two copies of a selection without repetition agree on every present row. -/
structure Agreeing (picker : Selections) : Prop extends Backed picker where
  nodup : picker.selectedArray.Nodup
  checked_iff : ∀ item ∈ picker.itemsArray,
    picker.isSelected item = true ↔ item ∈ picker.selectedArray

theorem agreeing_launch {selectedArray : List String} (nodup : selectedArray.Nodup) :
    (launch selectedArray).Agreeing :=
  ⟨backed_launch selectedArray, nodup, fun _ absent => (List.not_mem_nil absent).elim⟩

/-- A tap on an offered row toggles its string, and the marks still agree. -/
theorem Agreeing.tap {picker : Selections} (agreeing : picker.Agreeing) {item : String}
    (present : item ∈ picker.itemsArray) :
    (picker.tap item).selectedArray = toggle picker.selectedArray item ∧
      (picker.tap item).Agreeing := by
  have backed := agreeing.toBacked.tap item
  rcases agreeing.toBacked.tap_cases item with ⟨unchecked, result⟩ | ⟨_, member, result⟩
  · have absent : item ∉ picker.selectedArray := fun member =>
      Bool.false_ne_true (unchecked.symm.trans ((agreeing.checked_iff item present).mpr member))
    have toggled := toggle_of_not_mem absent
    have nodup := nodup_toggle agreeing.nodup item
    rw [toggled] at nodup ⊢
    rw [result] at backed ⊢
    refine ⟨rfl, backed, nodup, fun other listed => ?_⟩
    by_cases same : other = item
    · simp only [same, Function.update_self, List.mem_append, List.mem_singleton, or_true]
    · simp only [Function.update_of_ne same, List.mem_append, List.mem_singleton, same, or_false]
      exact agreeing.checked_iff other listed
  · have toggled := toggle_of_mem member
    have nodup := nodup_toggle agreeing.nodup item
    rw [toggled] at nodup ⊢
    rw [result] at backed ⊢
    refine ⟨rfl, backed, nodup, fun other listed => ?_⟩
    by_cases same : other = item
    · simp only [same, Function.update_self, Bool.false_eq_true, agreeing.nodup.not_mem_erase]
    · simp only [Function.update_of_ne same, List.mem_erase_of_ne same]
      exact agreeing.checked_iff other listed

/-- Every step of an agreeing picker acts on the selection as its event does. -/
theorem Agreeing.step {picker next : Selections} {event : SelectionsEvent}
    (agreeing : picker.Agreeing) (stepped : selectionsMachine.step picker event = some next) :
    next.selectedArray = event.act picker.selectedArray ∧ next.Agreeing := by
  have backed := agreeing.toBacked.step stepped
  cases event with
  | replaceItems items =>
      obtain ⟨_, rfl⟩ := Option.ite_some_none_eq_some.mp stepped
      refine ⟨rfl, backed, agreeing.nodup, fun item present => ?_⟩
      change item ∈ items at present
      simp only [replaceItems, present, ↓reduceIte]
      split_ifs with old
      · exact agreeing.checked_iff item old
      · exact onAppear_true fun lit => (Bool.false_ne_true lit).elim
  | appear item =>
      obtain ⟨_, rfl⟩ := Option.ite_some_none_eq_some.mp stepped
      refine ⟨rfl, backed, agreeing.nodup, fun other present => ?_⟩
      by_cases same : other = item
      · subst same
        simp only [appear, Function.update_self]
        exact onAppear_true (agreeing.selected other)
      · simp only [appear, Function.update_of_ne same]
        exact agreeing.checked_iff other present
  | tap item =>
      obtain ⟨⟨_, present⟩, rfl⟩ := Option.ite_some_none_eq_some.mp stepped
      exact agreeing.tap present

/-- **The picker toggles.** Over a run from a selection without repetition, the
selected array is the toggling of the initial one by the tapped strings. -/
theorem selectedArray_of_run {selectedArray : List String} (nodup : selectedArray.Nodup)
    {events : List SelectionsEvent} {picker : Selections}
    (ran : selectionsMachine.run (launch selectedArray) events = some picker) :
    picker.selectedArray = toggleAll selectedArray (SelectionsEvent.tapped events) ∧
      picker.Agreeing := by
  have simulated := Machine.view_of_run Selections.selectedArray SelectionsEvent.act
    Agreeing.step (agreeing_launch nodup) ran
  rwa [SelectionsEvent.foldl_act] at simulated

/-- **The picker state machine.** No run traps. From a selection without repetition,
in every reachable state the array has no repetition, a present row is checked exactly
when its string is selected, a string is selected exactly when being selected at the
start differs from being tapped an odd number of times, and the strings never tapped
are listed as at the start. -/
theorem picker_of_run (selectedArray : List String) (events : List SelectionsEvent)
    (picker : Selections)
    (ran : selectionsMachine.run (launch selectedArray) events = some picker) :
    picker.trapped = false ∧
    (selectedArray.Nodup →
      picker.selectedArray.Nodup ∧
      (∀ item ∈ picker.itemsArray,
        picker.isSelected item = true ↔ item ∈ picker.selectedArray) ∧
      (∀ item, item ∈ picker.selectedArray ↔
        Xor (item ∈ selectedArray) (Odd ((SelectionsEvent.tapped events).count item))) ∧
      picker.selectedArray.filter (· ∉ SelectionsEvent.tapped events) =
        selectedArray.filter (· ∉ SelectionsEvent.tapped events)) := by
  have backed : picker.Backed :=
    Machine.invariant_of_run Backed.step (backed_launch selectedArray) ran
  refine ⟨backed.running, fun nodup => ?_⟩
  obtain ⟨toggled, agreeing⟩ := selectedArray_of_run nodup ran
  refine ⟨agreeing.nodup, agreeing.checked_iff, ?_, ?_⟩
  · intro item
    rw [toggled]
    exact mem_toggleAll nodup _ item
  · rw [toggled]
    refine filter_toggleAll fun item member => ?_
    exact decide_eq_false (not_not_intro member)

/-- Two interests are offered over a saved selection that holds one of them and a
string that no row offers. -/
def refreshedItems : List SelectionsEvent :=
  [.replaceItems ["Art", "HPC"], .tap "Art", .tap "HPC", .replaceItems ["HPC", "Art"],
    .appear "Art", .tap "HPC"]

/-- The selection keeps its order, and a string chosen again joins at its end. -/
theorem picker_of_run_refreshedItems :
    ∃ picker, selectionsMachine.run (launch ["HPC", "Chess"]) refreshedItems = some picker ∧
      picker.trapped = false ∧ picker.selectedArray = ["Chess", "Art", "HPC"] ∧
      picker.selectedArray.Nodup :=
  have kept := picker_of_run ["HPC", "Chess"] refreshedItems _ rfl
  ⟨_, rfl, kept.1, rfl, (kept.2 (by decide)).1⟩

end Selections

end Bowfolio
