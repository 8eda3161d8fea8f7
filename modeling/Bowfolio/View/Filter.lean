import Bowfolio.View.Interests
import Bowfolio.View.Selections

/-!
# The filter page

`FilterView` offers the interests of its snapshot in a picker and shows the cards of
the profiles that hold a selected one. The page composes the collection of interests,
the picker with its two copies of the selection, and the filtering loop: the cards are
the profiles with an interest that was tapped an odd number of times
(`FilterView.cards_of_run`).
-/

namespace Bowfolio

/-- What the two view models of the page publish, and its picker. -/
structure FilterView where
  profiles : List Profile
  projects : List Project
  picker : Selections

/-- A snapshot of either collection, the button that opens the picker, and what happens
to a row of the picker. -/
inductive FilterEvent where
  | publishProfiles (profiles : List Profile)
  | publishProjects (projects : List Project)
  | openPicker
  | appear (item : String)
  | tap (item : String)
  deriving DecidableEq, Repr

namespace FilterView

/-- The page before its first snapshot, with nothing selected. -/
def launch : FilterView where
  profiles := []
  projects := []
  picker := .launch []

/-- The loops of `FilterView.getProfiles`; the inner one leaves a flag. -/
def getProfiles (published : List Profile) (interests : List String) : List Profile :=
  published.foldl
    (fun profiles profile =>
      let isContains := interests.foldl
        (fun isContains interest =>
          if profile.interests.contains interest then true else isContains) false
      if isContains then profiles ++ [profile] else profiles) []

/-- The cards below the selection. -/
def cards (view : FilterView) : List Profile :=
  getProfiles view.profiles view.picker.selectedArray

/-- A step of the picker. -/
def pick (view : FilterView) (event : SelectionsEvent) : Option FilterView :=
  (selectionsMachine.step view.picker event).map fun picker => { view with picker }

def step (view : FilterView) : FilterEvent → Option FilterView
  | .publishProfiles profiles => some { view with profiles }
  | .publishProjects projects => some { view with projects }
  | .openPicker => view.pick (.replaceItems (getInterests view.profiles view.projects))
  | .appear item => view.pick (.appear item)
  | .tap item => view.pick (.tap item)

end FilterView

/-- The filter page as a machine. -/
def filterMachine : Machine FilterView FilterEvent where
  step := FilterView.step

namespace FilterEvent

/-- What an event does to the selection: a tap toggles its string. -/
def act (selected : List String) : FilterEvent → List String
  | .tap item => toggle selected item
  | _ => selected

/-- The strings whose rows are tapped, in order. -/
def tapped (events : List FilterEvent) : List String :=
  events.filterMap fun
    | .tap item => some item
    | _ => none

/-- Of the events only the taps act on the selection. -/
theorem foldl_act (selected : List String) (events : List FilterEvent) :
    events.foldl act selected = toggleAll selected (tapped events) := by
  induction events generalizing selected with
  | nil => rfl
  | cons event events ih =>
      cases event with
      | tap item => exact ih (toggle selected item)
      | publishProfiles | publishProjects | openPicker | appear => exact ih selected

end FilterEvent

namespace FilterView

/-! ## The filtering loops -/

/-- The loops keep the profiles that hold one of the interests. -/
theorem getProfiles_eq_filter (published : List Profile) (interests : List String) :
    getProfiles published interests =
      published.filter fun profile => interests.any fun interest =>
        profile.interests.contains interest := by
  unfold getProfiles
  simp only [foldl_flag, Bool.false_or]
  exact (foldl_append_value _ id published []).trans (by rw [List.map_id, List.nil_append])

/-- A larger selection shows at least the same cards, in the same order. -/
theorem getProfiles_sublist (published : List Profile) {interests more : List String}
    (included : ∀ interest ∈ interests, interest ∈ more) :
    (getProfiles published interests).Sublist (getProfiles published more) := by
  rw [getProfiles_eq_filter, getProfiles_eq_filter]
  refine List.monotone_filter_right published fun profile held => ?_
  obtain ⟨interest, selected, contained⟩ := List.any_eq_true.mp held
  exact List.any_eq_true.mpr ⟨interest, included interest selected, contained⟩

/-! ## Runs of the page -/

variable {view next final : FilterView} {events : List FilterEvent}

/-- Every step acts on the selection as its event does and keeps the picker in order. -/
theorem step_act {event : FilterEvent} (agreeing : view.picker.Agreeing)
    (stepped : view.step event = some next) :
    next.picker.selectedArray = event.act view.picker.selectedArray ∧ next.picker.Agreeing := by
  cases event with
  | publishProfiles | publishProjects =>
      cases stepped
      exact ⟨rfl, agreeing⟩
  | openPicker | appear item | tap item =>
      obtain ⟨picker, picked, rfl⟩ := Option.map_eq_some_iff.mp stepped
      exact agreeing.step picked

/-- The selection toggles with the tapped strings. -/
theorem selectedArray_of_run (ran : filterMachine.run launch events = some final) :
    final.picker.selectedArray = toggleAll [] (FilterEvent.tapped events) ∧
      final.picker.Agreeing := by
  have simulated := Machine.view_of_run (fun view : FilterView => view.picker.selectedArray)
    FilterEvent.act step_act (Selections.agreeing_launch List.nodup_nil) ran
  rwa [FilterEvent.foldl_act] at simulated

/-- An interest is selected when it was tapped an odd number of times. -/
theorem mem_selectedArray_of_run (ran : filterMachine.run launch events = some final)
    (interest : String) :
    interest ∈ final.picker.selectedArray ↔ Odd ((FilterEvent.tapped events).count interest) := by
  rw [(selectedArray_of_run ran).1, mem_toggleAll List.nodup_nil]
  simp [xor_iff_iff_not]

/-- Opening the picker is always possible: its items are distinct and nothing traps. -/
theorem openPicker_of_run (ran : filterMachine.run launch events = some final) :
    (final.step .openPicker).isSome := by
  have running := (selectedArray_of_run ran).2.running
  have distinct : (getInterests final.profiles final.projects).Nodup :=
    nodup_collectInterests final.profiles final.projects
  simp [step, pick, selectionsMachine, running, distinct]

/-- The cards are the profiles with an interest that was tapped an odd number of times. -/
theorem cards_eq_filter (ran : filterMachine.run launch events = some final) :
    final.cards = final.profiles.filter fun profile =>
      ∃ interest ∈ profile.interests, Odd ((FilterEvent.tapped events).count interest) := by
  rw [cards, getProfiles_eq_filter]
  refine List.filter_congr fun profile _ => ?_
  rw [Bool.eq_iff_iff, List.any_eq_true, decide_eq_true_iff]
  simp only [List.contains_iff_mem, mem_selectedArray_of_run ran, and_comm]

/-- One more selected interest removes no card. -/
theorem cards_sublist_of_tap (ran : filterMachine.run launch events = some final)
    {interest : String} (unselected : interest ∉ final.picker.selectedArray)
    (stepped : final.step (.tap interest) = some next) : final.cards.Sublist next.cards := by
  obtain ⟨selection, _⟩ := step_act (selectedArray_of_run ran).2 stepped
  obtain ⟨picker, picked, rfl⟩ := Option.map_eq_some_iff.mp stepped
  refine getProfiles_sublist final.profiles fun other selected => ?_
  rw [selection, FilterEvent.act, toggle_of_not_mem unselected]
  exact List.mem_append_left _ selected

/-- **The filter page.** After every run from launch, the cards are the profiles of the
snapshot that hold an interest tapped an odd number of times, in snapshot order. Runs
whose taps have the same parities show the same cards of the same snapshot, selecting
one more interest removes none, and when every offered interest is selected the cards
are the profiles with any interests. -/
theorem cards_of_run (events : List FilterEvent) (final : FilterView)
    (ran : filterMachine.run launch events = some final) :
    (final.cards = final.profiles.filter fun profile =>
      ∃ interest ∈ profile.interests, Odd ((FilterEvent.tapped events).count interest)) ∧
    (∀ others other, filterMachine.run launch others = some other →
      other.profiles = final.profiles →
      (∀ interest, Odd ((FilterEvent.tapped others).count interest) ↔
        Odd ((FilterEvent.tapped events).count interest)) → other.cards = final.cards) ∧
    (∀ interest next, interest ∉ final.picker.selectedArray →
      final.step (.tap interest) = some next → final.cards.Sublist next.cards) ∧
    ((∀ interest ∈ getInterests final.profiles final.projects,
        Odd ((FilterEvent.tapped events).count interest)) →
      final.cards = final.profiles.filter fun profile => profile.interests ≠ []) := by
  refine ⟨cards_eq_filter ran, fun others other ranOthers same parities => ?_,
    fun interest next unselected stepped => cards_sublist_of_tap ran unselected stepped,
    fun everything => ?_⟩
  · rw [cards_eq_filter ran, cards_eq_filter ranOthers, same]
    simp only [parities]
  · rw [cards_eq_filter ran]
    apply List.filter_congr
    intro profile listed
    rw [decide_eq_decide]
    constructor
    · rintro ⟨interest, held, _⟩
      exact List.ne_nil_of_mem held
    · intro interested
      obtain ⟨interest, held⟩ := List.exists_mem_of_ne_nil _ interested
      have offered : interest ∈ getInterests final.profiles final.projects :=
        mem_collectInterests.mpr (.inl ⟨profile, listed, held⟩)
      exact ⟨interest, held, everything interest offered⟩

/-- A profile with the given identifier and interests. -/
def interested (id : String) (interests : List String) : Profile :=
  ⟨some id, "Ann", "Lee", id, "", "", [], interests, ""⟩

/-- One interest is selected and deselected, the other selected. -/
def filterEvents : List FilterEvent :=
  [.publishProfiles [interested "a" ["Art"], interested "b" ["HPC", "Art"], interested "c" []],
    .openPicker, .tap "Art", .tap "HPC", .tap "Art"]

/-- The profile with the interest that is still selected is shown. -/
theorem cards_of_run_filterEvents :
    ∃ final, filterMachine.run launch filterEvents = some final ∧
      final.cards = [interested "b" ["HPC", "Art"]] :=
  ⟨_, rfl, (cards_of_run filterEvents _ rfl).1.trans (by decide)⟩

end FilterView

end Bowfolio
