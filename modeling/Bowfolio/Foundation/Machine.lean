import Mathlib.Data.Option.Basic
import Mathlib.Tactic.Basic

/-!
# Event machines

A machine takes one event at a time and may refuse an event that its current
state does not offer. Runs are finite event lists, so the schedule of a
concurrent component is part of the run and every quantifier over runs is a
quantifier over interleavings.
-/

namespace Bowfolio

/-- A deterministic machine whose nondeterminism lies in the choice of events.
An event the state does not offer has no successor. -/
structure Machine (State Event : Type) where
  step : State → Event → Option State

namespace Machine

variable {State Event : Type} (M : Machine State Event)

/-- Execute a list of events, stopping without a result at a refused one. -/
def run : State → List Event → Option State
  | state, [] => some state
  | state, event :: events => (M.step state event).bind fun next => run next events

/-- Every step that the run takes satisfies `property`, which sees the state
before the step, the event and the state after it. A refused event ends the run. -/
def Along (property : State → Event → State → Prop) : State → List Event → Prop
  | _, [] => True
  | state, event :: events =>
      match M.step state event with
      | none => True
      | some next => property state event next ∧ Along property next events

instance decidableAlong (property : State → Event → State → Prop)
    [∀ state event next, Decidable (property state event next)] :
    ∀ (state : State) (events : List Event), Decidable (M.Along property state events)
  | _, [] => isTrue trivial
  | state, event :: events =>
      match h : M.step state event with
      | none => isTrue (by simp only [Along, h])
      | some next =>
          have := decidableAlong property next events
          decidable_of_iff (property state event next ∧ M.Along property next events)
            (by simp only [Along, h])

variable {M} {property other : State → Event → State → Prop} {invariant : State → Prop}

@[simp] theorem run_nil (state : State) : M.run state [] = some state := rfl

theorem run_cons (state : State) (event : Event) (events : List Event) :
    M.run state (event :: events) =
      (M.step state event).bind fun next => M.run next events := rfl

theorem run_cons_of_step {state next : State} {event : Event}
    (stepped : M.step state event = some next) (events : List Event) :
    M.run state (event :: events) = M.run next events := by
  rw [run_cons, stepped, Option.bind_some]

/-- A run of a nonempty event list is its first step followed by the rest. -/
theorem run_cons_inv {state final : State} {event : Event} {events : List Event}
    (ran : M.run state (event :: events) = some final) :
    ∃ next, M.step state event = some next ∧ M.run next events = some final :=
  Option.bind_eq_some_iff.mp ran

theorem along_cons_of_step {state next : State} {event : Event}
    (stepped : M.step state event = some next) (events : List Event) :
    M.Along property state (event :: events) ↔
      property state event next ∧ M.Along property next events := by
  simp only [Along, stepped]

/-- Along a run that is refused at once every property holds. -/
theorem along_cons_of_refused {state : State} {event : Event}
    (refused : M.step state event = none) (events : List Event) :
    M.Along property state (event :: events) := by
  simp only [Along, refused]

/-- **The guarded invariant rule.** What every guarded step preserves holds
after every run whose steps all satisfy the guard. -/
theorem invariant_of_along
    (preserved : ∀ {state event next}, invariant state → M.step state event = some next →
      property state event next → invariant next)
    {state final : State} {events : List Event} (start : invariant state)
    (guarded : M.Along property state events) (ran : M.run state events = some final) :
    invariant final := by
  induction events generalizing state with
  | nil => exact Option.some.inj ran ▸ start
  | cons event events ih =>
      obtain ⟨next, stepped, rest⟩ := run_cons_inv ran
      obtain ⟨guard, tail⟩ := (along_cons_of_step stepped events).mp guarded
      exact ih (preserved start stepped guard) tail rest

/-- What every step preserves holds after every run. -/
theorem invariant_of_run
    (preserved : ∀ {state event next}, invariant state → M.step state event = some next →
      invariant next)
    {state final : State} {events : List Event} (start : invariant state)
    (ran : M.run state events = some final) : invariant final := by
  induction events generalizing state with
  | nil => exact Option.some.inj ran ▸ start
  | cons event events ih =>
      obtain ⟨next, stepped, rest⟩ := run_cons_inv ran
      exact ih (preserved start stepped) rest

/-- **The simulation rule.** If every step from a state of the invariant acts on the
view of the state as `act` does and keeps the invariant, then a run acts on the view
as the fold of `act` over its events. -/
theorem view_of_run {View : Type} (view : State → View) (act : View → Event → View)
    (simulates : ∀ {state event next}, invariant state → M.step state event = some next →
      view next = act (view state) event ∧ invariant next)
    {state final : State} {events : List Event} (start : invariant state)
    (ran : M.run state events = some final) :
    view final = events.foldl act (view state) ∧ invariant final := by
  induction events generalizing state with
  | nil => exact Option.some.inj ran ▸ ⟨rfl, start⟩
  | cons event events ih =>
      obtain ⟨next, stepped, rest⟩ := run_cons_inv ran
      obtain ⟨acted, kept⟩ := simulates start stepped
      rw [List.foldl_cons, ← acted]
      exact ih kept rest

/-- **The stepwise transfer rule.** If, from every state of the invariant, the
guard makes a step satisfy `other` and keep the invariant, then a guarded run
satisfies `other` along the way. -/
theorem along_of_along
    (transfer : ∀ {state event next}, invariant state → M.step state event = some next →
      property state event next → other state event next ∧ invariant next)
    {state : State} {events : List Event} (start : invariant state)
    (guarded : M.Along property state events) : M.Along other state events := by
  induction events generalizing state with
  | nil => trivial
  | cons event events ih =>
      cases stepped : M.step state event with
      | none => exact along_cons_of_refused stepped events
      | some next =>
          obtain ⟨guard, tail⟩ := (along_cons_of_step stepped events).mp guarded
          obtain ⟨holds, kept⟩ := transfer start stepped guard
          exact (along_cons_of_step stepped events).mpr ⟨holds, ih kept tail⟩

/-- Guards that agree on every step from a state of the invariant agree on whole
runs, when either one keeps the invariant. -/
theorem along_iff_along
    (agree : ∀ {state event next}, invariant state → M.step state event = some next →
      (property state event next ↔ other state event next))
    (preserved : ∀ {state event next}, invariant state → M.step state event = some next →
      property state event next → invariant next)
    {state : State} {events : List Event} (start : invariant state) :
    M.Along property state events ↔ M.Along other state events :=
  ⟨along_of_along (fun kept stepped guard =>
      ⟨(agree kept stepped).mp guard, preserved kept stepped guard⟩) start,
    along_of_along (fun kept stepped guard =>
      ⟨(agree kept stepped).mpr guard, preserved kept stepped ((agree kept stepped).mpr guard)⟩)
      start⟩

end Machine

end Bowfolio
