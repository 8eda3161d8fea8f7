import Mathlib.Data.List.Infix
import Bowfolio.Editor.Sessions

/-!
# The order of the delayed writes

Which write comes last is a matter of the order of the copies, Dones, completed uploads
and callbacks, and no matter of the values written. `WriteOrder` reads that order off the
events. When every event comes in order (`WriteOrder.Ordered`), the document settles in
the values of the last session (`settles_in_last_session`). An upload that completes
after the next session's Done, a copy opened before the picture arrived, and a callback
that runs late each undo what came after them (`overtaken_by_delayed_writes`).
-/

namespace Bowfolio

variable {Image : Type}

/-- What the events tell of the delayed writes. The upload of the last Done is `own` while
it is under way; of the answers the first `outdated` were served before the last upload
completed. The last three fields tell whether the document, the last snapshot and the
editor's copy have the URL that the last upload to complete was given. -/
structure WriteOrder where
  uploads : Nat
  own : Bool
  requests : Nat
  answers : Nat
  outdated : Nat
  chosen : Bool
  picked : Bool
  document : Bool
  snapshot : Bool
  copy : Bool
  deriving DecidableEq, Repr

namespace WriteOrder

/-- Before the first session. -/
def launch : WriteOrder := ⟨0, false, 0, 0, 0, false, false, false, false, false⟩

variable (order : WriteOrder)

def step : ProfileSessionsEvent Image → WriteOrder
  | .snapshot _ => { order with snapshot := order.document }
  | .tapMyProfile => { order with copy := order.snapshot, picked := false }
  | .edit _ => order
  | .loadImage _ => { order with picked := true }
  | .handleCancelTapped => order
  | .handleDoneTapped =>
      { order with
        uploads := order.uploads + order.picked.toNat
        own := order.picked
        chosen := order.chosen || order.picked
        document := order.copy }
  | .uploadCompleted index =>
      { order with
        uploads := order.uploads - 1
        own := order.own && decide (index + 1 < order.uploads)
        requests := order.requests + 1
        outdated := order.answers
        document := false
        snapshot := false
        copy := false }
  | .downloadURL _ =>
      { order with requests := order.requests - 1, answers := order.answers + 1 }
  | .urlCallback index =>
      { order with
        answers := order.answers - 1
        outdated := if index < order.outdated then order.outdated - 1 else order.outdated
        document := decide (order.outdated ≤ index) }

/-- An upload, a request or an answer that is not outdated is still to come. -/
def UnderWay : Prop :=
  0 < order.uploads ∨ 0 < order.requests ∨ order.outdated < order.answers

/-- The event overwrites nothing newer for good. An upload completes no later than that of
the last Done; a Done without an image has the newest picture in its copy, or a newer one
is under way, or none was ever chosen; and a callback runs with a newest one under way. -/
def Allows : ProfileSessionsEvent Image → Prop
  | .handleDoneTapped =>
      order.picked = true ∨ order.copy = true ∨ order.chosen = false ∨ order.UnderWay
  | .uploadCompleted _ => order.own = true
  | .urlCallback _ => order.UnderWay
  | .snapshot _ | .tapMyProfile | .edit _ | .loadImage _ | .handleCancelTapped
  | .downloadURL _ => True

/-- Every event of the list comes in order. -/
def Ordered (order : WriteOrder) : List (ProfileSessionsEvent Image) → Prop
  | [] => True
  | event :: events => order.Allows event ∧ Ordered (order.step event) events

instance : Decidable order.UnderWay := inferInstanceAs (Decidable (_ ∨ _))

instance : (event : ProfileSessionsEvent Image) → Decidable (order.Allows event)
  | .handleDoneTapped => inferInstanceAs (Decidable (_ ∨ _))
  | .uploadCompleted _ => inferInstanceAs (Decidable (_ = _))
  | .urlCallback _ => inferInstanceAs (Decidable order.UnderWay)
  | .snapshot _ | .tapMyProfile | .edit _ | .loadImage _ | .handleCancelTapped
  | .downloadURL _ => inferInstanceAs (Decidable True)

instance decidableOrdered (order : WriteOrder) :
    (events : List (ProfileSessionsEvent Image)) → Decidable (order.Ordered events)
  | [] => inferInstanceAs (Decidable True)
  | event :: events =>
      have := decidableOrdered (order.step event) events
      inferInstanceAs (Decidable (order.Allows event ∧ (order.step event).Ordered events))

/-- The document has the newest picture or one is under way, once one was chosen. -/
structure Secured : Prop where
  bounded : order.outdated ≤ order.answers
  picture : order.chosen = true → order.document = true ∨ order.UnderWay

variable {order}

theorem secured_launch : launch.Secured :=
  ⟨le_rfl, fun chosen => absurd chosen Bool.false_ne_true⟩

/-- Events in order keep the newest picture secured. -/
theorem Secured.step (secured : order.Secured) {event : ProfileSessionsEvent Image}
    (allows : order.Allows event)
    (due : ∀ index, event = .urlCallback index → index < order.answers) :
    (order.step event).Secured := by
  obtain ⟨bounded, picture⟩ := secured
  cases event with
  | snapshot uuid => exact ⟨bounded, picture⟩
  | tapMyProfile => exact ⟨bounded, picture⟩
  | edit change => exact ⟨bounded, picture⟩
  | loadImage inputImage => exact ⟨bounded, picture⟩
  | handleCancelTapped => exact ⟨bounded, picture⟩
  | handleDoneTapped =>
      refine ⟨bounded, fun chosen => ?_⟩
      simp only [WriteOrder.step, UnderWay] at chosen ⊢
      rcases allows with picked | copied | unchosen | underWay
      · right; left
        rw [picked, Bool.toNat_true]
        omega
      · exact .inl copied
      · rw [unchosen, Bool.false_or] at chosen
        right; left
        rw [chosen, Bool.toNat_true]
        omega
      · unfold UnderWay at underWay
        omega
  | uploadCompleted index =>
      refine ⟨le_rfl, fun _ => .inr (.inr (.inl ?_))⟩
      simp only [WriteOrder.step]
      omega
  | downloadURL index =>
      have later : order.outdated < order.answers + 1 := by omega
      exact ⟨later.le, fun _ => .inr (.inr (.inr later))⟩
  | urlCallback index =>
      have pending := due index rfl
      by_cases outdated : index < order.outdated
      · refine ⟨?_, fun _ => .inr ?_⟩
        · simp only [WriteOrder.step, outdated, if_true]
          omega
        · simp only [Allows, UnderWay, WriteOrder.step, outdated, if_true] at allows ⊢
          omega
      · refine ⟨?_, fun _ => .inl ?_⟩
        · simp only [WriteOrder.step, outdated, if_false]
          omega
        · simp only [WriteOrder.step, decide_eq_true_eq]
          omega

end WriteOrder

namespace ProfileSessions

/-- The picture is the URL of the object in storage, when there is one. -/
def Shows (url : Image → String) (object : Option Image) (picture : String) : Prop :=
  ∀ image ∈ object, picture = url image

/-- The state, with the stored profile, is one that the order tells of. -/
structure Follows (url : Image → String) (path : String) (order : WriteOrder)
    (state : ProfileSessions Image) (stored : Profile) : Prop where
  uploads : state.uploads.length = order.uploads
  requests : state.requests.length = order.requests
  answers : state.answers.length = order.answers
  chosen : state.lastImage.isSome = order.chosen
  editor : ∀ view ∈ state.editor, view.image.isSome = order.picked ∧ view.isLoadImage = false
  own : order.own = true → ∃ upload, state.uploads.getLast? = some upload ∧
    state.lastDone = some upload.view.profile ∧ state.lastImage = some upload.image
  text : ∀ last ∈ state.lastDone, stored.SameText last ∨ order.own = true
  object : state.uploads = [] → ∀ image ∈ state.lastImage, state.storage path = some image
  requested : state.requests ≠ [] → (state.storage path).isSome
  served : ∀ index answer, order.outdated ≤ index → state.answers[index]? = some answer →
    Shows url (state.storage path) answer.url
  document : order.document = true → Shows url (state.storage path) stored.picture
  snapshot : order.snapshot = true → Shows url (state.storage path) state.loaded.picture
  copy : order.copy = true → ∀ view ∈ state.editor,
    Shows url (state.storage path) view.profile.picture

variable {lowercased : String → String} {url : Image → String} {email path : String}
  {order : WriteOrder} {state : ProfileSessions Image} {stored : Profile}

namespace Follows

/-- Another editor, with a copy that the order knows. -/
theorem with_editor (follows : Follows url path order state stored)
    (editor : Option (EditProfileView Image)) (picked copy : Bool)
    (known : ∀ view ∈ editor, view.image.isSome = picked ∧ view.isLoadImage = false)
    (shows : copy = true → ∀ view ∈ editor, Shows url (state.storage path) view.profile.picture) :
    Follows url path { order with picked := picked, copy := copy }
      { state with editor := editor } stored where
  uploads := follows.uploads
  requests := follows.requests
  answers := follows.answers
  chosen := follows.chosen
  editor := known
  own := follows.own
  text := follows.text
  object := follows.object
  requested := follows.requested
  served := follows.served
  document := follows.document
  snapshot := follows.snapshot
  copy := shows

/-- A Done leaves the text of its copy, and its upload as the newest one. -/
theorem done (follows : Follows url path order state stored) {view : EditProfileView Image}
    (shown : state.editor = some view) :
    Follows url path (order.step (.handleDoneTapped : ProfileSessionsEvent Image))
      ((state.closeDone view).perform (view.handleDoneTapped lowercased)) view.profile := by
  obtain ⟨picked, idle⟩ := follows.editor view shown
  have started : ((state.closeDone view).perform (view.handleDoneTapped lowercased)).uploads =
      state.uploads ++ view.image.toList.map fun image =>
        ⟨ProfilesViewModel.imagePath lowercased view.profile.email, image, view⟩ :=
    congrArg (state.uploads ++ ·) view.uploads_handleDoneTapped
  have asked : ((state.closeDone view).perform (view.handleDoneTapped lowercased)).requests =
      state.requests := by
    change state.requests ++ ProfileEffect.requests _ = state.requests
    rw [view.requests_handleDoneTapped idle, List.append_nil]
  have lastImage : ((state.closeDone view).perform (view.handleDoneTapped lowercased)).lastImage =
      view.image.or state.lastImage := rfl
  refine ⟨?_, ?_, follows.answers, ?_, (fun _ opened => nomatch opened), ?_, ?_, ?_, ?_,
    follows.served, ?_, follows.snapshot, fun _ _ opened => nomatch opened⟩
  · rw [started, List.length_append, follows.uploads]
    simp only [WriteOrder.step, ← picked]
    cases view.image <;> rfl
  · rw [asked]
    exact follows.requests
  · rw [lastImage]
    simp only [WriteOrder.step, ← picked, ← follows.chosen]
    cases view.image <;> cases state.lastImage <;> rfl
  · intro own
    obtain ⟨image, chosen⟩ := Option.isSome_iff_exists.mp (picked.trans own)
    refine ⟨⟨ProfilesViewModel.imagePath lowercased view.profile.email, image, view⟩, ?_, rfl, ?_⟩
    · rw [started, chosen]
      exact List.getLast?_concat
    · rw [lastImage, chosen, Option.some_or]
  · intro last done
    cases done
    exact .inl (.refl view.profile)
  · intro finished image last
    rw [started, List.append_eq_nil_iff] at finished
    rw [lastImage] at last
    cases chosen : view.image with
    | some other =>
        rw [chosen] at finished
        exact absurd finished.2 (List.cons_ne_nil _ _)
    | none =>
        rw [chosen, Option.none_or] at last
        exact follows.object finished.1 image last
  · rw [asked]
    exact follows.requested
  · intro copied
    exact follows.copy copied view shown

/-- A completed upload of a session before the newest one leaves the newest one. -/
theorem getLast_eraseIdx {uploads : List (ProfileUpload Image)} {index : Nat}
    (earlier : index + 1 < uploads.length) :
    (uploads.eraseIdx index).getLast? = uploads.getLast? := by
  rw [List.getLast?_eq_getElem?, List.getLast?_eq_getElem?, List.getElem?_eraseIdx,
    List.length_eraseIdx]
  simp only [show index < uploads.length by omega, if_true]
  rw [if_neg (by omega)]
  congr 1
  omega

/-- A completed upload leaves its captured text, its object and a request. -/
theorem uploadCompleted (follows : Follows url path order state stored) {index : Nat}
    {upload : ProfileUpload Image} (pending : state.uploads[index]? = some upload)
    (own : upload.path = path) (allows : order.own = true) :
    Follows url path (order.step (.uploadCompleted index : ProfileSessionsEvent Image))
      ((state.land index upload).perform (upload.view.uploadCompleted lowercased))
      upload.view.profile := by
  obtain ⟨newest, isNewest, lastDone, lastImage⟩ := follows.own allows
  have within : index < state.uploads.length := (List.getElem?_eq_some_iff.mp pending).1
  have remaining : ((state.land index upload).perform
      (upload.view.uploadCompleted lowercased)).uploads = state.uploads.eraseIdx index :=
    List.append_nil _
  have stands : ((state.land index upload).perform
      (upload.view.uploadCompleted lowercased)).storage path = some upload.image := by
    change Function.update state.storage upload.path (some upload.image) path = _
    rw [own, Function.update_self]
  -- The last one under way that completes is the newest one.
  have isLast : ¬ index + 1 < state.uploads.length → upload = newest := by
    intro last
    rw [List.getLast?_eq_getElem?, show state.uploads.length - 1 = index by omega,
      pending] at isNewest
    exact Option.some.inj isNewest
  refine ⟨?_, ?_, follows.answers, follows.chosen, follows.editor, ?_, ?_, ?_, ?_, ?_,
    nofun, nofun, nofun⟩
  · rw [remaining, List.length_eraseIdx, if_pos within, follows.uploads]
    rfl
  · change (state.requests ++ _).length = _
    rw [List.length_append, follows.requests]
    rfl
  · intro stillOwn
    simp only [WriteOrder.step, Bool.and_eq_true, decide_eq_true_eq, ← follows.uploads] at stillOwn
    refine ⟨newest, ?_, lastDone, lastImage⟩
    rw [remaining, getLast_eraseIdx stillOwn.2, isNewest]
  · intro last done
    by_cases earlier : index + 1 < state.uploads.length
    · right
      simp only [WriteOrder.step, allows, Bool.true_and, decide_eq_true_eq, ← follows.uploads]
      exact earlier
    · left
      change state.lastDone = some last at done
      rw [isLast earlier, ← Option.some.inj (lastDone.symm.trans done)]
      exact .refl _
  · intro finished image last
    rw [remaining] at finished
    have single := congrArg List.length finished
    rw [List.length_eraseIdx, if_pos within, List.length_nil] at single
    change state.lastImage = some image at last
    rw [stands, isLast (by omega), ← lastImage.symm.trans last]
  · intro _
    rw [stands]
    rfl
  · intro position answer fresh served
    have due : position < state.answers.length := (List.getElem?_eq_some_iff.mp served).1
    change order.answers ≤ position at fresh
    rw [follows.answers] at due
    omega

/-- A request is served: an upload has completed at its path. -/
theorem downloadURL (follows : Follows url path order state stored) {index : Nat}
    {request : PictureRequest} (pending : state.requests[index]? = some request)
    (own : request.path = path) :
    Follows url path (order.step (.downloadURL index : ProfileSessionsEvent Image))
      (state.serve url index request) stored := by
  have within : index < state.requests.length := (List.getElem?_eq_some_iff.mp pending).1
  have asked : state.requests ≠ [] := List.ne_nil_of_mem (List.mem_of_getElem? pending)
  obtain ⟨object, stands⟩ := Option.isSome_iff_exists.mp (follows.requested asked)
  have served : state.serve url index request =
      { state with
        requests := state.requests.eraseIdx index
        answers := state.answers ++ [⟨request.profile, url object⟩] } := by
    simp only [serve, own, stands]
  rw [served]
  refine ⟨follows.uploads, ?_, ?_, follows.chosen, follows.editor, follows.own, follows.text,
    follows.object, fun _ => follows.requested asked, ?_, follows.document, follows.snapshot,
    follows.copy⟩
  · change (state.requests.eraseIdx index).length = _
    rw [List.length_eraseIdx, if_pos within, follows.requests]
    rfl
  · change (state.answers ++ _).length = _
    rw [List.length_append, follows.answers]
    rfl
  · intro position answer fresh found
    rcases List.mem_append.mp (List.mem_of_getElem? found) with _ | added
    · by_cases earlier : position < state.answers.length
      · apply follows.served position answer fresh
        rwa [List.getElem?_append_left earlier] at found
      · rw [List.getElem?_append_right (by omega), List.getElem?_singleton] at found
        split at found
        · cases found
          intro image present
          rw [stands] at present
          exact congrArg url (Option.some.inj present)
        · cases found
    · rw [List.mem_singleton.mp added]
      intro image present
      rw [stands] at present
      exact congrArg url (Option.some.inj present)

/-- A callback leaves its URL, the newest one when its answer is not outdated. -/
theorem urlCallback (follows : Follows url path order state stored) {index : Nat}
    {answer : PictureAnswer} (pending : state.answers[index]? = some answer) :
    Follows url path (order.step (.urlCallback index : ProfileSessionsEvent Image))
      (state.callBack index answer) { stored with picture := answer.url } := by
  have within : index < state.answers.length := (List.getElem?_eq_some_iff.mp pending).1
  refine ⟨follows.uploads, follows.requests, ?_, follows.chosen, follows.editor, follows.own,
    ?_, follows.object, follows.requested, ?_, ?_, follows.snapshot, follows.copy⟩
  · change (state.answers.eraseIdx index).length = _
    rw [List.length_eraseIdx, if_pos within, follows.answers]
    rfl
  · intro last done
    refine (follows.text last done).imp_left fun same => ?_
    exact ⟨same.firstName, same.lastName, same.title, same.bio, same.interests, same.projects⟩
  · intro position other fresh found
    change (state.answers.eraseIdx index)[position]? = some other at found
    change (if index < order.outdated then order.outdated - 1 else order.outdated) ≤ position
      at fresh
    rw [List.getElem?_eraseIdx] at found
    split_ifs at found fresh with before outdated
    · omega
    · exact follows.served position other fresh found
    · exact follows.served (position + 1) other (by omega) found
    · exact follows.served (position + 1) other (by omega) found
  · intro newest
    exact follows.served index answer (of_decide_eq_true newest) pending

/-- A snapshot shows the document. -/
theorem fetch (follows : Follows url path order state stored) (uuid : String)
    (fetched : state.fetched uuid = { stored with id := some uuid }) :
    Follows url path (order.step (.snapshot uuid : ProfileSessionsEvent Image))
      { state with loaded := state.fetched uuid } stored where
  uploads := follows.uploads
  requests := follows.requests
  answers := follows.answers
  chosen := follows.chosen
  editor := follows.editor
  own := follows.own
  text := follows.text
  object := follows.object
  requested := follows.requested
  served := follows.served
  document := follows.document
  snapshot := by
    rw [fetched]
    exact follows.document
  copy := follows.copy

/-- One event keeps the state to what the order tells. -/
theorem step (follows : Follows url (ProfilesViewModel.imagePath lowercased email) order state
      stored)
    (addressed : state.Addressed lowercased email) (stores : state.db.StoresProfile email stored)
    {event : ProfileSessionsEvent Image} {next : ProfileSessions Image}
    (stepped : state.step lowercased url event = some next) (allows : order.Allows event) :
    Follows url (ProfilesViewModel.imagePath lowercased email) (order.step event) next
      (state.written stored event) := by
  cases event with
  | snapshot uuid =>
      cases stepped
      exact follows.fetch uuid (fetched_eq stores addressed.loaded uuid)
  | tapMyProfile =>
      obtain ⟨_, same⟩ := Option.ite_none_right_eq_some.mp stepped
      cases same
      refine follows.with_editor _ false order.snapshot (fun view opened => ?_)
        fun shows view opened => ?_
      · cases opened
        exact ⟨rfl, rfl⟩
      · cases opened
        exact follows.snapshot shows
  | edit change =>
      obtain ⟨view, shown, same⟩ := Option.map_eq_some_iff.mp stepped
      cases same
      refine follows.with_editor _ order.picked order.copy (fun other opened => ?_)
        fun shows other opened => ?_
      · cases opened
        cases change <;> exact follows.editor view shown
      · cases opened
        rw [(view.edit_frame change).2]
        exact follows.copy shows view shown
  | loadImage inputImage =>
      obtain ⟨view, shown, same⟩ := Option.map_eq_some_iff.mp stepped
      cases same
      refine follows.with_editor _ true order.copy (fun other opened => ?_)
        fun shows other opened => ?_
      · cases opened
        exact ⟨rfl, (follows.editor view shown).2⟩
      · cases opened
        exact follows.copy shows view shown
  | handleCancelTapped =>
      obtain ⟨view, _, same⟩ := Option.map_eq_some_iff.mp stepped
      cases same
      exact follows.with_editor none order.picked order.copy (fun _ opened => nomatch opened)
        fun _ _ opened => nomatch opened
  | handleDoneTapped =>
      obtain ⟨view, shown, same⟩ := Option.map_eq_some_iff.mp stepped
      cases same
      have saved : state.written stored .handleDoneTapped = view.profile := by
        simp [written, shown]
      rw [saved]
      exact follows.done shown
  | uploadCompleted index =>
      obtain ⟨upload, pending, same⟩ := Option.map_eq_some_iff.mp stepped
      cases same
      have saved : state.written stored (.uploadCompleted index) = upload.view.profile := by
        simp [written, pending]
      rw [saved]
      have own := (addressed.uploads upload (List.mem_of_getElem? pending)).1
      exact follows.uploadCompleted pending own allows
  | downloadURL index =>
      obtain ⟨request, pending, same⟩ := Option.map_eq_some_iff.mp stepped
      cases same
      exact follows.downloadURL pending
        (addressed.requests request (List.mem_of_getElem? pending)).1
  | urlCallback index =>
      obtain ⟨answer, pending, same⟩ := Option.map_eq_some_iff.mp stepped
      cases same
      have saved : state.written stored (.urlCallback index) =
          { stored with picture := answer.url } := by
        simp [written, pending]
      rw [saved]
      exact follows.urlCallback pending

/-- With nothing under way, the stored profile has the last values. -/
theorem settled (follows : Follows url path order state stored) (secured : order.Secured)
    (quiescent : state.Quiescent) :
    (∀ last ∈ state.lastDone, stored.SameText last) ∧
      ∀ image ∈ state.lastImage, stored.picture = url image := by
  obtain ⟨uploads, requests, answers⟩ := quiescent
  have noUploads : order.uploads = 0 := by
    rw [← follows.uploads, uploads]
    rfl
  have noRequests : order.requests = 0 := by
    rw [← follows.requests, requests]
    rfl
  have noAnswers : order.answers = 0 := by
    rw [← follows.answers, answers]
    rfl
  refine ⟨fun last done => ?_, fun image last => ?_⟩
  · refine (follows.text last done).resolve_right fun own => ?_
    obtain ⟨newest, isNewest, _⟩ := follows.own own
    rw [uploads] at isNewest
    exact nomatch isNewest
  · have chosen : order.chosen = true := by
      rw [← follows.chosen, Option.mem_def.mp last]
      rfl
    have newest := (secured.picture chosen).resolve_right (by unfold WriteOrder.UnderWay; omega)
    exact follows.document newest image (follows.object uploads image last)

end Follows

/-- The invariant of a run in order: everything concerns the own document, the newest
picture is secured, and the state is one that the order tells of. -/
structure Settling (lowercased : String → String) (url : Image → String) (email : String)
    (order : WriteOrder) (state : ProfileSessions Image) : Prop where
  addressed : state.Addressed lowercased email
  secured : order.Secured
  document : ∃ stored, state.db.StoresProfile email stored ∧ stored.email = email ∧
    Follows url (ProfilesViewModel.imagePath lowercased email) order state stored

/-- One event in order keeps the invariant. -/
theorem Settling.step (settling : Settling lowercased url email order state)
    {event : ProfileSessionsEvent Image} {next : ProfileSessions Image}
    (stepped : state.step lowercased url event = some next) (allows : order.Allows event) :
    Settling lowercased url email (order.step event) next := by
  obtain ⟨addressed, secured, stored, stores, own, follows⟩ := settling
  obtain ⟨stillAddressed, written, stillOwn⟩ := addressed.step stores own stepped
  refine ⟨stillAddressed, secured.step allows ?_, _, written, stillOwn,
    follows.step addressed stores stepped allows⟩
  rintro index rfl
  obtain ⟨answer, pending, _⟩ := Option.map_eq_some_iff.mp stepped
  rw [← follows.answers]
  exact (List.getElem?_eq_some_iff.mp pending).1

/-- A run in order keeps the invariant. -/
theorem Settling.run (settling : Settling lowercased url email order state)
    {events : List (ProfileSessionsEvent Image)} {final : ProfileSessions Image}
    (ordered : order.Ordered events)
    (ran : (sessionsMachine lowercased url).run state events = some final) :
    ∃ last, Settling lowercased url email last final := by
  induction events generalizing order state with
  | nil => exact ⟨order, Option.some.inj ran ▸ settling⟩
  | cons event events ih =>
      obtain ⟨next, stepped, rest⟩ := Machine.run_cons_inv ran
      exact ih (settling.step stepped ordered.1) ordered.2 rest

end ProfileSessions

/-- **The document settles in the last session.** In every run whose uploads, Dones and
callbacks come in order, once every callback has run the profile document holds the text
of the last Done and the URL of the image of the last Done that had one. -/
theorem settles_in_last_session (lowercased : String → String) (url : Image → String)
    (db : Database) (storage : String → Option Image) (profile : Profile) (uuid : String)
    (doc : Document) (present : db.content .profiles profile.email = some doc)
    (decoded : Profile.decode uuid profile.email doc = .ok profile)
    (events : List (ProfileSessionsEvent Image)) (final : ProfileSessions Image)
    (ordered : WriteOrder.launch.Ordered events)
    (ran : (sessionsMachine lowercased url).run (.launch db storage profile) events = some final)
    (quiescent : final.Quiescent) :
    ∃ stored, final.db.StoresProfile profile.email stored ∧
      (∀ last ∈ final.lastDone, stored.SameText last) ∧
      ∀ image ∈ final.lastImage, stored.picture = url image := by
  have begins : ProfileSessions.Follows url (ProfilesViewModel.imagePath lowercased profile.email)
      .launch (.launch db storage profile) profile :=
    ⟨rfl, rfl, rfl, rfl, nofun, nofun, nofun, nofun, fun asked => absurd rfl asked,
      (fun _ _ _ found => nomatch found), nofun, nofun, nofun⟩
  have start : ProfileSessions.Settling lowercased url profile.email .launch
      (.launch db storage profile) :=
    ⟨⟨rfl, nofun, nofun, nofun, nofun⟩, WriteOrder.secured_launch, profile,
      ⟨doc, present, (Profile.decode_eq_ok_iff.mp decoded).2⟩, rfl, begins⟩
  obtain ⟨order, _, secured, stored, stores, _, follows⟩ := start.run ordered ran
  exact ⟨stored, stores, follows.settled secured quiescent⟩

/-- The user's profile before the first session. -/
def storedProfile : Profile :=
  ⟨some "i-1", "Ann", "Lee", "ann@uni.edu", "Corals", "Dr.", ["Reef"], ["Biology"], ""⟩

def storedDatabase : Database :=
  Database.empty.commit (ProfileViewModel.addProfile storedProfile)

/-- The second session picks another image while the first upload is under way, both
pictures arrive in order, and the third session keeps the picture it shows. -/
def orderedEvents : List (ProfileSessionsEvent String) :=
  [.tapMyProfile, .edit (.title "Prof."), .loadImage "portrait", .handleDoneTapped,
    .tapMyProfile, .edit (.bio "Reefs"), .loadImage "diving", .handleDoneTapped,
    .uploadCompleted 0, .downloadURL 0, .uploadCompleted 0, .downloadURL 0,
    .urlCallback 0, .urlCallback 0, .snapshot "i-2", .tapMyProfile, .edit (.firstName "Anne"),
    .handleDoneTapped]

/-- The document has the name of the third session and the picture of the second. -/
theorem settles_in_last_session_orderedEvents :
    ∃ final,
      (sessionsMachine asciiLowercased ("url-" ++ ·)).run
        (.launch storedDatabase (fun _ => none) storedProfile) orderedEvents = some final ∧
      final.lastImage = some "diving" ∧
      ∃ stored, final.db.StoresProfile "ann@uni.edu" stored ∧ stored.firstName = "Anne" ∧
        stored.picture = "url-diving" := by
  have ends : ((sessionsMachine asciiLowercased ("url-" ++ ·)).run
      (.launch storedDatabase (fun _ => none) storedProfile) orderedEvents).map
        (fun final => (final.uploads, final.requests, final.answers, final.lastImage,
          final.lastDone.map Profile.firstName)) =
      some ([], [], [], some "diving", some "Anne") := by
    decide +kernel
  obtain ⟨final, ran, parts⟩ := Option.map_eq_some_iff.mp ends
  simp only [Prod.mk.injEq] at parts
  obtain ⟨uploads, requests, answers, lastImage, named⟩ := parts
  obtain ⟨last, done, named⟩ := Option.map_eq_some_iff.mp named
  obtain ⟨stored, stores, text, picture⟩ := settles_in_last_session asciiLowercased ("url-" ++ ·)
    storedDatabase (fun _ => none) storedProfile "i-1" _ rfl rfl orderedEvents final (by decide)
    ran ⟨uploads, requests, answers⟩
  exact ⟨final, ran, lastImage, stored, stores, (text last done).firstName.trans named,
    picture "diving" lastImage⟩

/-- The second session is done before the first one's upload completes. -/
def overtakenByUpload : List (ProfileSessionsEvent String) :=
  [.tapMyProfile, .loadImage "portrait", .handleDoneTapped, .tapMyProfile,
    .edit (.firstName "Anne"), .handleDoneTapped, .uploadCompleted 0, .downloadURL 0,
    .urlCallback 0]

/-- The second session opens before the picture arrives and is done after it. -/
def overtakenByCopy : List (ProfileSessionsEvent String) :=
  [.tapMyProfile, .loadImage "portrait", .handleDoneTapped, .tapMyProfile, .uploadCompleted 0,
    .downloadURL 0, .urlCallback 0, .handleDoneTapped]

/-- The URL of the first image arrives after that of the second. -/
def overtakenByCallback : List (ProfileSessionsEvent String) :=
  [.tapMyProfile, .loadImage "portrait", .handleDoneTapped, .tapMyProfile, .loadImage "diving",
    .handleDoneTapped, .uploadCompleted 0, .downloadURL 0, .uploadCompleted 0, .downloadURL 0,
    .urlCallback 1, .urlCallback 0]

/-- Once every callback of the run has run, the document lacks a last value. -/
def LeavesOlderValue (events : List (ProfileSessionsEvent String)) : Prop :=
  ∃ final stored,
    (sessionsMachine asciiLowercased ("url-" ++ ·)).run
      (.launch storedDatabase (fun _ => none) storedProfile) events = some final ∧
    final.Quiescent ∧ final.db.StoresProfile "ann@uni.edu" stored ∧
    ¬ ((∀ last ∈ final.lastDone, stored.SameText last) ∧
      ∀ image ∈ final.lastImage, stored.picture = "url-" ++ image)

/-- Each of the three kinds of delayed write leaves an older value for good. -/
theorem overtaken_by_delayed_writes :
    LeavesOlderValue overtakenByUpload ∧ LeavesOlderValue overtakenByCopy ∧
      LeavesOlderValue overtakenByCallback := by
  refine ⟨⟨_, { storedProfile with picture := "url-portrait" }, rfl, ⟨rfl, rfl, rfl⟩,
      ⟨_, rfl, ?_⟩, by decide⟩,
    ⟨_, storedProfile, rfl, ⟨rfl, rfl, rfl⟩, ⟨_, rfl, ?_⟩, by decide⟩,
    ⟨_, { storedProfile with picture := "url-portrait" }, rfl, ⟨rfl, rfl, rfl⟩,
      ⟨_, rfl, ?_⟩, by decide⟩⟩
  all_goals exact Profile.storedIn_iff.mpr ⟨rfl, rfl, rfl, rfl, rfl, rfl, rfl, rfl⟩

end Bowfolio
