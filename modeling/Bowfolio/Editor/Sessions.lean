import Mathlib.Data.List.Basic
import Bowfolio.Foundation.Machine
import Bowfolio.Swift.Text
import Bowfolio.View.EditProfile

/-!
# Edit sessions that overlap their callbacks

A Done writes the profile at once; the completion of its upload writes the captured
profile a second time, and the callback of the download URL then sets the picture.
Sessions follow one another while these delayed writes are still under way. All of
them concern the user's own document and image (`Addressed`).
-/

namespace Bowfolio

variable {Image : Type}

/-- A served download-URL request whose callback has not run yet. -/
structure PictureAnswer where
  profile : Profile
  url : String
  deriving DecidableEq

/-- The sessions of one user: the stores, the profile of the last snapshot, the open
editor, and what is under way. The last two fields only record the values of the last
Done and the image of the last Done that had one. -/
structure ProfileSessions (Image : Type) where
  db : Database
  storage : String → Option Image
  loaded : Profile
  editor : Option (EditProfileView Image)
  uploads : List (ProfileUpload Image)
  requests : List PictureRequest
  answers : List PictureAnswer
  lastDone : Option Profile
  lastImage : Option Image

inductive ProfileSessionsEvent (Image : Type) where
  | snapshot (uuid : String)
  | tapMyProfile
  | edit (change : ProfileEdit)
  | loadImage (inputImage : Image)
  | handleCancelTapped
  | handleDoneTapped
  | uploadCompleted (index : Nat)
  | downloadURL (index : Nat)
  | urlCallback (index : Nat)
  deriving DecidableEq

namespace ProfileSessions

/-- Before the first session, with nothing under way. -/
def launch (db : Database) (storage : String → Option Image) (loaded : Profile) :
    ProfileSessions Image :=
  ⟨db, storage, loaded, none, [], [], [], none, none⟩

variable (lowercased : String → String) (url : Image → String) (state : ProfileSessions Image)

/-- Issue the requests of the editor; the writes take effect in order. -/
def perform (effects : List (ProfileEffect Image)) : ProfileSessions Image :=
  { state with
    db := state.db.commitAll (ProfileEffect.writes effects)
    uploads := state.uploads ++ ProfileEffect.uploads effects
    requests := state.requests ++ ProfileEffect.requests effects }

/-- The own profile as the next snapshot decodes it. -/
def fetched (uuid : String) : Profile :=
  ((state.db.content .profiles state.loaded.email).bind fun doc =>
    (Profile.decode uuid state.loaded.email doc).toOption).getD state.loaded

/-- The editor closes with a Done. -/
def closeDone (view : EditProfileView Image) : ProfileSessions Image :=
  { state with
    editor := none
    lastDone := some view.profile
    lastImage := view.image.or state.lastImage }

/-- An upload leaves the ones under way and its object replaces the one at its path. -/
def land (index : Nat) (upload : ProfileUpload Image) : ProfileSessions Image :=
  { state with
    storage := Function.update state.storage upload.path (some upload.image)
    uploads := state.uploads.eraseIdx index }

/-- Storage serves a request with the URL of the object at its path. Without one the
request fails and its callback repeats it. -/
def serve (index : Nat) (request : PictureRequest) : ProfileSessions Image :=
  match state.storage request.path with
  | none => state
  | some image =>
      { state with
        requests := state.requests.eraseIdx index
        answers := state.answers ++ [⟨request.profile, url image⟩] }

/-- The callback of an answered request. -/
def callBack (index : Nat) (answer : PictureAnswer) : ProfileSessions Image :=
  { state with
    db := state.db.commit (ProfilesViewModel.updatePicture answer.profile answer.url)
    answers := state.answers.eraseIdx index }

def step : ProfileSessionsEvent Image → Option (ProfileSessions Image)
  | .snapshot uuid => some { state with loaded := state.fetched uuid }
  | .tapMyProfile =>
      if state.editor.isNone then some { state with editor := some (.launch state.loaded) }
      else none
  | .edit change => state.editor.map fun view => { state with editor := some (view.edit change) }
  | .loadImage inputImage =>
      state.editor.map fun view => { state with editor := some (view.loadImage inputImage) }
  | .handleCancelTapped => state.editor.map fun _ => { state with editor := none }
  | .handleDoneTapped =>
      state.editor.map fun view => (state.closeDone view).perform (view.handleDoneTapped lowercased)
  | .uploadCompleted index =>
      state.uploads[index]?.map fun upload =>
        (state.land index upload).perform (upload.view.uploadCompleted lowercased)
  | .downloadURL index =>
      state.requests[index]?.map fun request => state.serve url index request
  | .urlCallback index => state.answers[index]?.map fun answer => state.callBack index answer

/-- Every callback has run. -/
def Quiescent : Prop :=
  state.uploads = [] ∧ state.requests = [] ∧ state.answers = []

end ProfileSessions

/-- The sessions as a machine. -/
def sessionsMachine (lowercased : String → String) (url : Image → String) :
    Machine (ProfileSessions Image) (ProfileSessionsEvent Image) where
  step := ProfileSessions.step lowercased url

/-- The two profiles agree on everything that a Done settles itself. -/
structure Profile.SameText (first second : Profile) : Prop where
  firstName : first.firstName = second.firstName
  lastName : first.lastName = second.lastName
  title : first.title = second.title
  bio : first.bio = second.bio
  interests : first.interests = second.interests
  projects : first.projects = second.projects

instance (first second : Profile) : Decidable (first.SameText second) :=
  decidable_of_iff
    (first.firstName = second.firstName ∧ first.lastName = second.lastName ∧
      first.title = second.title ∧ first.bio = second.bio ∧
      first.interests = second.interests ∧ first.projects = second.projects)
    ⟨fun ⟨firstName, lastName, title, bio, interests, projects⟩ =>
        ⟨firstName, lastName, title, bio, interests, projects⟩,
      fun ⟨firstName, lastName, title, bio, interests, projects⟩ =>
        ⟨firstName, lastName, title, bio, interests, projects⟩⟩

theorem Profile.SameText.refl (profile : Profile) : profile.SameText profile :=
  ⟨rfl, rfl, rfl, rfl, rfl, rfl⟩

namespace ProfileSessions

/-- The profile that the document holds after the event, when it held `stored` before. -/
def written (state : ProfileSessions Image) (stored : Profile) :
    ProfileSessionsEvent Image → Profile
  | .handleDoneTapped => (state.editor.map EditProfileView.profile).getD stored
  | .uploadCompleted index =>
      (state.uploads[index]?.map fun upload => upload.view.profile).getD stored
  | .urlCallback index =>
      (state.answers[index]?.map fun answer => { stored with picture := answer.url }).getD stored
  | .snapshot _ | .tapMyProfile | .edit _ | .loadImage _ | .handleCancelTapped
  | .downloadURL _ => stored

/-- Everything open or under way concerns the user's own document and image. -/
structure Addressed (lowercased : String → String) (email : String)
    (state : ProfileSessions Image) : Prop where
  loaded : state.loaded.email = email
  editor : ∀ view ∈ state.editor, view.profile.email = email
  uploads : ∀ upload ∈ state.uploads,
    upload.path = ProfilesViewModel.imagePath lowercased email ∧ upload.view.profile.email = email
  requests : ∀ request ∈ state.requests,
    request.path = ProfilesViewModel.imagePath lowercased email ∧ request.profile.email = email
  answers : ∀ answer ∈ state.answers, answer.profile.email = email

variable {lowercased : String → String} {url : Image → String} {email : String}
  {state : ProfileSessions Image}

/-- A snapshot of the own document shows the stored profile. -/
theorem fetched_eq {stored : Profile} (stores : state.db.StoresProfile email stored)
    (loaded : state.loaded.email = email) (uuid : String) :
    state.fetched uuid = { stored with id := some uuid } := by
  obtain ⟨doc, present, held⟩ := stores
  rw [fetched, loaded, present, Option.bind_some, held.decode_eq_ok]
  rfl

namespace Addressed

/-- The requests of an editor over the own profile. -/
theorem perform (addressed : state.Addressed lowercased email) {profile : Profile}
    {effects : List (ProfileEffect Image)} (own : profile.email = email)
    (uploads : ∀ upload ∈ ProfileEffect.uploads effects,
      upload.path = ProfilesViewModel.imagePath lowercased profile.email ∧
        upload.view.profile = profile)
    (requests : ∀ request ∈ ProfileEffect.requests effects,
      request = ⟨ProfilesViewModel.imagePath lowercased profile.email, profile⟩) :
    (state.perform effects).Addressed lowercased email where
  loaded := addressed.loaded
  editor := addressed.editor
  uploads := by
    intro upload member
    rcases List.mem_append.mp member with earlier | started
    · exact addressed.uploads upload earlier
    · obtain ⟨path, same⟩ := uploads upload started
      exact ⟨own ▸ path, same ▸ own⟩
  requests := by
    intro request member
    rcases List.mem_append.mp member with earlier | issued
    · exact addressed.requests request earlier
    · rw [requests request issued]
      exact ⟨own ▸ rfl, own⟩
  answers := addressed.answers

/-- Done writes and uploads at the own document only. -/
theorem done (addressed : state.Addressed lowercased email) {view : EditProfileView Image}
    (own : view.profile.email = email) :
    ((state.closeDone view).perform (view.handleDoneTapped lowercased)).Addressed
      lowercased email := by
  have closed : (state.closeDone view).Addressed lowercased email :=
    ⟨addressed.loaded, (fun _ shown => nomatch shown), addressed.uploads, addressed.requests,
      addressed.answers⟩
  refine closed.perform own (fun upload member => ?_)
    fun request member => view.mem_requests_handleDoneTapped member
  rw [view.uploads_handleDoneTapped] at member
  obtain ⟨image, _, rfl⟩ := List.mem_map.mp member
  exact ⟨rfl, rfl⟩

/-- A completed upload writes and asks at the own document only. -/
theorem uploadCompleted (addressed : state.Addressed lowercased email) (index : Nat)
    {upload : ProfileUpload Image} (own : upload.view.profile.email = email) :
    ((state.land index upload).perform (upload.view.uploadCompleted lowercased)).Addressed
      lowercased email := by
  have landed : (state.land index upload).Addressed lowercased email :=
    ⟨addressed.loaded, addressed.editor,
      fun other member => addressed.uploads other (List.mem_of_mem_eraseIdx member),
      addressed.requests, addressed.answers⟩
  exact landed.perform own (fun _ member => nomatch member)
    fun request member => List.mem_singleton.mp member

/-- An answered request concerns the own document. -/
theorem serve (addressed : state.Addressed lowercased email) (index : Nat)
    {request : PictureRequest} (own : request.profile.email = email) :
    (state.serve url index request).Addressed lowercased email := by
  unfold ProfileSessions.serve
  cases state.storage request.path with
  | none => exact addressed
  | some image =>
      refine ⟨addressed.loaded, addressed.editor, addressed.uploads,
        fun other member => addressed.requests other (List.mem_of_mem_eraseIdx member), ?_⟩
      intro answer member
      rcases List.mem_append.mp member with earlier | served
      · exact addressed.answers answer earlier
      · rw [List.mem_singleton.mp served]
        exact own

/-- Another editor over the own document. -/
theorem with_editor (addressed : state.Addressed lowercased email)
    (editor : Option (EditProfileView Image)) (own : ∀ view ∈ editor, view.profile.email = email) :
    ({ state with editor := editor } : ProfileSessions Image).Addressed lowercased email :=
  ⟨addressed.loaded, own, addressed.uploads, addressed.requests, addressed.answers⟩

/-- One event keeps to the own document, and leaves the written profile in it. -/
theorem step (addressed : state.Addressed lowercased email) {stored : Profile}
    (stores : state.db.StoresProfile email stored) (own : stored.email = email)
    {event : ProfileSessionsEvent Image} {next : ProfileSessions Image}
    (stepped : state.step lowercased url event = some next) :
    next.Addressed lowercased email ∧ next.db.StoresProfile email (state.written stored event) ∧
      (state.written stored event).email = email := by
  cases event with
  | snapshot uuid =>
      cases stepped
      refine ⟨⟨?_, addressed.editor, addressed.uploads, addressed.requests, addressed.answers⟩,
        stores, own⟩
      change (state.fetched uuid).email = email
      rw [fetched_eq stores addressed.loaded]
      exact own
  | tapMyProfile =>
      obtain ⟨_, same⟩ := Option.ite_none_right_eq_some.mp stepped
      cases same
      refine ⟨addressed.with_editor _ fun _ opened => ?_, stores, own⟩
      cases opened
      exact addressed.loaded
  | edit change =>
      obtain ⟨view, shown, same⟩ := Option.map_eq_some_iff.mp stepped
      cases same
      refine ⟨addressed.with_editor _ fun _ opened => ?_, stores, own⟩
      cases opened
      exact (view.edit_frame change).1.trans (addressed.editor view shown)
  | loadImage inputImage =>
      obtain ⟨view, shown, same⟩ := Option.map_eq_some_iff.mp stepped
      cases same
      refine ⟨addressed.with_editor _ fun _ opened => ?_, stores, own⟩
      cases opened
      exact addressed.editor view shown
  | handleCancelTapped =>
      obtain ⟨view, _, same⟩ := Option.map_eq_some_iff.mp stepped
      cases same
      exact ⟨addressed.with_editor _ (fun _ shown => nomatch shown), stores, own⟩
  | handleDoneTapped =>
      obtain ⟨view, shown, same⟩ := Option.map_eq_some_iff.mp stepped
      cases same
      have ownView := addressed.editor view shown
      have saved : state.written stored .handleDoneTapped = view.profile := by
        simp [written, shown]
      rw [saved]
      refine ⟨addressed.done ownView, ?_, ownView⟩
      change Database.StoresProfile (state.db.commitAll _) email view.profile
      rw [view.writes_handleDoneTapped]
      exact stores.updateProfile ownView
  | uploadCompleted index =>
      obtain ⟨upload, pending, same⟩ := Option.map_eq_some_iff.mp stepped
      cases same
      have ownView := (addressed.uploads upload (List.mem_of_getElem? pending)).2
      have saved : state.written stored (.uploadCompleted index) = upload.view.profile := by
        simp [written, pending]
      rw [saved]
      exact ⟨addressed.uploadCompleted index ownView, stores.updateProfile ownView, ownView⟩
  | downloadURL index =>
      obtain ⟨request, pending, same⟩ := Option.map_eq_some_iff.mp stepped
      cases same
      have ownRequest := (addressed.requests request (List.mem_of_getElem? pending)).2
      refine ⟨addressed.serve index ownRequest, ?_, own⟩
      unfold ProfileSessions.serve
      cases state.storage request.path <;> exact stores
  | urlCallback index =>
      obtain ⟨answer, pending, same⟩ := Option.map_eq_some_iff.mp stepped
      cases same
      have ownAnswer := addressed.answers answer (List.mem_of_getElem? pending)
      have saved : state.written stored (.urlCallback index) =
          { stored with picture := answer.url } := by
        simp [written, pending]
      rw [saved]
      exact ⟨⟨addressed.loaded, addressed.editor, addressed.uploads, addressed.requests,
          fun other member => addressed.answers other (List.mem_of_mem_eraseIdx member)⟩,
        stores.updatePicture ownAnswer answer.url, own⟩

end Addressed

end ProfileSessions

end Bowfolio
