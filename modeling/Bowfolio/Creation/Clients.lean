import Bowfolio.Foundation.Machine
import Bowfolio.Creation.ProjectNames
import Bowfolio.View.AddProject
import Bowfolio.View.Home

/-!
# Clients over one database

Any number of clients load snapshots, edit profiles and create projects. The writes of
one client take effect in the order in which it issues them, each on its own; any of
them may fail, and an app that stops leaves the rest of its writes unissued. Until a write
is acknowledged, the listeners of its own client show it on top of the documents that the
client has received, as Firestore's local view does (`Firestore.client_refines_database`).
-/

namespace Bowfolio

variable {Image : Type}

/-- A running app: its loaded collections, the profile that `HomeView` holds, the open
editor and the uploads under way. Firestore keeps for it the documents it has received,
the writes in effect that are not acknowledged yet, and those issued but not yet in
effect. The last field only records the names of the projects whose creation failed. -/
structure Client (Image : Type) where
  profiles : List Profile
  projects : List Project
  profile : Profile
  editor : Option (EditProfileView Image)
  uploads : List (ProfileUpload Image)
  cache : Database
  unacknowledged : List Write
  queue : List Write
  lost : List String

/-- What happens inside one app, apart from the creation of a project. The last two are
the callbacks of download URLs. -/
inductive ClientEvent (Image : Type) where
  | receive (collection : CollectionName) (document : String)
  | profilesSnapshot (uuids : Nat → String)
  | projectsSnapshot (uuids : Nat → String)
  | tapMyProfile (currentUser : Option String)
  | edit (change : ProfileEdit)
  | loadImage (inputImage : Image)
  | handleCancelTapped
  | handleDoneTapped
  | uploadCompleted (index : Nat)
  | uploadFailed (index : Nat)
  | profileURL (profile : Profile) (url : String)
  | projectURL (project : Project) (url : String)

namespace Client

/-- The app at launch; the profile of `HomeView` is a placeholder. -/
def launch (uuid : String) : Client Image where
  profiles := []
  projects := []
  profile := { ProfileViewModel.initialProfile uuid with email := "a" }
  editor := none
  uploads := []
  cache := .empty
  unacknowledged := []
  queue := []
  lost := []

variable (lowercased : String → String) (client : Client Image)

/-- The picker of projects offers the names of the loaded projects next to those that
are selected already. -/
def Offers (view : EditProfileView Image) : ProfileEdit → Prop
  | .projects selectedArray => ∀ name ∈ selectedArray,
      name ∈ view.profile.projects ∨ name ∈ client.projects.map Project.name
  | _ => True

instance (view : EditProfileView Image) :
    (change : ProfileEdit) → Decidable (client.Offers view change)
  | .projects selectedArray => inferInstanceAs (Decidable (∀ name ∈ selectedArray, _))
  | .firstName _ | .lastName _ | .title _ | .bio _ | .interests _ =>
      inferInstanceAs (Decidable True)

/-- The documents as the listeners of the client show them. -/
def shown : Database :=
  client.cache.commitAll (client.unacknowledged ++ client.queue)

/-- The names of the projects whose creation is issued but not yet in effect. -/
def creating : List String :=
  client.queue.filterMap Write.created

/-- The server's current document arrives. -/
def receive (db : Database) (collection : CollectionName) (document : String) : Client Image :=
  match db.content collection document with
  | some doc => { client with cache := client.cache.commit ⟨collection, document, .setData doc⟩ }
  | none => client

/-- The oldest write in the queue takes effect, when the server does not refuse it. -/
def send (db : Database) : Option (Write × Client Image) :=
  match client.queue with
  | [] => none
  | write :: rest =>
      if (write.operation.apply (db.content write.collection write.document)).isSome then
        some (write,
          { client with unacknowledged := client.unacknowledged ++ [write], queue := rest })
      else none

/-- The oldest write in effect is acknowledged, and applied to what has been received. -/
def acknowledge : Option (Client Image) :=
  match client.unacknowledged with
  | [] => none
  | write :: rest =>
      some { client with unacknowledged := rest, cache := client.cache.commit write }

/-- The oldest write is rejected, after those before it have been acknowledged. -/
def reject : Option (Client Image) :=
  match client.unacknowledged, client.queue with
  | [], write :: rest =>
      some { client with queue := rest, lost := write.created.toList ++ client.lost }
  | _, _ => none

/-- The app stops and is started again. Firestore persists what it has received and the
writes issued by then, the first `issued` of the queue. -/
def restart (uuid : String) (issued : Nat) : Client Image :=
  { (launch uuid : Client Image) with
    cache := client.cache
    unacknowledged := client.unacknowledged
    queue := client.queue.take issued
    lost := client.lost }

/-- Issue the requests of the profile editor. -/
def perform (effects : List (ProfileEffect Image)) : Client Image :=
  { client with
    uploads := client.uploads ++ ProfileEffect.uploads effects
    queue := client.queue ++ ProfileEffect.writes effects }

def step (db : Database) : ClientEvent Image → Option (Client Image)
  | .receive collection document => some (client.receive db collection document)
  | .profilesSnapshot uuids =>
      some { client with
        profiles := ProfilesViewModel.fetchData uuids (client.shown .profiles).entries }
  | .projectsSnapshot uuids =>
      some { client with
        projects := ProjectsViewModel.fetchData uuids (client.shown .projects).entries }
  | .tapMyProfile currentUser =>
      let profile := userProfile lowercased client.profiles currentUser client.profile
      some { client with profile := profile, editor := some (.launch profile) }
  | .edit change =>
      client.editor.bind fun view =>
        if client.Offers view change then some { client with editor := some (view.edit change) }
        else none
  | .loadImage inputImage =>
      client.editor.map fun view => { client with editor := some (view.loadImage inputImage) }
  | .handleCancelTapped => client.editor.map fun _ => { client with editor := none }
  | .handleDoneTapped =>
      client.editor.map fun view =>
        { client with editor := none }.perform (view.handleDoneTapped lowercased)
  | .uploadCompleted index =>
      client.uploads[index]?.map fun upload =>
        { client with uploads := client.uploads.eraseIdx index }.perform
          (upload.view.uploadCompleted lowercased)
  | .uploadFailed index =>
      client.uploads[index]?.map fun _ => { client with uploads := client.uploads.eraseIdx index }
  | .profileURL profile url =>
      some { client with queue := client.queue ++ [ProfilesViewModel.updatePicture profile url] }
  | .projectURL project url =>
      (ProjectViewModel.updatePicture project url).map fun request =>
        { client with queue := client.queue ++ [request] }

end Client

/-- The database, the clients, and the name of the project for which each identifier in
use was drawn. -/
structure Deployment (Image : Type) where
  db : Database
  clients : Nat → Client Image
  names : String → Option String

/-- A step of one client, a Done in its project form, the fate of the oldest of its
writes, or the end of its app. -/
inductive DeploymentEvent (Image : Type) where
  | act (client : Nat) (event : ClientEvent Image)
  | addProject (client : Nat) (uuid : String) (draft : ProjectDraft Image)
  | takeEffect (client : Nat)
  | acknowledge (client : Nat)
  | fail (client : Nat)
  | stop (client : Nat) (uuid : String) (issued : Nat)

namespace Deployment

/-- No client has done anything yet. -/
def launch (db : Database) (uuid : String) : Deployment Image where
  db := db
  clients := fun _ => .launch uuid
  names := fun id => (db.content .projects id).bind fun doc => (doc.decodeString "name").toOption

variable (lowercased : String → String) (state : Deployment Image)

def setClient (index : Nat) (client : Client Image) : Deployment Image :=
  { state with clients := Function.update state.clients index client }

/-- The project form of a client after the user's entries. -/
def form (index : Nat) (uuid : String) (draft : ProjectDraft Image) : AddProjectView Image :=
  .fill uuid (state.clients index).profiles (state.clients index).projects draft

def step : DeploymentEvent Image → Option (Deployment Image)
  | .act index event =>
      ((state.clients index).step lowercased state.db event).map (state.setClient index)
  | .addProject index uuid draft =>
      let view := state.form index uuid draft
      if view.doneDisabled ∨ (state.names uuid).isSome then none
      else (view.handleDoneTapped lowercased).map fun effects =>
        let client := state.clients index
        { state.setClient index
            { client with queue := client.queue ++ ProjectEffect.writes effects } with
          names := Function.update state.names uuid (some draft.name) }
  | .takeEffect index =>
      ((state.clients index).send state.db).map fun (write, client) =>
        { state.setClient index client with db := state.db.commit write }
  | .acknowledge index => (state.clients index).acknowledge.map (state.setClient index)
  | .fail index => (state.clients index).reject.map (state.setClient index)
  | .stop index uuid issued =>
      some (state.setClient index ((state.clients index).restart uuid issued))

end Deployment

def deploymentMachine (lowercased : String → String) :
    Machine (Deployment Image) (DeploymentEvent Image) where
  step := Deployment.step lowercased

end Bowfolio
