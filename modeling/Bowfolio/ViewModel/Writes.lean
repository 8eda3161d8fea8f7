import Bowfolio.Model.Records

/-!
# The view models

The write requests of the view models, each the request that the source issues
for the same arguments, and their snapshot listeners.
-/

namespace Bowfolio

namespace UsersViewModel

/-- `UsersViewModel.fetchData`. -/
def fetchData (uuids : Nat → String) (documents : List (String × Document)) : List User :=
  Bowfolio.fetchData uuids documents

end UsersViewModel

namespace UserViewModel

/-- `UserViewModel.addUser`: `addDocument(from:)` under the identifier that
Firestore assigns. -/
def addUser (autoID : String) (user : User) : Write :=
  ⟨.users, autoID, .setData user.encode⟩

end UserViewModel

namespace ProfileViewModel

/-- The profile of `ProfileViewModel.init`, with the drawn identifier. -/
def initialProfile (uuid : String) : Profile where
  id := some uuid
  firstName := ""
  lastName := ""
  email := ""
  bio := ""
  title := ""
  projects := []
  interests := []
  picture := ""

/-- `ProfileViewModel.addProfile`. -/
def addProfile (profile : Profile) : Write :=
  ⟨.profiles, profile.email, .setData profile.encode⟩

end ProfileViewModel

namespace ProfilesViewModel

/-- `ProfilesViewModel.fetchData`. -/
def fetchData (uuids : Nat → String) (documents : List (String × Document)) : List Profile :=
  Bowfolio.fetchData uuids documents

/-- `ProfilesViewModel.addOneProject`. -/
def addOneProject (projectName email : String) : Write :=
  ⟨.profiles, email, .updateData "projects" (.arrayUnion [projectName])⟩

/-- `ProfilesViewModel.updateProfile`. -/
def updateProfile (profile : Profile) : Write :=
  ⟨.profiles, profile.email, .mergeData profile.encode⟩

/-- The path of a profile image, in `loadImageFromStorage` and in
`EditProfileView.uploadPicureToStorage`. -/
def imagePath (lowercased : String → String) (email : String) : String :=
  "profileImages/" ++ lowercased email ++ ".jpg"

/-- The write of `loadImageFromStorage` when the download URL arrives. -/
def updatePicture (profile : Profile) (url : String) : Write :=
  ⟨.profiles, profile.email, .updateData "picture" (.value (.string url))⟩

end ProfilesViewModel

/-- The document of `email` holds the encoding of `profile`. -/
def Database.StoresProfile (db : Database) (email : String) (profile : Profile) : Prop :=
  ∃ doc, db.content .profiles email = some doc ∧ profile.StoredIn doc

namespace Database.StoresProfile

variable {db : Database} {email : String} {stored profile : Profile}

/-- Adding a project appends it to the stored profile unless it is listed. -/
theorem addOneProject (stores : db.StoresProfile email stored) (projectName : String) :
    (db.commit (ProfilesViewModel.addOneProject projectName email)).StoresProfile email
      { stored with projects := arrayUnion stored.projects [projectName] } := by
  obtain ⟨doc, present, held⟩ := stores
  refine ⟨_, db.content_commit_self (ProfilesViewModel.addOneProject projectName email) ?_,
    held.unionProjects [projectName]⟩
  rw [ProfilesViewModel.addOneProject, present, DocumentWrite.apply]

/-- The update of a profile replaces the stored one. -/
theorem updateProfile (stores : db.StoresProfile email stored) (own : profile.email = email) :
    (db.commit (ProfilesViewModel.updateProfile profile)).StoresProfile email profile := by
  obtain ⟨doc, present, _⟩ := stores
  refine ⟨_, own ▸ db.content_commit_self (ProfilesViewModel.updateProfile profile) ?_,
    profile.storedIn_overlay doc⟩
  rw [ProfilesViewModel.updateProfile, own, present, DocumentWrite.apply]

/-- The update of a picture leaves the rest of the stored profile. -/
theorem updatePicture (stores : db.StoresProfile email stored) (own : profile.email = email)
    (url : String) :
    (db.commit (ProfilesViewModel.updatePicture profile url)).StoresProfile email
      { stored with picture := url } := by
  obtain ⟨doc, present, held⟩ := stores
  refine ⟨_, own ▸ db.content_commit_self (ProfilesViewModel.updatePicture profile url) ?_,
    held.setPicture url⟩
  rw [ProfilesViewModel.updatePicture, own, present, DocumentWrite.apply, FieldChange.apply]

end Database.StoresProfile

namespace ProjectsViewModel

/-- `ProjectsViewModel.fetchData`. -/
def fetchData (uuids : Nat → String) (documents : List (String × Document)) : List Project :=
  Bowfolio.fetchData uuids documents

end ProjectsViewModel

namespace ProjectViewModel

/-- The project of `ProjectViewModel.init`, with the drawn identifier. -/
def initialProject (uuid : String) : Project where
  id := some uuid
  name := ""
  homepage := ""
  description := ""
  interests := []
  picture := ""

/-- `ProjectViewModel.addProject`; the unwrapping `project.id!` traps on `nil`. -/
def addProject (project : Project) : Option Write :=
  project.id.map fun id => ⟨.projects, id, .setData project.encode⟩

/-- The path of a project image, in `loadImageFromStorage` and in
`AddProjectView.setPicureOfProject`. -/
def imagePath (name : String) : String :=
  "projectImages/" ++ name ++ ".jpg"

/-- The write of `loadImageFromStorage` when the download URL arrives; the
unwrapping `project.id!` traps on `nil`. -/
def updatePicture (project : Project) (url : String) : Option Write :=
  project.id.map fun id => ⟨.projects, id, .updateData "picture" (.value (.string url))⟩

end ProjectViewModel

/-- The project document `id` has the name `name`. -/
def Database.NamesProject (db : Database) (id name : String) : Prop :=
  ∃ doc, db.content .projects id = some doc ∧ doc "name" = some (.string name)

end Bowfolio
