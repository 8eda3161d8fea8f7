import Bowfolio.Firestore.Coder

/-!
# The record types

`Profile`, `Project` and `User` with their coding keys. Each declares
`@DocumentID var id: String? = UUID().uuidString`. `User` lists `id` among its
coding keys, so its decoder takes the identifier from the reference; `Profile`
and `Project` do not, so a decoded value keeps the identifier that the default
drew.
-/

namespace Bowfolio

structure Profile where
  id : Option String
  firstName : String
  lastName : String
  email : String
  bio : String
  title : String
  projects : List String
  interests : List String
  picture : String
  deriving DecidableEq, Repr

structure Project where
  id : Option String
  name : String
  homepage : String
  description : String
  interests : List String
  picture : String
  deriving DecidableEq, Repr

structure User where
  id : Option String
  email : String
  displayName : String
  deriving DecidableEq, Repr

/-! ## Profiles -/

namespace Profile

/-- `Profile.CodingKeys`. -/
def codingKeys : List String :=
  ["firstName", "lastName", "email", "bio", "title", "projects", "interests", "picture"]

def encode (profile : Profile) : Document :=
  .ofFields [
    ("firstName", .string profile.firstName),
    ("lastName", .string profile.lastName),
    ("email", .string profile.email),
    ("bio", .string profile.bio),
    ("title", .string profile.title),
    ("projects", .array profile.projects),
    ("interests", .array profile.interests),
    ("picture", .string profile.picture)]

def decode (uuid _reference : String) (doc : Document) : Except DecodingError Profile := do
  let firstName ← doc.decodeString "firstName"
  let lastName ← doc.decodeString "lastName"
  let email ← doc.decodeString "email"
  let bio ← doc.decodeString "bio"
  let title ← doc.decodeString "title"
  let projects ← doc.decodeStrings "projects"
  let interests ← doc.decodeStrings "interests"
  let picture ← doc.decodeString "picture"
  return { id := some uuid, firstName, lastName, email, bio, title, projects, interests, picture }

instance : FirestoreCodable Profile := ⟨encode, decode⟩

/-- The document holds the encoding of the profile under every coding key. -/
def StoredIn (profile : Profile) (doc : Document) : Prop :=
  ∀ key ∈ codingKeys, doc key = profile.encode key

/-- A profile is stored when each of its fields is. -/
theorem storedIn_iff {profile : Profile} {doc : Document} :
    profile.StoredIn doc ↔
      doc "firstName" = some (.string profile.firstName) ∧
      doc "lastName" = some (.string profile.lastName) ∧
      doc "email" = some (.string profile.email) ∧
      doc "bio" = some (.string profile.bio) ∧
      doc "title" = some (.string profile.title) ∧
      doc "projects" = some (.array profile.projects) ∧
      doc "interests" = some (.array profile.interests) ∧
      doc "picture" = some (.string profile.picture) := by
  simp [StoredIn, codingKeys, encode, Document.ofFields, List.lookup_cons]

/-- Decoding succeeds exactly on the documents that hold an encoding, and the
identifier of the result is the drawn one. -/
theorem decode_eq_ok_iff {uuid reference : String} {doc : Document} {profile : Profile} :
    decode uuid reference doc = .ok profile ↔
      profile.id = some uuid ∧ profile.StoredIn doc := by
  rw [storedIn_iff]
  simp only [decode, bind_eq_ok_iff, Document.decodeString_eq_ok_iff,
    Document.decodeStrings_eq_ok_iff]
  constructor
  · rintro ⟨_, firstName, _, lastName, _, email, _, bio, _, title, _, projects, _, interests,
      _, picture, result⟩
    cases result
    exact ⟨rfl, firstName, lastName, email, bio, title, projects, interests, picture⟩
  · rintro ⟨identifier, firstName, lastName, email, bio, title, projects, interests, picture⟩
    refine ⟨_, firstName, _, lastName, _, email, _, bio, _, title, _, projects, _, interests,
      _, picture, ?_⟩
    cases profile
    cases identifier
    rfl

theorem storedIn_encode (profile : Profile) : profile.StoredIn profile.encode :=
  fun _ _ => rfl

theorem encode_projects (profile : Profile) :
    profile.encode "projects" = some (.array profile.projects) := rfl

theorem encode_picture (profile : Profile) :
    profile.encode "picture" = some (.string profile.picture) := rfl

/-- Merging an encoded profile stores it, whatever the document held before. -/
theorem storedIn_overlay (profile : Profile) (doc : Document) :
    profile.StoredIn (doc.overlay profile.encode) := by
  rw [storedIn_iff]
  refine ⟨?_, ?_, ?_, ?_, ?_, ?_, ?_, ?_⟩ <;> exact Document.overlay_of_some rfl

/-- A stored profile decodes, under the drawn identifier. -/
theorem StoredIn.decode_eq_ok {profile : Profile} {doc : Document} (stored : profile.StoredIn doc)
    (uuid reference : String) :
    decode uuid reference doc = .ok { profile with id := some uuid } :=
  decode_eq_ok_iff.mpr ⟨rfl, stored⟩

/-- A document stores one email. -/
theorem StoredIn.email_unique {first second : Profile} {doc : Document}
    (one : first.StoredIn doc) (other : second.StoredIn doc) : first.email = second.email := by
  have email := (storedIn_iff.mp one).2.2.1
  rw [(storedIn_iff.mp other).2.2.1] at email
  exact (FieldValue.string.inj (Option.some.inj email)).symm

/-- The projects of a stored profile are read back. -/
theorem StoredIn.elements_projects {profile : Profile} {doc : Document}
    (stored : profile.StoredIn doc) : doc.elements "projects" = profile.projects :=
  Document.elements_of_array (stored "projects" (by decide))

/-- A union over the project names of a stored profile. -/
theorem StoredIn.unionProjects {profile : Profile} {doc : Document} (stored : profile.StoredIn doc)
    (names : List String) :
    ({ profile with projects := arrayUnion profile.projects names } : Profile).StoredIn
      (Function.update doc "projects"
        (some (FieldChange.apply doc "projects" (.arrayUnion names)))) := by
  have written : FieldChange.apply doc "projects" (.arrayUnion names) =
      .array (arrayUnion profile.projects names) := by
    rw [FieldChange.apply, stored.elements_projects]
  rw [storedIn_iff] at stored ⊢
  obtain ⟨firstName, lastName, email, bio, title, _, interests, picture⟩ := stored
  refine ⟨firstName, lastName, email, bio, title, ?_, interests, picture⟩
  rw [Function.update_self, written]

/-- A new picture in a stored profile. -/
theorem StoredIn.setPicture {profile : Profile} {doc : Document} (stored : profile.StoredIn doc)
    (url : String) :
    ({ profile with picture := url } : Profile).StoredIn
      (Function.update doc "picture" (some (.string url))) := by
  rw [storedIn_iff] at stored ⊢
  obtain ⟨firstName, lastName, email, bio, title, projects, interests, _⟩ := stored
  exact ⟨firstName, lastName, email, bio, title, projects, interests, Function.update_self _ _ _⟩

end Profile

/-! ## Projects -/

namespace Project

/-- `Project.CodingKeys`. -/
def codingKeys : List String := ["name", "homepage", "description", "interests", "picture"]

def encode (project : Project) : Document :=
  .ofFields [
    ("name", .string project.name),
    ("homepage", .string project.homepage),
    ("description", .string project.description),
    ("interests", .array project.interests),
    ("picture", .string project.picture)]

def decode (uuid _reference : String) (doc : Document) : Except DecodingError Project := do
  let name ← doc.decodeString "name"
  let homepage ← doc.decodeString "homepage"
  let description ← doc.decodeString "description"
  let interests ← doc.decodeStrings "interests"
  let picture ← doc.decodeString "picture"
  return { id := some uuid, name, homepage, description, interests, picture }

instance : FirestoreCodable Project := ⟨encode, decode⟩

/-- The document holds the encoding of the project under every coding key. -/
def StoredIn (project : Project) (doc : Document) : Prop :=
  ∀ key ∈ codingKeys, doc key = project.encode key

/-- A project is stored when each of its fields is. -/
theorem storedIn_iff {project : Project} {doc : Document} :
    project.StoredIn doc ↔
      doc "name" = some (.string project.name) ∧
      doc "homepage" = some (.string project.homepage) ∧
      doc "description" = some (.string project.description) ∧
      doc "interests" = some (.array project.interests) ∧
      doc "picture" = some (.string project.picture) := by
  simp [StoredIn, codingKeys, encode, Document.ofFields, List.lookup_cons]

/-- Decoding succeeds exactly on the documents that store the project. -/
theorem decode_eq_ok_iff {uuid reference : String} {doc : Document} {project : Project} :
    decode uuid reference doc = .ok project ↔
      project.id = some uuid ∧ project.StoredIn doc := by
  rw [storedIn_iff]
  simp only [decode, bind_eq_ok_iff, Document.decodeString_eq_ok_iff,
    Document.decodeStrings_eq_ok_iff]
  constructor
  · rintro ⟨_, name, _, homepage, _, description, _, interests, _, picture, result⟩
    cases result
    exact ⟨rfl, name, homepage, description, interests, picture⟩
  · rintro ⟨identifier, name, homepage, description, interests, picture⟩
    refine ⟨_, name, _, homepage, _, description, _, interests, _, picture, ?_⟩
    cases project
    cases identifier
    rfl

theorem storedIn_encode (project : Project) : project.StoredIn project.encode :=
  fun _ _ => rfl

/-- A new picture in a stored project. -/
theorem StoredIn.setPicture {project : Project} {doc : Document} (stored : project.StoredIn doc)
    (url : String) :
    ({ project with picture := url } : Project).StoredIn
      (Function.update doc "picture" (some (.string url))) := by
  rw [storedIn_iff] at stored ⊢
  obtain ⟨name, homepage, description, interests, _⟩ := stored
  exact ⟨name, homepage, description, interests, Function.update_self _ _ _⟩

end Project

/-! ## Users -/

namespace User

/-- `User.CodingKeys`; `id` is the `@DocumentID` key. -/
def codingKeys : List String := ["email", "displayName", "id"]

def encode (user : User) : Document :=
  .ofFields [("email", .string user.email), ("displayName", .string user.displayName)]

def decode (_uuid reference : String) (doc : Document) : Except DecodingError User := do
  let id ← doc.decodeDocumentID reference "id"
  let email ← doc.decodeString "email"
  let displayName ← doc.decodeString "displayName"
  return { id, email, displayName }

instance : FirestoreCodable User := ⟨encode, decode⟩

/-- The document holds the encoding of the user under every coding key; under the
`@DocumentID` key that is no field at all. -/
def StoredIn (user : User) (doc : Document) : Prop :=
  ∀ key ∈ codingKeys, doc key = user.encode key

/-- A user is stored when its fields are and its identifier is not. -/
theorem storedIn_iff {user : User} {doc : Document} :
    user.StoredIn doc ↔
      doc "email" = some (.string user.email) ∧
      doc "displayName" = some (.string user.displayName) ∧ doc "id" = none := by
  simp [StoredIn, codingKeys, encode, Document.ofFields, List.lookup_cons]

/-- Decoding succeeds exactly on the documents that store the user, whose identifier is the
reference. -/
theorem decode_eq_ok_iff {uuid reference : String} {doc : Document} {user : User} :
    decode uuid reference doc = .ok user ↔ user.id = some reference ∧ user.StoredIn doc := by
  rw [storedIn_iff]
  simp only [decode, bind_eq_ok_iff, Document.decodeString_eq_ok_iff,
    Document.decodeDocumentID_eq_ok_iff]
  constructor
  · rintro ⟨_, ⟨absent, identifier⟩, _, email, _, displayName, result⟩
    cases result
    exact ⟨identifier, email, displayName, absent⟩
  · rintro ⟨identifier, email, displayName, absent⟩
    refine ⟨_, ⟨absent, identifier⟩, _, email, _, displayName, ?_⟩
    cases user
    rfl

theorem storedIn_encode (user : User) : user.StoredIn user.encode :=
  fun _ _ => rfl

end User

end Bowfolio
