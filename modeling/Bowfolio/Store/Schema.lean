import Bowfolio.Foundation.Machine
import Bowfolio.ViewModel.Writes

/-!
# The schema of the collections

The write operations of the application as one machine over the database, in
any order and with any arguments. Every document it ever stores is an encoded
record of its collection, so the listeners, which drop documents that do not
decode, drop nothing.
-/

namespace Bowfolio

/-- One write operation of the application. -/
inductive StoreOperation where
  | addUser (autoID : String) (user : User)
  | addProfile (profile : Profile)
  | updateProfile (profile : Profile)
  | addOneProject (projectName email : String)
  | addProject (project : Project)
  | updateProfilePicture (profile : Profile) (url : String)
  | updateProjectPicture (project : Project) (url : String)
  deriving DecidableEq, Repr

/-- The request an operation issues; none when it traps on a `nil` identifier. -/
def StoreOperation.request : StoreOperation → Option Write
  | .addUser autoID user => some (UserViewModel.addUser autoID user)
  | .addProfile profile => some (ProfileViewModel.addProfile profile)
  | .updateProfile profile => some (ProfilesViewModel.updateProfile profile)
  | .addOneProject projectName email => some (ProfilesViewModel.addOneProject projectName email)
  | .addProject project => ProjectViewModel.addProject project
  | .updateProfilePicture profile url => some (ProfilesViewModel.updatePicture profile url)
  | .updateProjectPicture project url => ProjectViewModel.updatePicture project url

/-- The database under the write operations of all clients, each taking effect at
once. A failing request is a step that changes nothing. -/
def storeMachine : Machine Database StoreOperation where
  step db operation := operation.request.map db.commit

/-- The document encodes a record of the named collection. -/
def WellFormed : CollectionName → Document → Prop
  | .users, doc => ∃ user : User, user.StoredIn doc
  | .profiles, doc => ∃ profile : Profile, profile.StoredIn doc
  | .projects, doc => ∃ project : Project, project.StoredIn doc

/-- Every stored document encodes a record of its collection. -/
def Database.WellFormed (db : Database) : Prop :=
  ∀ name, (db name).Every fun _ doc => Bowfolio.WellFormed name doc

theorem Database.wellFormed_empty : Database.empty.WellFormed :=
  fun _ => Collection.every_empty

/-- The result of any operation's request on well formed content is well formed. -/
theorem StoreOperation.request_wellFormed {operation : StoreOperation} {write : Write}
    (issued : operation.request = some write) {content : Option Document} {doc : Document}
    (before : ∀ old ∈ content, WellFormed write.collection old)
    (applied : write.operation.apply content = some doc) : WellFormed write.collection doc := by
  cases operation with
  | addUser autoID user =>
      cases issued
      cases applied
      exact ⟨user, user.storedIn_encode⟩
  | addProfile profile =>
      cases issued
      cases applied
      exact ⟨profile, profile.storedIn_encode⟩
  | updateProfile profile =>
      cases issued
      cases content with
      | none =>
          cases applied
          exact ⟨profile, profile.storedIn_encode⟩
      | some old =>
          cases applied
          exact ⟨profile, profile.storedIn_overlay old⟩
  | addOneProject projectName email =>
      cases issued
      cases content with
      | none => cases applied
      | some old =>
          cases applied
          obtain ⟨profile, stored⟩ := before old rfl
          exact ⟨_, stored.unionProjects [projectName]⟩
  | addProject project =>
      obtain ⟨id, _, rfl⟩ := Option.map_eq_some_iff.mp issued
      cases applied
      exact ⟨project, project.storedIn_encode⟩
  | updateProfilePicture profile url =>
      cases issued
      cases content with
      | none => cases applied
      | some old =>
          cases applied
          obtain ⟨stored, held⟩ := before old rfl
          exact ⟨_, held.setPicture url⟩
  | updateProjectPicture project url =>
      obtain ⟨id, _, rfl⟩ := Option.map_eq_some_iff.mp issued
      cases content with
      | none => cases applied
      | some old =>
          cases applied
          obtain ⟨stored, held⟩ := before old rfl
          exact ⟨_, held.setPicture url⟩

/-- The request of one operation keeps the database well formed. -/
theorem Database.WellFormed.commit {db : Database} {write : Write} (wellFormed : db.WellFormed)
    (operation : StoreOperation) (issued : operation.request = some write) :
    (db.commit write).WellFormed := by
  refine Database.every_commit wellFormed fun doc applied => ?_
  exact StoreOperation.request_wellFormed issued (fun old present => wellFormed _ present) applied

/-- Any writes of the application keep the collections well formed. -/
theorem Database.WellFormed.commitAll {db : Database} {writes : List Write}
    (wellFormed : db.WellFormed)
    (issued : ∀ write ∈ writes, ∃ operation : StoreOperation, operation.request = some write) :
    (db.commitAll writes).WellFormed := by
  induction writes generalizing db with
  | nil => exact wellFormed
  | cons write writes ih =>
      obtain ⟨operation, own⟩ := issued write List.mem_cons_self
      exact ih (wellFormed.commit operation own) fun other member =>
        issued other (List.mem_cons_of_mem _ member)

/-- One operation keeps the collections well formed. -/
theorem Database.WellFormed.step {db next : Database} {operation : StoreOperation}
    (wellFormed : db.WellFormed) (stepped : storeMachine.step db operation = some next) :
    next.WellFormed := by
  obtain ⟨write, issued, rfl⟩ := Option.map_eq_some_iff.mp stepped
  exact wellFormed.commit operation issued

/-- A run of the operations from empty collections keeps them well formed. -/
theorem Database.wellFormed_of_run {operations : List StoreOperation} {db : Database}
    (ran : storeMachine.run Database.empty operations = some db) : db.WellFormed :=
  Machine.invariant_of_run (fun wellFormed stepped => wellFormed.step stepped)
    Database.wellFormed_empty ran

section Decoding

variable {doc : Document} (uuid reference : String)

/-- A well formed user document decodes. -/
theorem WellFormed.decodes_user (wellFormed : WellFormed .users doc) :
    ∃ user, User.decode uuid reference doc = .ok user := by
  obtain ⟨user, stored⟩ := wellFormed
  exact ⟨{ user with id := some reference }, User.decode_eq_ok_iff.mpr ⟨rfl, stored⟩⟩

/-- A well formed profile document decodes. -/
theorem WellFormed.decodes_profile (wellFormed : WellFormed .profiles doc) :
    ∃ profile, Profile.decode uuid reference doc = .ok profile := by
  obtain ⟨profile, stored⟩ := wellFormed
  exact ⟨_, stored.decode_eq_ok uuid reference⟩

/-- A well formed project document decodes. -/
theorem WellFormed.decodes_project (wellFormed : WellFormed .projects doc) :
    ∃ project, Project.decode uuid reference doc = .ok project := by
  obtain ⟨project, stored⟩ := wellFormed
  exact ⟨{ project with id := some uuid }, Project.decode_eq_ok_iff.mpr ⟨rfl, stored⟩⟩

end Decoding

/-- The records a listener publishes are the decodings of the documents of the
collection, one for each document and in document order. -/
def PublishesAll {Record : Type} [FirestoreCodable Record] (documents : List (String × Document))
    (published : List Record) : Prop :=
  List.Forall₂ (fun (entry : String × Document) (record : Record) =>
    ∃ uuid, FirestoreCodable.decode uuid entry.1 entry.2 = .ok record) documents published

/-- **The schema invariant.** From empty collections, after any sequence of write
operations, every document decodes as the record type of its collection, and each
listener publishes exactly one record per document, in document order. -/
theorem schema_of_run (operations : List StoreOperation) (db : Database)
    (ran : storeMachine.run Database.empty operations = some db) (uuids : Nat → String) :
    (∀ uuid reference doc, db.content .users reference = some doc →
      ∃ user, User.decode uuid reference doc = .ok user) ∧
    (∀ uuid reference doc, db.content .profiles reference = some doc →
      ∃ profile, Profile.decode uuid reference doc = .ok profile) ∧
    (∀ uuid reference doc, db.content .projects reference = some doc →
      ∃ project, Project.decode uuid reference doc = .ok project) ∧
    PublishesAll (db .users).entries (UsersViewModel.fetchData uuids (db .users).entries) ∧
    PublishesAll (db .profiles).entries
      (ProfilesViewModel.fetchData uuids (db .profiles).entries) ∧
    PublishesAll (db .projects).entries
      (ProjectsViewModel.fetchData uuids (db .projects).entries) := by
  have wellFormed : db.WellFormed := Database.wellFormed_of_run ran
  refine ⟨?_, ?_, ?_, ?_, ?_, ?_⟩
  · exact fun uuid reference doc present => (wellFormed _ present).decodes_user uuid reference
  · exact fun uuid reference doc present => (wellFormed _ present).decodes_profile uuid reference
  · exact fun uuid reference doc present => (wellFormed _ present).decodes_project uuid reference
  · exact fetchData_forall₂ fun entry member uuid =>
      ((wellFormed .users).of_mem member).decodes_user uuid entry.1
  · exact fetchData_forall₂ fun entry member uuid =>
      ((wellFormed .profiles).of_mem member).decodes_profile uuid entry.1
  · exact fetchData_forall₂ fun entry member uuid =>
      ((wellFormed .projects).of_mem member).decodes_project uuid entry.1

/-- A sign-up, a project name added to the new profile and a picture for a project
that does not exist. -/
def signUpOperations : List StoreOperation :=
  [.addUser "u-1" ⟨none, "ann@uni.edu", ""⟩,
    .addProfile { ProfileViewModel.initialProfile "i-1" with email := "ann@uni.edu" },
    .addOneProject "Reef" "ann@uni.edu",
    .updateProjectPicture (ProjectViewModel.initialProject "i-2") "url"]

/-- After a sign-up the one profile is published. -/
theorem schema_of_run_signUp :
    ∃ db, storeMachine.run Database.empty signUpOperations = some db ∧
      (db .profiles).entries.length = 1 ∧ (db .projects).entries.length = 0 ∧
      PublishesAll (db .profiles).entries
        (ProfilesViewModel.fetchData (fun _ => "i-3") (db .profiles).entries) :=
  ⟨_, rfl, rfl, rfl, (schema_of_run signUpOperations _ rfl fun _ => "i-3").2.2.2.2.1⟩

end Bowfolio
