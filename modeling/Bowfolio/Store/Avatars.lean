import Bowfolio.Store.Schema
import Bowfolio.View.Cards

/-!
# The identities on the cards

The cards of projects and interests identify their rows by picture, which is empty
until an upload has finished. No picture appears twice on a card as long as every
operation finds the picture of its record free on the cards it brings the record onto
(`distinctAvatars_along_iff`); two signed-up users without pictures who choose one
interest already break it.
-/

namespace Bowfolio

/-- The cards that list pictures: one for each interest and one for each project. -/
inductive Card where
  | ofInterest (interest : String)
  | ofProject (project : String)
  deriving DecidableEq, Repr

/-- The identities of the rows of a card, in `ForEach(.., id: \.self)`. -/
def Card.identities (profiles : List Profile) (projects : List Project) : Card → List String
  | .ofInterest interest => InterestCard.getProfilesAndProjects profiles projects interest
  | .ofProject project => ProjectCard.getParticipants profiles project

/-- Every card gives its rows distinct identities, over the listeners of both collections. -/
def Database.DistinctAvatars (db : Database) : Prop :=
  ∀ (uuids others : Nat → String) (card : Card),
    (card.identities (ProfilesViewModel.fetchData uuids (db .profiles).entries)
      (ProjectsViewModel.fetchData others (db .projects).entries)).Nodup

/-- The text of a field; a missing field and an array have none. -/
def Document.text (doc : Document) (key : String) : String :=
  match doc key with
  | some (.string text) => text
  | _ => ""

/-- A stored profile or project. -/
structure StoredRecord where
  collection : CollectionName
  key : String
  doc : Document

/-- The stored profiles and projects, in document order. -/
def Database.records (db : Database) : List StoredRecord :=
  (db .profiles).entries.map (fun entry => ⟨.profiles, entry.1, entry.2⟩) ++
    (db .projects).entries.map (fun entry => ⟨.projects, entry.1, entry.2⟩)

/-- The record appears on the card. -/
def Card.Shows (record : StoredRecord) : Card → Prop
  | .ofInterest interest => interest ∈ record.doc.elements "interests"
  | .ofProject project =>
      record.collection = .profiles ∧ project ∈ record.doc.elements "projects"

instance (record : StoredRecord) : (card : Card) → Decidable (card.Shows record)
  | .ofInterest _ => inferInstanceAs (Decidable (_ ∈ _))
  | .ofProject _ => inferInstanceAs (Decidable (_ ∧ _))

/-- A record is on the card of an interest when its document lists the interest. -/
theorem Card.decide_ofInterest (record : StoredRecord) (interest : String) :
    decide ((Card.ofInterest interest).Shows record) =
      (record.doc.elements "interests").contains interest := by
  rw [Bool.eq_iff_iff, decide_eq_true_iff]
  simp [Shows]

/-- A record is on the card of a project when it is a profile that lists the project. -/
theorem Card.decide_ofProject (record : StoredRecord) (project : String) :
    decide ((Card.ofProject project).Shows record) =
      (record.collection == .profiles && (record.doc.elements "projects").contains project) := by
  rw [Bool.eq_iff_iff, decide_eq_true_iff]
  simp [Shows]

def StoredRecord.picture (record : StoredRecord) : String :=
  record.doc.text "picture"

/-- The two records are stored at different places. -/
def StoredRecord.Apart (first second : StoredRecord) : Prop :=
  first.collection ≠ second.collection ∨ first.key ≠ second.key

/-- No record stored elsewhere has the picture together with one of the interests or,
when it is a profile, one of the projects. -/
def Database.PictureFree (db : Database) (collection : CollectionName) (key picture : String)
    (interests projects : List String) : Prop :=
  ∀ other ∈ db.records, (other.collection ≠ collection ∨ other.key ≠ key) →
    other.picture = picture →
      (∀ interest ∈ interests, interest ∉ other.doc.elements "interests") ∧
        (other.collection = .profiles → ∀ project ∈ projects,
          project ∉ other.doc.elements "projects")

/-- The operation, in the state before it, brings no record onto a card where another one
has its picture. What it writes is taken from its arguments, and what it leaves alone from
the stored record. -/
def AvoidsSharedPicture (db : Database) : StoreOperation → Prop
  | .addUser _ _ => True
  | .addProfile profile | .updateProfile profile =>
      db.PictureFree .profiles profile.email profile.picture profile.interests profile.projects
  | .addOneProject projectName email =>
      ∀ stored ∈ db.content .profiles email,
        db.PictureFree .profiles email (stored.text "picture") [] [projectName]
  | .addProject project =>
      ∀ id ∈ project.id, db.PictureFree .projects id project.picture project.interests []
  | .updateProfilePicture profile url =>
      ∀ stored ∈ db.content .profiles profile.email,
        db.PictureFree .profiles profile.email url (stored.elements "interests")
          (stored.elements "projects")
  | .updateProjectPicture project url =>
      ∀ id ∈ project.id, ∀ stored ∈ db.content .projects id,
        db.PictureFree .projects id url (stored.elements "interests") []

/-! ## The records behind a card -/

/-- The records are the stored documents other than users. -/
theorem Database.mem_records {db : Database} {record : StoredRecord} :
    record ∈ db.records ↔
      record.collection ≠ .users ∧
        db.content record.collection record.key = some record.doc := by
  obtain ⟨collection, key, doc⟩ := record
  cases collection <;>
    simp [records, Database.content, Collection.get?_eq_some_iff]

/-- No record is listed twice. -/
theorem Database.nodup_records (db : Database) : db.records.Nodup := by
  have listed (name : CollectionName) : ((db name).entries.map fun entry =>
      (⟨name, entry.1, entry.2⟩ : StoredRecord)).Nodup := by
    refine List.Pairwise.map _ (fun first second before same => ?_) (db name).sorted
    exact absurd (StoredRecord.mk.inj same).2.1 (ne_of_lt before)
  refine List.nodup_append.mpr ⟨listed .profiles, listed .projects, ?_⟩
  intro first one second other same
  obtain ⟨_, _, rfl⟩ := List.mem_map.mp one
  obtain ⟨_, _, rfl⟩ := List.mem_map.mp other
  exact absurd (StoredRecord.mk.inj same).1 nofun

/-- Records at the same place are the same. -/
theorem Database.record_unique {db : Database} {first second : StoredRecord}
    (one : first ∈ db.records) (other : second ∈ db.records) (same : ¬ first.Apart second) :
    first = second := by
  obtain ⟨_, present⟩ := Database.mem_records.mp one
  obtain ⟨_, found⟩ := Database.mem_records.mp other
  obtain ⟨collection, key, doc⟩ := first
  obtain ⟨otherCollection, otherKey, otherDoc⟩ := second
  simp only [StoredRecord.Apart, not_or, not_not] at same
  obtain ⟨rfl, rfl⟩ := same
  cases present.symm.trans found
  rfl

theorem Document.text_of_string {doc : Document} {key text : String}
    (present : doc key = some (.string text)) : doc.text key = text := by
  simp only [Document.text, present]

section StoredFields

variable {doc : Document}

theorem Profile.StoredIn.text_picture {profile : Profile} (stored : profile.StoredIn doc) :
    doc.text "picture" = profile.picture :=
  Document.text_of_string (stored "picture" (by decide))

theorem Profile.StoredIn.elements_interests {profile : Profile} (stored : profile.StoredIn doc) :
    doc.elements "interests" = profile.interests :=
  Document.elements_of_array (stored "interests" (by decide))

theorem Project.StoredIn.text_picture {project : Project} (stored : project.StoredIn doc) :
    doc.text "picture" = project.picture :=
  Document.text_of_string (stored "picture" (by decide))

theorem Project.StoredIn.elements_interests {project : Project} (stored : project.StoredIn doc) :
    doc.elements "interests" = project.interests :=
  Document.elements_of_array (stored "interests" (by decide))

end StoredFields

/-- Lists in step have the same values at the elements accepted on either side. -/
theorem map_filter_of_forall₂ {Left Right Value : Type} {related : Left → Right → Prop}
    {accepts : Left → Bool} {acceptsRight : Right → Bool} {value : Left → Value}
    {valueRight : Right → Value}
    (agree : ∀ left right, related left right →
      accepts left = acceptsRight right ∧ value left = valueRight right)
    {lefts : List Left} {rights : List Right} (paired : List.Forall₂ related lefts rights) :
    (lefts.filter accepts).map value = (rights.filter acceptsRight).map valueRight := by
  induction paired with
  | nil => rfl
  | cons head _ ih =>
      obtain ⟨accepted, same⟩ := agree _ _ head
      rw [List.filter_cons, List.filter_cons, accepted]
      split_ifs <;> simp [ih, same]

section Fetched

variable {db : Database} (wellFormed : db.WellFormed) (uuids : Nat → String)
include wellFormed

/-- The pictures of the published profiles that a card accepts, read off the documents. -/
theorem Database.map_picture_profiles (field : String) (read : Profile → List String)
    (reads : ∀ profile : Profile, ∀ doc, profile.StoredIn doc → read profile = doc.elements field)
    (item : String) :
    ((ProfilesViewModel.fetchData uuids (db .profiles).entries).filter fun profile =>
        (read profile).contains item).map Profile.picture =
      ((db .profiles).entries.filter fun entry =>
        (entry.2.elements field).contains item).map fun entry => entry.2.text "picture" := by
  have published : PublishesAll (db .profiles).entries
      (ProfilesViewModel.fetchData uuids (db .profiles).entries) :=
    fetchData_forall₂ fun entry member uuid =>
      ((wellFormed .profiles).of_mem member).decodes_profile uuid entry.1
  refine (map_filter_of_forall₂ (fun entry profile decoded => ?_) published).symm
  obtain ⟨uuid, decoded⟩ := decoded
  have stored := (Profile.decode_eq_ok_iff.mp decoded).2
  rw [reads profile entry.2 stored]
  exact ⟨rfl, stored.text_picture⟩

theorem Database.map_picture_projects (interest : String) :
    ((ProjectsViewModel.fetchData uuids (db .projects).entries).filter fun project =>
        project.interests.contains interest).map Project.picture =
      ((db .projects).entries.filter fun entry =>
        (entry.2.elements "interests").contains interest).map fun entry =>
          entry.2.text "picture" := by
  have published : PublishesAll (db .projects).entries
      (ProjectsViewModel.fetchData uuids (db .projects).entries) :=
    fetchData_forall₂ fun entry member uuid =>
      ((wellFormed .projects).of_mem member).decodes_project uuid entry.1
  refine (map_filter_of_forall₂ (fun entry project decoded => ?_) published).symm
  obtain ⟨uuid, decoded⟩ := decoded
  have stored := (Project.decode_eq_ok_iff.mp decoded).2
  rw [stored.elements_interests]
  exact ⟨rfl, stored.text_picture⟩

/-- A card lists the pictures of the records it shows. -/
theorem Database.identities_eq (others : Nat → String) (card : Card) :
    card.identities (ProfilesViewModel.fetchData uuids (db .profiles).entries)
        (ProjectsViewModel.fetchData others (db .projects).entries) =
      (db.records.filter fun record => card.Shows record).map StoredRecord.picture := by
  cases card with
  | ofInterest interest =>
      have profiles := db.map_picture_profiles wellFormed uuids "interests" Profile.interests
        (fun profile doc stored => stored.elements_interests.symm) interest
      have projects := db.map_picture_projects wellFormed others interest
      rw [Card.identities, InterestCard.getProfilesAndProjects_eq, profiles, projects]
      simp only [Card.decide_ofInterest]
      simp [Database.records, List.filter_map, Function.comp_def, StoredRecord.picture]
  | ofProject project =>
      have profiles := db.map_picture_profiles wellFormed uuids "projects" Profile.projects
        (fun profile doc stored => stored.elements_projects.symm) project
      rw [Card.identities, ProjectCard.getParticipants_eq, profiles]
      simp only [Card.decide_ofProject]
      simp [Database.records, List.filter_map, Function.comp_def, StoredRecord.picture]

end Fetched

/-- Records on one card that are stored apart have different pictures. -/
def Database.PicturesApart (db : Database) : Prop :=
  ∀ first ∈ db.records, ∀ second ∈ db.records, first.Apart second → ∀ card : Card,
    card.Shows first → card.Shows second → first.picture ≠ second.picture

/-- The rows of the cards are distinct exactly when the pictures behind them are. -/
theorem Database.distinctAvatars_iff {db : Database} (wellFormed : db.WellFormed) :
    db.DistinctAvatars ↔ db.PicturesApart := by
  have nodup (card : Card) :
      ((db.records.filter fun record => card.Shows record).map StoredRecord.picture).Nodup ↔
        ∀ first ∈ db.records, card.Shows first → ∀ second ∈ db.records, card.Shows second →
          first.picture = second.picture → first = second := by
    rw [List.nodup_map_iff_inj_on (db.nodup_records.filter _)]
    simp only [List.mem_filter, decide_eq_true_eq, and_imp]
  simp only [DistinctAvatars, db.identities_eq wellFormed, nodup]
  constructor
  · intro distinct first one second other apart card shown alsoShown same
    have merged := distinct (fun _ => "") (fun _ => "") card first one shown second other
      alsoShown same
    rw [merged, StoredRecord.Apart] at apart
    exact apart.elim (fun unequal => unequal rfl) fun unequal => unequal rfl
  · intro apart _ _ card first one shown second other alsoShown same
    refine db.record_unique one other fun different => ?_
    exact apart first one second other different card shown alsoShown same

/-! ## What one write does to the cards -/

/-- After a write, the records are the written one and those stored apart from it. -/
theorem Database.mem_records_commit {db : Database} {write : Write} {doc : Document}
    (applied : write.operation.apply (db.content write.collection write.document) = some doc)
    {record : StoredRecord} :
    record ∈ (db.commit write).records ↔
      (write.collection ≠ .users ∧ record = ⟨write.collection, write.document, doc⟩) ∨
        (record ∈ db.records ∧ record.Apart ⟨write.collection, write.document, doc⟩) := by
  obtain ⟨collection, key, content⟩ := record
  simp only [Database.mem_records, StoredRecord.Apart, StoredRecord.mk.injEq]
  by_cases place : collection = write.collection ∧ key = write.document
  · obtain ⟨rfl, rfl⟩ := place
    rw [db.content_commit_self write applied]
    simp [eq_comm]
  · rw [db.content_commit_of_ne write (by tauto)]
    tauto

/-- The project names of a record: only profiles list any. -/
def StoredRecord.projects (record : StoredRecord) : List String :=
  if record.collection = .profiles then record.doc.elements "projects" else []

/-- A write keeps the pictures apart exactly when the picture that it leaves in its record
is free for the interests and projects that it leaves there. -/
theorem Database.picturesApart_commit {db : Database} (apart : db.PicturesApart) {write : Write}
    {doc : Document} (isCard : write.collection ≠ .users)
    (applied : write.operation.apply (db.content write.collection write.document) = some doc) :
    (db.commit write).PicturesApart ↔
      db.PictureFree write.collection write.document (doc.text "picture")
        (doc.elements "interests")
        (StoredRecord.projects ⟨write.collection, write.document, doc⟩) := by
  have written := (db.mem_records_commit applied).mpr (.inl ⟨isCard, rfl⟩)
  constructor
  · intro stays other member elsewhere same
    have kept := (db.mem_records_commit applied).mpr (.inr ⟨member, elsewhere⟩)
    have unshared := stays other kept _ written elsewhere
    refine ⟨fun interest listed shown => ?_, fun isProfile project listed shown => ?_⟩
    · exact unshared (.ofInterest interest) shown listed same
    · simp only [StoredRecord.projects] at listed
      split_ifs at listed with writesProfile
      · exact unshared (.ofProject project) ⟨isProfile, shown⟩ ⟨writesProfile, listed⟩ same
      · exact absurd listed List.not_mem_nil
  · intro free
    have unshared (other : StoredRecord) (member : other ∈ db.records)
        (elsewhere : other.Apart ⟨write.collection, write.document, doc⟩) (card : Card)
        (shown : card.Shows other) (written : card.Shows ⟨write.collection, write.document, doc⟩) :
        other.picture ≠ doc.text "picture" := by
      intro same
      obtain ⟨interests, projects⟩ := free other member elsewhere same
      cases card with
      | ofInterest interest => exact interests interest written shown
      | ofProject project =>
          refine projects shown.1 project ?_ shown.2
          rw [StoredRecord.projects, if_pos written.1]
          exact written.2
    intro first one second other different card shown alsoShown
    rcases (db.mem_records_commit applied).mp one with ⟨_, rfl⟩ | ⟨old, elsewhere⟩
    · rcases (db.mem_records_commit applied).mp other with ⟨_, rfl⟩ | ⟨old, elsewhere⟩
      · exact absurd different (by simp [StoredRecord.Apart])
      · exact (unshared second old elsewhere card alsoShown shown).symm
    · rcases (db.mem_records_commit applied).mp other with ⟨_, rfl⟩ | ⟨alsoOld, _⟩
      · exact unshared first old elsewhere card shown alsoShown
      · exact apart first old second alsoOld different card shown alsoShown

/-- A stored profile is on the cards of its interests and projects, with its picture. -/
theorem Database.picturesApart_commit_profile {db : Database} (apart : db.PicturesApart)
    {write : Write} {doc : Document} {profile : Profile} (isProfile : write.collection = .profiles)
    (applied : write.operation.apply (db.content write.collection write.document) = some doc)
    (stored : profile.StoredIn doc) :
    (db.commit write).PicturesApart ↔
      db.PictureFree .profiles write.document profile.picture profile.interests
        profile.projects := by
  have notUser : write.collection ≠ .users := by rw [isProfile]; exact nofun
  rw [Database.picturesApart_commit apart notUser applied, StoredRecord.projects, isProfile,
    if_pos rfl, stored.text_picture, stored.elements_interests, stored.elements_projects]

/-- A stored project is on the cards of its interests, with its picture. -/
theorem Database.picturesApart_commit_project {db : Database} (apart : db.PicturesApart)
    {write : Write} {doc : Document} {project : Project} (isProject : write.collection = .projects)
    (applied : write.operation.apply (db.content write.collection write.document) = some doc)
    (stored : project.StoredIn doc) :
    (db.commit write).PicturesApart ↔
      db.PictureFree .projects write.document project.picture project.interests [] := by
  have notUser : write.collection ≠ .users := by rw [isProject]; exact nofun
  rw [Database.picturesApart_commit apart notUser applied, StoredRecord.projects, isProject,
    if_neg nofun, stored.text_picture, stored.elements_interests]

/-- Users are on no card. -/
theorem Database.picturesApart_commit_user {db : Database} (apart : db.PicturesApart)
    {write : Write} (isUser : write.collection = .users) : (db.commit write).PicturesApart := by
  have kept {record : StoredRecord} (member : record ∈ (db.commit write).records) :
      record ∈ db.records := by
    obtain ⟨isCard, present⟩ := Database.mem_records.mp member
    refine Database.mem_records.mpr ⟨isCard, ?_⟩
    rwa [db.content_commit_of_ne write (.inl fun same => isCard (same.trans isUser))] at present
  exact fun first one second other => apart first (kept one) second (kept other)

/-- Of the projects of a stored profile only the added name can meet another's picture. -/
theorem Database.pictureFree_union {db : Database} (apart : db.PicturesApart) {email name : String}
    {doc : Document} {profile : Profile} (present : db.content .profiles email = some doc)
    (stored : profile.StoredIn doc) :
    db.PictureFree .profiles email profile.picture profile.interests
        (arrayUnion profile.projects [name]) ↔
      db.PictureFree .profiles email profile.picture [] [name] := by
  have own : (⟨.profiles, email, doc⟩ : StoredRecord) ∈ db.records :=
    Database.mem_records.mpr ⟨nofun, present⟩
  have picture : StoredRecord.picture ⟨.profiles, email, doc⟩ = profile.picture :=
    stored.text_picture
  constructor
  · intro free other member elsewhere same
    obtain ⟨_, projects⟩ := free other member elsewhere same
    refine ⟨fun _ listed => absurd listed List.not_mem_nil, fun isProfile project added => ?_⟩
    exact projects isProfile project (mem_arrayUnion.mpr (.inr added))
  · intro free other member elsewhere same
    have unshared (card : Card) (shown : card.Shows other)
        (alsoShown : card.Shows ⟨.profiles, email, doc⟩) : False :=
      apart other member _ own elsewhere card shown alsoShown (same.trans picture.symm)
    refine ⟨fun interest listed shown => ?_, fun isProfile project listed shown => ?_⟩
    · refine unshared (.ofInterest interest) shown ?_
      rwa [← stored.elements_interests] at listed
    · rcases mem_arrayUnion.mp listed with held | added
      · refine unshared (.ofProject project) ⟨isProfile, shown⟩ ⟨rfl, ?_⟩
        rwa [← stored.elements_projects] at held
      · exact (free other member elsewhere same).2 isProfile project added shown

/-- An operation keeps the pictures apart exactly when it avoids a shared one. -/
theorem Database.picturesApart_step {db next : Database} {operation : StoreOperation}
    (wellFormed : db.WellFormed) (apart : db.PicturesApart)
    (stepped : storeMachine.step db operation = some next) :
    next.PicturesApart ↔ AvoidsSharedPicture db operation := by
  obtain ⟨write, issued, rfl⟩ := Option.map_eq_some_iff.mp stepped
  cases operation with
  | addUser autoID user =>
      cases issued
      exact iff_of_true (Database.picturesApart_commit_user apart rfl) trivial
  | addProfile profile =>
      cases issued
      exact Database.picturesApart_commit_profile apart rfl rfl profile.storedIn_encode
  | updateProfile profile =>
      cases issued
      cases held : db.content .profiles profile.email with
      | none =>
          have applied : (ProfilesViewModel.updateProfile profile).operation.apply
              (db.content .profiles profile.email) = some profile.encode := by
            rw [held]
            rfl
          exact Database.picturesApart_commit_profile apart rfl applied profile.storedIn_encode
      | some doc =>
          have applied : (ProfilesViewModel.updateProfile profile).operation.apply
              (db.content .profiles profile.email) = some (doc.overlay profile.encode) := by
            rw [held]
            rfl
          exact Database.picturesApart_commit_profile apart rfl applied
            (profile.storedIn_overlay doc)
  | addOneProject projectName email =>
      cases issued
      cases held : db.content .profiles email with
      | none =>
          rw [db.commit_of_failed _ (by rw [ProfilesViewModel.addOneProject, held]; rfl)]
          refine iff_of_true apart fun doc present => ?_
          exact absurd (held ▸ present) (Option.not_mem_none doc)
      | some doc =>
          obtain ⟨profile, stored⟩ := wellFormed .profiles held
          rw [Database.picturesApart_commit_profile apart rfl
            (by rw [ProfilesViewModel.addOneProject, held]; rfl)
            (stored.unionProjects [projectName])]
          simp only [AvoidsSharedPicture, held, Option.mem_def, Option.some.injEq, forall_eq',
            stored.text_picture]
          exact Database.pictureFree_union apart held stored
  | addProject project =>
      obtain ⟨id, identified, rfl⟩ := Option.map_eq_some_iff.mp issued
      rw [Database.picturesApart_commit_project apart rfl rfl project.storedIn_encode]
      simp only [AvoidsSharedPicture, identified, Option.mem_def, Option.some.injEq, forall_eq']
  | updateProfilePicture profile url =>
      cases issued
      cases held : db.content .profiles profile.email with
      | none =>
          rw [db.commit_of_failed _ (by rw [ProfilesViewModel.updatePicture, held]; rfl)]
          refine iff_of_true apart fun doc present => ?_
          exact absurd (held ▸ present) (Option.not_mem_none doc)
      | some doc =>
          obtain ⟨owner, stored⟩ := wellFormed .profiles held
          rw [Database.picturesApart_commit_profile apart rfl
            (by rw [ProfilesViewModel.updatePicture, held]; rfl)
            (stored.setPicture url)]
          simp only [AvoidsSharedPicture, held, Option.mem_def, Option.some.injEq, forall_eq',
            stored.elements_interests, stored.elements_projects]
          rfl
  | updateProjectPicture project url =>
      obtain ⟨id, identified, rfl⟩ := Option.map_eq_some_iff.mp issued
      simp only [AvoidsSharedPicture, identified, Option.mem_def, Option.some.injEq, forall_eq']
      cases held : db.content .projects id with
      | none =>
          rw [db.commit_of_failed _ (by rw [held]; rfl)]
          exact iff_of_true apart fun doc present => absurd present (Option.not_mem_none doc)
      | some doc =>
          obtain ⟨owner, stored⟩ := wellFormed .projects held
          rw [Database.picturesApart_commit_project apart rfl (by rw [held]; rfl)
            (stored.setPicture url)]
          simp only [Option.some.injEq, forall_eq', stored.elements_interests]

/-- **When every row keeps its own avatar.** From empty collections, the rows of all cards
have distinct identities after every write of a run if and only if every operation finds
the picture of its record free for the interests and projects that it gives the record. -/
theorem distinctAvatars_along_iff (operations : List StoreOperation) :
    storeMachine.Along (fun _ _ next => next.DistinctAvatars) Database.empty operations ↔
      storeMachine.Along (fun before operation _ => AvoidsSharedPicture before operation)
        Database.empty operations := by
  let invariant (db : Database) : Prop := db.WellFormed ∧ db.PicturesApart
  have start : invariant Database.empty :=
    ⟨Database.wellFormed_empty, fun first one => absurd one List.not_mem_nil⟩
  refine Machine.along_iff_along (fun kept stepped => ?_) (fun kept stepped distinct => ?_) start
  · rw [Database.distinctAvatars_iff (kept.1.step stepped)]
    exact Database.picturesApart_step kept.1 kept.2 stepped
  · have wellFormed := kept.1.step stepped
    exact ⟨wellFormed, (Database.distinctAvatars_iff wellFormed).mp distinct⟩

/-- Ann and Bob sign up and then both choose one interest, without a picture. -/
def pictureless : List StoreOperation :=
  [.addUser "u-1" ⟨none, "ann@uni.edu", ""⟩,
    .addProfile { ProfileViewModel.initialProfile "i-1" with email := "ann@uni.edu" },
    .addUser "u-2" ⟨none, "bob@uni.edu", ""⟩,
    .addProfile { ProfileViewModel.initialProfile "i-2" with email := "bob@uni.edu" },
    .updateProfile
      { ProfileViewModel.initialProfile "i-3" with email := "ann@uni.edu", interests := ["HPC"] },
    .updateProfile
      { ProfileViewModel.initialProfile "i-4" with email := "bob@uni.edu", interests := ["HPC"] }]

/-- The card of the shared interest shows the empty picture twice. -/
theorem not_distinctAvatars_pictureless :
    ∃ db, storeMachine.run Database.empty pictureless = some db ∧ ¬ db.DistinctAvatars := by
  refine ⟨_, rfl, fun distinct => ?_⟩
  exact absurd (distinct (fun _ => "i-5") (fun _ => "i-6") (.ofInterest "HPC")) (by decide)

end Bowfolio
