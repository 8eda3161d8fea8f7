import Bowfolio.Foundation.Collect
import Bowfolio.Swift.Text
import Bowfolio.View.AddProject

/-!
# The participants of a new project

`setParticipants` runs over the selected emails and, for each, over the loaded profiles,
and adds the project's name to every profile whose email matches ignoring case. The
writes overlap, but adding a name twice is adding it once, so each matching profile
gains the name once and nothing else changes (`participants_updated`).
-/

namespace Bowfolio

variable {Image : Type}

/-- Profile documents are stored under the email they hold. -/
def Database.KeyedByEmail (db : Database) : Prop :=
  ∀ email doc, db.content .profiles email = some doc →
    ∃ profile : Profile, profile.email = email ∧ profile.StoredIn doc

/-- A profile with this email is loaded, and the email is selected ignoring case. -/
def AddProjectView.Participates (lowercased : String → String) (view : AddProjectView Image)
    (email : String) : Prop :=
  (∃ profile ∈ view.profiles, profile.email = email) ∧
    ∃ user ∈ view.selectedParticipantsArray, lowercased email = lowercased user

/-- The document after `addOneProject`. -/
def Document.join (doc : Document) (name : String) : Document :=
  Function.update doc "projects" (some (FieldChange.apply doc "projects" (.arrayUnion [name])))

section Join

variable {doc : Document} {name : String}

/-- Joining a project again changes nothing. -/
theorem Document.join_join (doc : Document) (name : String) :
    (doc.join name).join name = doc.join name := by
  have held : ∀ other ∈ [name], other ∈ arrayUnion (doc.elements "projects") [name] :=
    fun other member => mem_arrayUnion.mpr (.inr member)
  have kept : FieldChange.apply (doc.join name) "projects" (.arrayUnion [name]) =
      FieldChange.apply doc "projects" (.arrayUnion [name]) := by
    rw [FieldChange.apply, FieldChange.apply, Document.join, Document.elements_arrayUnion,
      arrayUnion_of_subset held]
  rw [Document.join, kept, Document.join, Function.update_idem]

/-- A stored profile joins a project by listing its name, unless it does already. -/
theorem Profile.StoredIn.join {stored : Profile} (held : stored.StoredIn doc) :
    doc.join name =
      Function.update doc "projects" (some (.array (appendMissing stored.projects name))) := by
  rw [Document.join, FieldChange.apply, held.elements_projects]
  rfl

end Join

/-! ## Adding one name to many profiles -/

section Writes

variable (db : Database) (name : String)

/-- Adding a project joins it to one stored profile and no other. -/
theorem Database.content_addOneProject (email other : String) :
    (db.commit (ProfilesViewModel.addOneProject name email)).content .profiles other =
      (db.content .profiles other).map fun doc => if other = email then doc.join name else doc := by
  by_cases same : other = email
  · subst same
    cases present : db.content .profiles other with
    | none =>
        have failed : (ProfilesViewModel.addOneProject name other).operation.apply
            (db.content .profiles other) = none := by
          rw [present]
          rfl
        rw [db.commit_of_failed _ failed, present]
        rfl
    | some doc =>
        have applied : (ProfilesViewModel.addOneProject name other).operation.apply
            (db.content .profiles other) = some (doc.join name) := by
          rw [present]
          rfl
        refine (db.content_commit_self _ applied).trans ?_
        simp
  · rw [db.content_commit_of_ne _ (.inr same)]
    simp [same]

/-- Adding the name for a list of emails joins every listed profile, once. -/
theorem Database.content_addProjects (emails : List String) (other : String) :
    (db.commitAll (emails.map (ProfilesViewModel.addOneProject name))).content .profiles other =
      (db.content .profiles other).map fun doc =>
        if other ∈ emails then doc.join name else doc := by
  induction emails generalizing db with
  | nil => simp [Database.commitAll]
  | cons email emails ih =>
      have step : db.commitAll ((email :: emails).map (ProfilesViewModel.addOneProject name)) =
          (db.commit (ProfilesViewModel.addOneProject name email)).commitAll
            (emails.map (ProfilesViewModel.addOneProject name)) := rfl
      rw [step, ih, db.content_addOneProject, Option.map_map]
      congr 1
      funext doc
      by_cases first : other = email <;> by_cases later : other ∈ emails <;>
        simp [first, later, Document.join_join]

end Writes

namespace AddProjectView

variable (lowercased : String → String) (view : AddProjectView Image)

/-- The emails of the documents that the loops of `setParticipants` write, in order. -/
def participantEmails : List String :=
  view.selectedParticipantsArray.flatMap fun user =>
    (view.profiles.filter fun profile => lowercased profile.email == lowercased user).map
      Profile.email

/-- The loops add the project to the email of every participant. -/
theorem setParticipants_eq :
    view.setParticipants lowercased =
      (view.participantEmails lowercased).map
        (ProfilesViewModel.addOneProject view.project.name) := by
  rw [setParticipants, participantEmails, List.map_flatMap]
  simp [List.map_map, Function.comp_def]

/-- The emails are those of the loaded profiles that participate. -/
theorem mem_participantEmails {email : String} :
    email ∈ view.participantEmails lowercased ↔ view.Participates lowercased email := by
  simp only [participantEmails, List.mem_flatMap, List.mem_map, List.mem_filter, beq_iff_eq]
  constructor
  · intro written
    obtain ⟨user, selected, profile, ⟨loaded, same⟩, rfl⟩ := written
    exact ⟨⟨profile, loaded, rfl⟩, user, selected, same⟩
  · intro participates
    obtain ⟨⟨profile, loaded, rfl⟩, user, selected, same⟩ := participates
    exact ⟨user, selected, profile, ⟨loaded, same⟩, rfl⟩

/-- The writes change the profiles of participants and nothing else. -/
theorem content_setParticipants [DecidablePred (view.Participates lowercased)] (db : Database)
    (email : String) :
    (db.commitAll (view.setParticipants lowercased)).content .profiles email =
      (db.content .profiles email).map fun doc =>
        if view.Participates lowercased email then doc.join view.project.name else doc := by
  rw [setParticipants_eq, db.content_addProjects]
  simp only [mem_participantEmails]

/-- No other collection is written. -/
theorem collection_setParticipants (db : Database) {name : CollectionName}
    (apart : name ≠ .profiles) : db.commitAll (view.setParticipants lowercased) name = db name := by
  refine db.commitAll_of_ne fun write member => ?_
  obtain ⟨profile, _, rfl⟩ := mem_setParticipants member
  exact apart

/-- Selections with the same members have the same participants. -/
theorem participates_congr {users : List String}
    (same : ∀ user, user ∈ users ↔ user ∈ view.selectedParticipantsArray) (email : String) :
    Participates lowercased { view with selectedParticipantsArray := users } email ↔
      view.Participates lowercased email := by
  simp only [Participates, same]

end AddProjectView

/-- **Participants are updated once.** In a store of profiles keyed by their emails, the
writes of `setParticipants` append the project's name to the stored projects of every
participant unless they hold it, keep every other field, every other profile and the
other collections, create nothing, and depend on the members of the selection only. -/
theorem participants_updated (lowercased : String → String) (view : AddProjectView Image)
    (db : Database) (keyed : db.KeyedByEmail) :
    (∀ email doc, db.content .profiles email = some doc →
      ∃ stored : Profile, stored.email = email ∧ stored.StoredIn doc ∧
        (view.Participates lowercased email →
          (db.commitAll (view.setParticipants lowercased)).content .profiles email =
            some (Function.update doc "projects"
              (some (.array (appendMissing stored.projects view.project.name))))) ∧
        (¬ view.Participates lowercased email →
          (db.commitAll (view.setParticipants lowercased)).content .profiles email = some doc)) ∧
    (∀ email, db.content .profiles email = none →
      (db.commitAll (view.setParticipants lowercased)).content .profiles email = none) ∧
    (∀ name, name ≠ .profiles →
      db.commitAll (view.setParticipants lowercased) name = db name) ∧
    ∀ users, (∀ user, user ∈ users ↔ user ∈ view.selectedParticipantsArray) →
      db.commitAll
          (AddProjectView.setParticipants lowercased
            { view with selectedParticipantsArray := users }) =
        db.commitAll (view.setParticipants lowercased) := by
  classical
  refine ⟨fun email doc present => ?_, fun email absent => ?_,
    fun name apart => view.collection_setParticipants lowercased db apart, fun users same => ?_⟩
  · obtain ⟨stored, own, held⟩ := keyed email doc present
    refine ⟨stored, own, held, fun joins => ?_, fun apart => ?_⟩
    · rw [view.content_setParticipants, present, Option.map_some, if_pos joins, held.join]
    · rw [view.content_setParticipants, present, Option.map_some, if_neg apart]
  · rw [view.content_setParticipants, absent, Option.map_none]
  · funext name
    refine Collection.ext_get? fun key => ?_
    by_cases isProfiles : name = .profiles
    · subst isProfiles
      have both := AddProjectView.content_setParticipants lowercased
        { view with selectedParticipantsArray := users } db key
      simp only [view.participates_congr lowercased same] at both
      exact both.trans (view.content_setParticipants lowercased db key).symm
    · rw [AddProjectView.collection_setParticipants lowercased _ db isProfiles,
        view.collection_setParticipants lowercased db isProfiles]

/-- Two profiles, of which one lists the project already. -/
def participantDatabase : Database :=
  Database.empty.commitAll
    [ProfileViewModel.addProfile
        { ProfileViewModel.initialProfile "i-1" with
          email := "ann@uni.edu"
          projects := ["Reef"] },
      ProfileViewModel.addProfile
        { ProfileViewModel.initialProfile "i-2" with
          email := "bob@uni.edu"
          projects := ["Atoll"] }]

/-- The profiles of the example are keyed by their emails. -/
theorem keyedByEmail_participantDatabase : participantDatabase.KeyedByEmail := by
  intro email doc present
  have listed := (Collection.get?_eq_some_iff _).mp present
  rcases List.mem_pair.mp listed with same | same
  · cases same
    exact ⟨_, rfl, Profile.storedIn_encode _⟩
  · cases same
    exact ⟨_, rfl, Profile.storedIn_encode _⟩

/-- The form with an older snapshot of both profiles, one of them selected twice. -/
def participantForm : AddProjectView Nat :=
  .fill "d-1"
    [{ ProfileViewModel.initialProfile "i-3" with email := "ann@uni.edu" },
      { ProfileViewModel.initialProfile "i-4" with email := "bob@uni.edu" }] []
    ⟨"Atoll", "reef.org", "Corals", ["Biology"], ["Ann@uni.edu", "ann@uni.edu"], some 7⟩

/-- Ann joins the new project once, after the one she has. -/
theorem participants_updated_participantForm :
    ∃ doc, (participantDatabase.commitAll
        (participantForm.setParticipants asciiLowercased)).content .profiles "ann@uni.edu" =
      some doc ∧ doc.elements "projects" = ["Reef", "Atoll"] := by
  obtain ⟨updated, _⟩ := participants_updated asciiLowercased participantForm participantDatabase
    keyedByEmail_participantDatabase
  obtain ⟨stored, _, held, joined, _⟩ := updated "ann@uni.edu" _ rfl
  have projects : stored.projects = ["Reef"] :=
    FieldValue.array.inj (Option.some.inj (held "projects" (by decide)).symm)
  have selected : participantForm.Participates asciiLowercased "ann@uni.edu" :=
    ⟨⟨_, List.mem_cons_self, rfl⟩, "Ann@uni.edu", List.mem_cons_self, by decide⟩
  refine ⟨_, joined selected, ?_⟩
  rw [projects]
  decide

end Bowfolio
