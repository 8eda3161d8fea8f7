import Bowfolio.Creation.Participants

/-!
# Concurrent creations

Several apps tap Done at the same time, and their writes reach the store in any order,
some of them more than once. Writes to one profile commute up to the order of the
joined names and repeat without effect, and each project document has one writer, so
the store depends on the submitted forms only (`creations_interleave`).
-/

namespace Bowfolio

variable {Image : Type}

/-- Done on the form issues this write. -/
def AddProjectView.Issues (lowercased : String → String) (view : AddProjectView Image)
    (write : Write) : Prop :=
  ∃ effects, view.handleDoneTapped lowercased = some effects ∧
    write ∈ ProjectEffect.writes effects

namespace AddProjectView

variable {lowercased : String → String} {view : AddProjectView Image}

/-- Choosing the interests changes neither the name nor the participants. -/
theorem participates_setInterests (email : String) :
    view.setInterests.Participates lowercased email ↔ view.Participates lowercased email :=
  Iff.rfl

/-- A form issues exactly the writes of its Done. -/
theorem issues_iff_mem {effects : List (ProjectEffect Image)}
    (issued : view.handleDoneTapped lowercased = some effects) {write : Write} :
    view.Issues lowercased write ↔ write ∈ ProjectEffect.writes effects := by
  constructor
  · intro issues
    obtain ⟨others, same, member⟩ := issues
    cases issued.symm.trans same
    exact member
  · exact fun member => ⟨effects, issued, member⟩

/-- A form that does not trap joins its participants and stores its project. -/
theorem issues_iff (untrapped : (view.handleDoneTapped lowercased).isSome) {write : Write} :
    view.Issues lowercased write ↔
      (∃ email, view.Participates lowercased email ∧
        write = ProfilesViewModel.addOneProject view.project.name email) ∨
      ∃ id, view.project.id = some id ∧
        write = ⟨.projects, id, .setData view.setInterests.project.encode⟩ := by
  obtain ⟨effects, issued⟩ := Option.isSome_iff_exists.mp untrapped
  obtain ⟨id, _, identified, _⟩ := handleDoneTapped_eq_some_iff.mp issued
  have writes := writes_handleDoneTapped identified issued
  have joins : write ∈ view.setInterests.setParticipants lowercased ↔
      ∃ email, view.Participates lowercased email ∧
        write = ProfilesViewModel.addOneProject view.project.name email := by
    rw [setParticipants_eq, List.mem_map]
    simp only [mem_participantEmails, participates_setInterests, eq_comm (b := write)]
    rfl
  rw [issues_iff_mem issued, writes, List.mem_append, joins, List.mem_singleton, identified]
  simp only [Option.some.injEq, exists_eq_left']

end AddProjectView

/-- Joins of one profile, among writes to other documents, collect the joined names. -/
theorem Database.content_commitAll_joins {db : Database} {writes : List Write} {email : String}
    {stored : Profile} {doc : Document} (present : db.content .profiles email = some doc)
    (held : stored.StoredIn doc)
    (joins : ∀ write ∈ writes, write.collection = .profiles → write.document = email →
      ∃ name, write = ProfilesViewModel.addOneProject name email) :
    ∃ names : List String,
      (∀ name, name ∈ names ↔ ProfilesViewModel.addOneProject name email ∈ writes) ∧
      (db.commitAll writes).content .profiles email =
        some (Function.update doc "projects" (some (.array (collect stored.projects names)))) := by
  induction writes generalizing db doc stored with
  | nil =>
      refine ⟨[], by simp, ?_⟩
      have projects := held "projects" (by decide)
      rw [collect_nil, ← stored.encode_projects, ← projects, Function.update_eq_self]
      exact present
  | cons write writes ih =>
      have later : ∀ other ∈ writes, other.collection = .profiles → other.document = email →
          ∃ name, other = ProfilesViewModel.addOneProject name email := fun other member =>
        joins other (List.mem_cons_of_mem _ member)
      rw [Database.commitAll_cons]
      by_cases addressed : write.collection = .profiles ∧ write.document = email
      · obtain ⟨name, rfl⟩ := joins write List.mem_cons_self addressed.1 addressed.2
        have joined : (db.commit (ProfilesViewModel.addOneProject name email)).content .profiles
            email = some (doc.join name) := by
          rw [db.content_addOneProject, present, Option.map_some, if_pos rfl]
        obtain ⟨names, members, result⟩ := ih joined (held.unionProjects [name]) later
        refine ⟨name :: names, fun other => ?_, ?_⟩
        · simp [members, ProfilesViewModel.addOneProject]
        · rw [result, held.join, Function.update_idem]
          rfl
      · have apart : CollectionName.profiles ≠ write.collection ∨ email ≠ write.document := by
          tauto
        have kept := db.content_commit_of_ne write apart
        obtain ⟨names, members, result⟩ := ih (kept.trans present) held later
        refine ⟨names, fun other => ?_, result⟩
        rw [members, List.mem_cons]
        refine (or_iff_right fun same => addressed ?_).symm
        exact ⟨congrArg Write.collection same.symm, congrArg Write.document same.symm⟩

/-- The writes that reach the store are those of the submitted forms, in any order and
any number of times each. -/
def Delivers (lowercased : String → String) (views : List (AddProjectView Image))
    (schedule : List Write) : Prop :=
  ∀ write, write ∈ schedule ↔ ∃ view ∈ views, view.Issues lowercased write

namespace Delivers

variable {lowercased : String → String} {views : List (AddProjectView Image)}
  {schedule : List Write} (delivers : Delivers lowercased views schedule)
  (untrapped : ∀ view ∈ views, (view.handleDoneTapped lowercased).isSome)
include delivers untrapped

/-- Each delivered write joins a participant or stores a project. -/
theorem cases {write : Write} (member : write ∈ schedule) :
    ∃ view ∈ views,
      (∃ email, write = ProfilesViewModel.addOneProject view.project.name email) ∨
      ∃ id, view.project.id = some id ∧
        write = ⟨.projects, id, .setData view.setInterests.project.encode⟩ := by
  obtain ⟨view, submitted, issues⟩ := (delivers write).mp member
  rcases (view.issues_iff (untrapped view submitted)).mp issues with joins | stores
  · obtain ⟨email, _, rfl⟩ := joins
    exact ⟨view, submitted, .inl ⟨email, rfl⟩⟩
  · exact ⟨view, submitted, .inr stores⟩

/-- A join is delivered for each submitted form of that name with that participant. -/
theorem addOneProject_mem_iff {name email : String} :
    ProfilesViewModel.addOneProject name email ∈ schedule ↔
      ∃ view ∈ views, view.project.name = name ∧ view.Participates lowercased email := by
  refine (delivers _).trans (exists_congr fun view => and_congr_right fun submitted => ?_)
  rw [view.issues_iff (untrapped view submitted)]
  simp only [ProfilesViewModel.addOneProject, Write.mk.injEq, DocumentWrite.updateData.injEq,
    FieldChange.arrayUnion.injEq, List.cons.injEq, reduceCtorEq, and_false, exists_false,
    or_false, true_and, and_true]
  constructor
  · intro joins
    obtain ⟨_, participates, rfl, rfl⟩ := joins
    exact ⟨rfl, participates⟩
  · intro joins
    obtain ⟨rfl, participates⟩ := joins
    exact ⟨email, participates, rfl, rfl⟩

/-- A stored profile only gains the new projects that it participates in, once each. -/
theorem content_profiles {db : Database} {email : String} {stored : Profile} {doc : Document}
    (present : db.content .profiles email = some doc) (held : stored.StoredIn doc) :
    ∃ joined : List String, joined.Nodup ∧
      (∀ name, name ∈ joined ↔ name ∉ stored.projects ∧
        ∃ view ∈ views, view.project.name = name ∧ view.Participates lowercased email) ∧
      (db.commitAll schedule).content .profiles email =
        some (Function.update doc "projects" (some (.array (stored.projects ++ joined)))) := by
  have joins : ∀ write ∈ schedule, write.collection = .profiles → write.document = email →
      ∃ name, write = ProfilesViewModel.addOneProject name email := by
    intro write member profiles own
    obtain ⟨view, _, ⟨other, rfl⟩ | ⟨id, _, rfl⟩⟩ := delivers.cases untrapped member
    · exact ⟨view.project.name, own ▸ rfl⟩
    · exact absurd profiles nofun
  obtain ⟨names, members, result⟩ := Database.content_commitAll_joins present held joins
  obtain ⟨joined, appended, nodup, added⟩ := collect_eq_append stored.projects names
  refine ⟨joined, nodup, fun name => ?_, appended ▸ result⟩
  rw [added, members, delivers.addOneProject_mem_iff untrapped]

/-- A join of a profile that does not exist fails. -/
theorem content_profiles_none {db : Database} {email : String}
    (absent : db.content .profiles email = none) :
    (db.commitAll schedule).content .profiles email = none := by
  refine db.content_commitAll_none (fun write member profiles _ => ?_) absent
  obtain ⟨view, _, ⟨other, rfl⟩ | ⟨id, _, rfl⟩⟩ := delivers.cases untrapped member
  · rfl
  · exact absurd profiles nofun

/-- The project of a submitted form is stored when no other form has its identifier. -/
theorem content_projects {db : Database} {view : AddProjectView Image} (submitted : view ∈ views)
    (distinct : views.Pairwise fun first second => first.project.id ≠ second.project.id)
    {id : String} (identified : view.project.id = some id) :
    (db.commitAll schedule).content .projects id =
      some view.setInterests.project.encode := by
  refine db.content_commitAll_setData (fun write member projects own => ?_) (.inl ?_)
  · obtain ⟨other, isSubmitted, ⟨email, rfl⟩ | ⟨otherId, otherIdentified, rfl⟩⟩ :=
      delivers.cases untrapped member
    · exact absurd projects nofun
    · have : Std.Symm fun first second : AddProjectView Image =>
          first.project.id ≠ second.project.id := ⟨fun _ _ => Ne.symm⟩
      have same : other = view := by
        by_contra apart
        refine distinct.forall isSubmitted submitted apart ?_
        rw [otherIdentified, identified]
        exact congrArg some own
      rw [same]
  · refine ⟨⟨.projects, id, .setData view.setInterests.project.encode⟩, ?_, rfl, rfl⟩
    refine (delivers _).mpr ⟨view, submitted, ?_⟩
    exact (view.issues_iff (untrapped view submitted)).mpr (.inr ⟨id, identified, rfl⟩)

/-- Other project documents stay as they were. -/
theorem content_projects_of_ne {db : Database} {id : String}
    (other : ∀ view ∈ views, view.project.id ≠ some id) :
    (db.commitAll schedule).content .projects id = db.content .projects id := by
  refine db.content_commitAll_of_ne fun write member => ?_
  obtain ⟨view, submitted, ⟨email, rfl⟩ | ⟨own, identified, rfl⟩⟩ :=
    delivers.cases untrapped member
  · exact .inl nofun
  · refine .inr fun same => other view submitted ?_
    rw [identified]
    exact congrArg some same.symm

/-- No user document is written. -/
theorem users (db : Database) : db.commitAll schedule .users = db .users := by
  refine db.commitAll_of_ne fun write member => ?_
  obtain ⟨view, _, ⟨email, rfl⟩ | ⟨id, _, rfl⟩⟩ := delivers.cases untrapped member
  · exact nofun
  · exact nofun

end Delivers

/-- **Concurrent creations.** When forms that do not trap and have different identifiers
are submitted by any apps, the store after their writes, delivered in any order and
with repetitions, is this: each stored profile has gained, once each and after its own
names, the names of the forms in which it participates and that it did not list; each
form's project is stored with the chosen interests; all else is as before. -/
theorem creations_interleave (lowercased : String → String) (views : List (AddProjectView Image))
    (db : Database) (untrapped : ∀ view ∈ views, (view.handleDoneTapped lowercased).isSome)
    (distinct : views.Pairwise fun first second => first.project.id ≠ second.project.id)
    (schedule : List Write) (delivers : Delivers lowercased views schedule) :
    (∀ email doc stored, db.content .profiles email = some doc → Profile.StoredIn stored doc →
      ∃ joined : List String, joined.Nodup ∧
        (∀ name, name ∈ joined ↔ name ∉ stored.projects ∧
          ∃ view ∈ views, view.project.name = name ∧ view.Participates lowercased email) ∧
        (db.commitAll schedule).content .profiles email =
          some (Function.update doc "projects" (some (.array (stored.projects ++ joined))))) ∧
    (∀ email, db.content .profiles email = none →
      (db.commitAll schedule).content .profiles email = none) ∧
    (∀ view ∈ views, ∀ id, view.project.id = some id →
      (db.commitAll schedule).content .projects id = some view.setInterests.project.encode) ∧
    (∀ id, (∀ view ∈ views, view.project.id ≠ some id) →
      (db.commitAll schedule).content .projects id = db.content .projects id) ∧
    db.commitAll schedule .users = db .users :=
  ⟨fun _ _ _ present held => delivers.content_profiles untrapped present held,
    fun _ absent => delivers.content_profiles_none untrapped absent,
    fun _ submitted _ identified =>
      delivers.content_projects untrapped submitted distinct identified,
    fun _ other => delivers.content_projects_of_ne untrapped other,
    delivers.users untrapped db⟩

/-- A second form with a participant of the first. -/
def lagoonForm : AddProjectView Nat :=
  .fill "d-2" [{ ProfileViewModel.initialProfile "i-5" with email := "ann@uni.edu" }] []
    ⟨"Lagoon", "lagoon.org", "Tides", ["Biology"], ["ann@uni.edu"], some 8⟩

def concurrentForms : List (AddProjectView Nat) := [participantForm, lagoonForm]

/-- The writes of the forms, interleaved, with one join delivered twice. -/
def concurrentSchedule : List Write :=
  [ProfilesViewModel.addOneProject "Lagoon" "ann@uni.edu",
    ⟨.projects, "d-2", .setData lagoonForm.setInterests.project.encode⟩,
    ProfilesViewModel.addOneProject "Atoll" "ann@uni.edu",
    ⟨.projects, "d-1", .setData participantForm.setInterests.project.encode⟩,
    ProfilesViewModel.addOneProject "Atoll" "ann@uni.edu"]

/-- The schedule delivers the writes of both forms. -/
theorem delivers_concurrentSchedule :
    Delivers asciiLowercased concurrentForms concurrentSchedule := by
  have first (write : Write) : participantForm.Issues asciiLowercased write ↔
      write ∈ [ProfilesViewModel.addOneProject "Atoll" "ann@uni.edu",
        ProfilesViewModel.addOneProject "Atoll" "ann@uni.edu",
        ⟨.projects, "d-1", .setData participantForm.setInterests.project.encode⟩] :=
    (AddProjectView.issues_iff_mem rfl).trans Iff.rfl
  have second (write : Write) : lagoonForm.Issues asciiLowercased write ↔
      write ∈ [ProfilesViewModel.addOneProject "Lagoon" "ann@uni.edu",
        ⟨.projects, "d-2", .setData lagoonForm.setInterests.project.encode⟩] :=
    (AddProjectView.issues_iff_mem rfl).trans Iff.rfl
  intro write
  simp only [concurrentForms, List.mem_cons, List.not_mem_nil, or_false, exists_eq_or_imp,
    exists_eq_left, first, second, concurrentSchedule]
  tauto

/-- Ann keeps her project and gains both new ones. -/
theorem creations_interleave_concurrentSchedule :
    ∃ joined : List String, joined.Nodup ∧ "Lagoon" ∈ joined ∧ "Atoll" ∈ joined ∧
      ∃ doc, (participantDatabase.commitAll concurrentSchedule).content .profiles "ann@uni.edu" =
        some doc ∧ doc.elements "projects" = "Reef" :: joined := by
  obtain ⟨profiles, _⟩ := creations_interleave asciiLowercased concurrentForms participantDatabase
    (by decide) (by decide) concurrentSchedule delivers_concurrentSchedule
  obtain ⟨joined, nodup, members, result⟩ := profiles "ann@uni.edu" _ _ rfl
    (Profile.storedIn_encode _)
  refine ⟨joined, nodup, (members "Lagoon").mpr ⟨by decide, lagoonForm, ?_, rfl, ?_⟩,
    (members "Atoll").mpr ⟨by decide, participantForm, ?_, rfl, ?_⟩, _, result, ?_⟩
  · exact List.mem_cons_of_mem _ List.mem_cons_self
  · exact ⟨⟨_, List.mem_cons_self, rfl⟩, _, List.mem_cons_self, rfl⟩
  · exact List.mem_cons_self
  · exact ⟨⟨_, List.mem_cons_self, rfl⟩, "Ann@uni.edu", List.mem_cons_self, by decide⟩
  · exact Document.elements_of_array (Function.update_self _ _ _)

end Bowfolio
