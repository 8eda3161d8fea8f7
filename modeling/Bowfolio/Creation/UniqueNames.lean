import Bowfolio.Store.Schema
import Bowfolio.View.AddProject

/-!
# Project names

`checkNameToBeIdentical` compares the trimmed candidate with the stored names, but the
candidate is stored as typed. A stored name with surrounding whitespace therefore does
not stand in the way of a second one with the same trimmed form. The names stay
distinct after trimming exactly while no candidate trims to what such a stored name
trims to (`names_stay_distinct_iff`).
-/

namespace Bowfolio

variable {Image : Type} {lowercased : String → String}

/-- What happens to the collections: a Done with the draws of `UUID()`, for the project
and for the snapshots of the form, or a picture arriving for a project. -/
inductive CreationEvent (Image : Type) where
  | handleDoneTapped (uuid : String) (uuids : Nat → String) (draft : ProjectDraft Image)
  | urlCallback (project : Project) (url : String)

/-- The form as the user sees it when its snapshots are up to date. -/
def AddProjectView.upToDate (db : Database) (uuid : String) (uuids : Nat → String)
    (draft : ProjectDraft Image) : AddProjectView Image :=
  .fill uuid (ProfilesViewModel.fetchData uuids (db .profiles).entries)
    (ProjectsViewModel.fetchData uuids (db .projects).entries) draft

/-- Creations one after the other. Done takes an enabled button, and `UUID()` draws an
identifier that no project has. -/
def creationStep (lowercased : String → String) (db : Database) :
    CreationEvent Image → Option Database
  | .handleDoneTapped uuid uuids draft =>
      let view := AddProjectView.upToDate db uuid uuids draft
      if view.doneDisabled ∨ (db.content .projects uuid).isSome then none
      else (view.handleDoneTapped lowercased).map fun effects =>
        db.commitAll (ProjectEffect.writes effects)
  | .urlCallback project url => (ProjectViewModel.updatePicture project url).map db.commit

def creationMachine (lowercased : String → String) : Machine Database (CreationEvent Image) where
  step := creationStep lowercased

/-- No two project documents have the same name after trimming. -/
def Database.DistinctNames (db : Database) : Prop :=
  ∀ first second name other, db.NamesProject first name → db.NamesProject second other →
    first ≠ second → trimmingCharacters name ≠ trimmingCharacters other

/-- The candidate does not trim to what a stored name with surrounding whitespace trims
to. -/
def AvoidsUntrimmed (db : Database) : CreationEvent Image → Prop
  | .handleDoneTapped _ _ draft =>
      ∀ id name, db.NamesProject id name → trimmingCharacters name ≠ name →
        trimmingCharacters name ≠ trimmingCharacters draft.name
  | .urlCallback _ _ => True

/-- What an accepted Done leaves in the projects collection. -/
structure Creates (uuid name : String) (before after : Database) : Prop where
  fresh : before.content .projects uuid = none
  created : ∃ project : Project, project.name = name ∧
    after.content .projects uuid = some project.encode
  others : ∀ id, id ≠ uuid → after.content .projects id = before.content .projects id

/-- A successful Done creates one document with the name of the draft. -/
theorem creates_of_step {db next : Database} {uuid : String} {uuids : Nat → String}
    {draft : ProjectDraft Image}
    (stepped : creationStep lowercased db (.handleDoneTapped uuid uuids draft) = some next) :
    Creates uuid draft.name db next := by
  obtain ⟨enabled, accepted⟩ := Option.ite_none_left_eq_some.mp stepped
  obtain ⟨effects, issued, rfl⟩ := Option.map_eq_some_iff.mp accepted
  obtain ⟨_, fresh⟩ := not_or.mp enabled
  have writes := AddProjectView.writes_handleDoneTapped rfl issued
  generalize view : AddProjectView.upToDate db uuid uuids draft = form at *
  have named : form.setInterests.project.name = draft.name := view ▸ rfl
  have kept : db.commitAll (form.setInterests.setParticipants lowercased) .projects =
      db .projects := by
    refine db.commitAll_of_ne fun write member => ?_
    obtain ⟨profile, _, rfl⟩ := AddProjectView.mem_setParticipants member
    exact fun same => nomatch same
  let stored : Write := ⟨.projects, uuid, .setData form.setInterests.project.encode⟩
  let middle := db.commitAll (form.setInterests.setParticipants lowercased)
  rw [writes, Database.commitAll_append]
  refine ⟨Option.not_isSome_iff_eq_none.mp fresh, ⟨_, named, ?_⟩, fun id apart => ?_⟩
  · exact middle.content_commit_self stored rfl
  · have beside : (middle.commit stored).content .projects id = middle.content .projects id :=
      middle.content_commit_of_ne stored (.inr apart)
    exact beside.trans (congrArg (Collection.get? · id) kept)

/-- A picture leaves the names. -/
theorem namesProject_of_urlCallback {db next : Database} {project : Project} {url : String}
    (stepped : creationStep lowercased db (.urlCallback project url : CreationEvent Image) =
      some next)
    {id name : String} (names : next.NamesProject id name) : db.NamesProject id name := by
  obtain ⟨write, issued, rfl⟩ := Option.map_eq_some_iff.mp stepped
  obtain ⟨own, _, rfl⟩ := Option.map_eq_some_iff.mp issued
  obtain ⟨doc, present, named⟩ := names
  rcases db.content_commit_cases _ present with before | ⟨_, _, applied⟩
  · exact ⟨doc, before, named⟩
  · cases before : db.content .projects id with
    | none => rw [before] at applied; cases applied
    | some old =>
        rw [before] at applied
        cases applied
        rw [Function.update_of_ne (by decide)] at named
        exact ⟨old, before, named⟩

/-- Every event issues write operations of the application, so the collections stay
well formed. -/
theorem wellFormed_creationStep {db next : Database} {event : CreationEvent Image}
    (wellFormed : db.WellFormed) (stepped : creationStep lowercased db event = some next) :
    next.WellFormed := by
  cases event with
  | handleDoneTapped uuid uuids draft =>
      obtain ⟨_, accepted⟩ := Option.ite_none_left_eq_some.mp stepped
      obtain ⟨effects, issued, rfl⟩ := Option.map_eq_some_iff.mp accepted
      rw [AddProjectView.writes_handleDoneTapped rfl issued]
      refine wellFormed.commitAll fun write member => ?_
      rcases List.mem_append.mp member with participant | stored
      · obtain ⟨profile, _, rfl⟩ := AddProjectView.mem_setParticipants participant
        exact ⟨.addOneProject _ profile.email, rfl⟩
      · rw [List.mem_singleton.mp stored]
        exact ⟨.addProject (AddProjectView.upToDate db uuid uuids draft).setInterests.project, rfl⟩
  | urlCallback project url =>
      obtain ⟨write, issued, rfl⟩ := Option.map_eq_some_iff.mp stepped
      exact wellFormed.commit (.updateProjectPicture project url) issued

/-- An enabled Done has compared its trimmed name with every stored name. -/
theorem checked_of_step {db next : Database} {uuid : String} {uuids : Nat → String}
    {draft : ProjectDraft Image} (wellFormed : db.WellFormed)
    (stepped : creationStep lowercased db (.handleDoneTapped uuid uuids draft) = some next)
    {id name : String} (names : db.NamesProject id name) :
    name ≠ trimmingCharacters draft.name := by
  obtain ⟨enabled, _⟩ := Option.ite_none_left_eq_some.mp stepped
  obtain ⟨doc, present, named⟩ := names
  have listed : (id, doc) ∈ (db .projects).entries := (db .projects).get?_eq_some_iff.mp present
  obtain ⟨drawn, project, member, decoded⟩ : ∃ drawn, ∃ project ∈
      ProjectsViewModel.fetchData uuids (db .projects).entries,
      Project.decode drawn id doc = .ok project :=
    exists_mem_fetchData listed fun drawn => (wellFormed _ present).decodes_project drawn id
  have sameName : project.name = name := by
    have stored := (Project.storedIn_iff.mp (Project.decode_eq_ok_iff.mp decoded).2).1
    exact FieldValue.string.inj (Option.some.inj (stored.symm.trans named))
  intro taken
  refine enabled (.inl ?_)
  have found : (AddProjectView.upToDate db uuid uuids draft).checkNameToBeIdentical draft.name =
      false := by
    rw [AddProjectView.checkNameToBeIdentical, Bool.not_eq_false', List.any_eq_true]
    exact ⟨project, member, beq_iff_eq.mpr (sameName.trans taken)⟩
  rw [AddProjectView.doneDisabled, Bool.or_eq_true]
  exact .inr (beq_iff_eq.mpr found)

/-- A creation keeps the names distinct exactly when it avoids the untrimmed ones. -/
theorem distinctNames_iff {db next : Database} {event : CreationEvent Image}
    (wellFormed : db.WellFormed) (distinct : db.DistinctNames)
    (stepped : creationStep lowercased db event = some next) :
    next.DistinctNames ↔ AvoidsUntrimmed db event := by
  cases event with
  | urlCallback project url =>
      refine iff_of_true (fun first second name other named namedOther => ?_) trivial
      exact distinct first second name other (namesProject_of_urlCallback stepped named)
        (namesProject_of_urlCallback stepped namedOther)
  | handleDoneTapped uuid uuids draft =>
      obtain ⟨fresh, ⟨project, sameName, created⟩, others⟩ := creates_of_step stepped
      have old {id name : String} (apart : id ≠ uuid) :
          next.NamesProject id name ↔ db.NamesProject id name := by
        rw [Database.NamesProject, Database.NamesProject, others id apart]
      have new {name : String} : next.NamesProject uuid name ↔ name = draft.name := by
        rw [Database.NamesProject, created, ← sameName]
        constructor
        · rintro ⟨_, ⟨⟩, named⟩
          exact (FieldValue.string.inj (Option.some.inj named)).symm
        · rintro rfl
          exact ⟨_, rfl, rfl⟩
      have before {id name : String} (names : db.NamesProject id name) : id ≠ uuid := by
        rintro rfl
        obtain ⟨doc, present, _⟩ := names
        exact absurd (fresh.symm.trans present) nofun
      constructor
      · intro stays id name names _
        exact stays id uuid name draft.name ((old (before names)).mpr names) (new.mpr rfl)
          (before names)
      · intro avoids
        -- A stored name is apart from the new one by the check when it is its own trimmed
        -- form, and by the condition when it is not.
        have apart {id name : String} (names : db.NamesProject id name) :
            trimmingCharacters name ≠ trimmingCharacters draft.name := by
          by_cases trimmed : trimmingCharacters name = name
          · rw [trimmed]
            exact checked_of_step wellFormed stepped names
          · exact avoids id name names trimmed
        intro first second name other named namedOther different
        by_cases isFirst : first = uuid
        · subst isFirst
          rw [new.mp named]
          exact (apart ((old different.symm).mp namedOther)).symm
        · by_cases isSecond : second = uuid
          · subst isSecond
            rw [new.mp namedOther]
            exact apart ((old isFirst).mp named)
          · exact distinct first second name other ((old isFirst).mp named)
              ((old isSecond).mp namedOther) different

/-- **When names stay distinct.** From well formed collections whose project names are
distinct after trimming, the names stay distinct after every step of a run of
creations if and only if every candidate avoids the untrimmed stored names. -/
theorem names_stay_distinct_iff (lowercased : String → String) (db : Database)
    (wellFormed : db.WellFormed) (distinct : db.DistinctNames)
    (events : List (CreationEvent Image)) :
    (creationMachine lowercased).Along (fun _ _ next => next.DistinctNames) db events ↔
      (creationMachine lowercased).Along (fun before event _ => AvoidsUntrimmed before event)
        db events := by
  let invariant (db : Database) : Prop := db.WellFormed ∧ db.DistinctNames
  have start : invariant db := ⟨wellFormed, distinct⟩
  refine Machine.along_iff_along (fun kept stepped => ?_) (fun kept stepped stays => ?_) start
  · exact distinctNames_iff kept.1 kept.2 stepped
  · exact ⟨wellFormed_creationStep kept.1 stepped, stays⟩

/-- A filled form for a project of the given name, in which a participant is selected. -/
def draftNamed (name : String) : ProjectDraft Nat :=
  ⟨name, "reef.org", "Corals", ["Biology"], ["Ann@uni.edu"], some 7⟩

/-- A collection with one profile and no project. -/
def annDatabase : Database :=
  Database.empty.commit
    (ProfileViewModel.addProfile
      { ProfileViewModel.initialProfile "i-1" with email := "ann@uni.edu" })

theorem wellFormed_annDatabase : annDatabase.WellFormed :=
  Database.wellFormed_empty.commit (.addProfile _) rfl

theorem distinctNames_annDatabase : annDatabase.DistinctNames :=
  fun _ _ _ _ named => absurd named.choose_spec.1 nofun

/-- Two projects of different trimmed names. -/
theorem names_stay_distinct_twoNames :
    (creationMachine asciiLowercased).Along (fun _ _ next => next.DistinctNames) annDatabase
      [.handleDoneTapped "d-1" (fun _ => "i-1") (draftNamed "Reef"),
        .handleDoneTapped "d-2" (fun _ => "i-1") (draftNamed "Atoll ")] := by
  refine (names_stay_distinct_iff asciiLowercased annDatabase wellFormed_annDatabase
    distinctNames_annDatabase _).mpr ⟨?_, ?_, trivial⟩
  · rintro id name ⟨doc, present, _⟩
    exact absurd present nofun
  · rintro id name ⟨doc, present, named⟩ untrimmed
    have listed := (Collection.get?_eq_some_iff _).mp present
    cases List.mem_singleton.mp listed
    cases named
    exact absurd (by decide) untrimmed

/-- The typed names differ by a space in front. -/
theorem names_collide_spaced :
    ¬ (creationMachine asciiLowercased).Along (fun _ _ next => next.DistinctNames) annDatabase
      [.handleDoneTapped "d-1" (fun _ => "i-1") (draftNamed " Reef"),
        .handleDoneTapped "d-2" (fun _ => "i-1") (draftNamed "Reef")] := by
  intro along
  obtain ⟨_, distinct, _⟩ := along
  exact distinct "d-1" "d-2" " Reef" "Reef" ⟨_, rfl, rfl⟩ ⟨_, rfl, rfl⟩ (by decide) (by decide)

end Bowfolio
