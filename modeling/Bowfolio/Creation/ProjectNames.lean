import Bowfolio.ViewModel.Writes

/-!
# Project names in the database

A profile refers to projects by name. A write brings names into a profile
(`Write.listed`) or gives one to a new project (`Write.created`). Project names never
disappear, references stay intact under a write that lists existing names, and pending
writes show no names but those that were there and those that they list or create.
-/

namespace Bowfolio

/-- The name that the write gives to a new project document. -/
def Write.created (write : Write) : Option String :=
  match write.collection, write.operation with
  | .projects, .setData data =>
      match data "name" with
      | some (.string name) => some name
      | _ => none
  | _, _ => none

/-- The project names that the write itself brings into a profile. -/
def Write.listed (write : Write) : List String :=
  match write.collection, write.operation with
  | .profiles, .setData data | .profiles, .mergeData data => data.elements "projects"
  | .profiles, .updateData key change =>
      Document.elements (Function.update (fun _ => none) key
        (some (change.apply (fun _ => none) key))) "projects"
  | _, _ => []

namespace Database

/-- Some project document has the name. -/
def ProjectExists (db : Database) (name : String) : Prop :=
  ∃ id, db.NamesProject id name

/-- Every name in a profile's projects is the name of a project document. -/
def ReferencesExist (db : Database) : Prop :=
  ∀ email doc, db.content .profiles email = some doc →
    ∀ name ∈ doc.elements "projects", db.ProjectExists name

end Database

/-- The document has the name for which its identifier was drawn. -/
def NamedAs (names : String → Option String) (id : String) (doc : Document) : Prop :=
  ∃ name, doc "name" = some (.string name) ∧ names id = some name

/-- Every project document has the name for which its identifier was drawn. -/
def Database.Named (db : Database) (names : String → Option String) : Prop :=
  ∀ id doc, db.content .projects id = some doc → NamedAs names id doc

/-- The names that the write itself brings into a profile are known, and a project keeps
its name or gets the one of its identifier. -/
structure Write.Harmless (known : String → Prop) (names : String → Option String)
    (write : Write) : Prop where
  profile : ∀ name ∈ write.listed, known name
  project : write.collection = .projects → ∀ content doc,
    write.operation.apply content = some doc →
      (∃ name ∈ write.created, doc "name" = some (.string name) ∧
        names write.document = some name) ∨
      ∃ old ∈ content, doc "name" = old "name"

/-- Whatever a profile is when the write takes effect, it gains listed names only. -/
theorem Write.mem_elements_apply {write : Write} (isProfile : write.collection = .profiles)
    {content : Option Document} {doc : Document}
    (applied : write.operation.apply content = some doc) {name : String}
    (member : name ∈ doc.elements "projects") :
    (∃ old ∈ content, name ∈ old.elements "projects") ∨ name ∈ write.listed := by
  obtain ⟨collection, document, operation⟩ := write
  cases isProfile
  cases operation with
  | setData data =>
      cases applied
      exact .inr member
  | mergeData data =>
      cases content with
      | none =>
          cases applied
          exact .inr member
      | some old =>
          cases applied
          cases written : data "projects" with
          | none =>
              have kept : old.overlay data "projects" = old "projects" := by
                simp only [Document.overlay, written, Option.none_or]
              rw [Document.elements_congr kept] at member
              exact .inl ⟨old, rfl, member⟩
          | some value =>
              have same : old.overlay data "projects" = data "projects" := by
                rw [Document.overlay_of_some written, written]
              rw [Document.elements_congr same] at member
              exact .inr member
  | updateData key change =>
      cases content with
      | none => cases applied
      | some old =>
          cases applied
          by_cases same : key = "projects"
          · subst same
            cases change with
            | value replacement =>
                have written : Function.update old "projects" (some replacement) "projects" =
                    Function.update (fun _ => none) "projects" (some replacement) "projects" := by
                  rw [Function.update_self, Function.update_self]
                have listed := Document.elements_congr written
                exact .inr ((congrArg (name ∈ ·) listed).mp member)
            | arrayUnion elements =>
                have listed := Document.elements_arrayUnion (fun _ => none) "projects" elements
                rw [Document.elements_arrayUnion] at member
                rcases mem_arrayUnion.mp member with earlier | added
                · exact .inl ⟨old, rfl, earlier⟩
                · refine .inr ((congrArg (name ∈ ·) listed).mpr ?_)
                  exact mem_arrayUnion.mpr (.inr added)
          · rw [Document.elements_congr (Function.update_of_ne (Ne.symm same) ..)] at member
            exact .inl ⟨old, rfl, member⟩

namespace Write.Harmless

variable {known more : String → Prop} {names later : String → Option String}

theorem mono {write : Write} (harmless : write.Harmless known names)
    (wider : ∀ name ∈ write.listed, known name → more name)
    (kept : ∀ id name, names id = some name → later id = some name) :
    write.Harmless more later where
  profile := fun name listed => wider name listed (harmless.profile name listed)
  project := fun addressed content doc applied =>
    (harmless.project addressed content doc applied).imp_left
      fun ⟨name, created, named, drawn⟩ => ⟨name, created, named, kept _ name drawn⟩

/-- Writing a profile with known names is harmless. -/
theorem updateProfile {profile : Profile} (refers : ∀ name ∈ profile.projects, known name) :
    (ProfilesViewModel.updateProfile profile).Harmless known names where
  profile := by
    intro name listed
    have own : (ProfilesViewModel.updateProfile profile).listed = profile.projects :=
      profile.storedIn_encode.elements_projects
    exact refers name (own ▸ listed)
  project := nofun

/-- Adding a known name is harmless. -/
theorem addOneProject {name email : String} (exist : known name) :
    (ProfilesViewModel.addOneProject name email).Harmless known names where
  profile := by
    intro other listed
    have own : (ProfilesViewModel.addOneProject name email).listed = [name] :=
      Document.elements_arrayUnion (fun _ => none) "projects" [name]
    rw [own] at listed
    exact List.mem_singleton.mp listed ▸ exist
  project := nofun

theorem updatePicture {profile : Profile} {url : String} :
    (ProfilesViewModel.updatePicture profile url).Harmless known names where
  profile := by
    intro name listed
    have own : (ProfilesViewModel.updatePicture profile url).listed = [] := rfl
    exact absurd (own ▸ listed) List.not_mem_nil
  project := nofun

theorem updateProjectPicture {project : Project} {url : String} {write : Write}
    (issued : ProjectViewModel.updatePicture project url = some write) :
    write.Harmless known names := by
  obtain ⟨id, _, rfl⟩ := Option.map_eq_some_iff.mp issued
  refine ⟨nofun, fun _ content doc applied => ?_⟩
  cases content with
  | none => cases applied
  | some old =>
      cases applied
      exact .inr ⟨old, rfl, Function.update_of_ne (by decide) ..⟩

/-- Creating a project with the name drawn for its identifier is harmless. -/
theorem addProject {project : Project} {id : String} (drawn : names id = some project.name) :
    Harmless known names ⟨.projects, id, .setData project.encode⟩ where
  profile := nofun
  project := by
    intro _ content doc applied
    cases applied
    exact .inl ⟨project.name, rfl, rfl, drawn⟩

end Write.Harmless

/-! ## What one write preserves -/

section Commit

variable {db : Database} {known : String → Prop} {names : String → Option String} {write : Write}

/-- A harmless write keeps the names of the project documents. -/
theorem Database.Named.commit (named : db.Named names) (harmless : write.Harmless known names) :
    (db.commit write).Named names := by
  intro id doc present
  rcases db.content_commit_cases write present with before | ⟨collection, rfl, applied⟩
  · exact named id doc before
  · rcases harmless.project collection.symm _ doc applied with
      ⟨name, _, own, drawn⟩ | ⟨old, before, same⟩
    · exact ⟨name, own, drawn⟩
    · obtain ⟨name, oldName, drawn⟩ := named _ old before
      exact ⟨name, same.trans oldName, drawn⟩

/-- Project names do not disappear. -/
theorem Database.ProjectExists.commit {name : String} (exist : db.ProjectExists name)
    (named : db.Named names) (harmless : write.Harmless known names) :
    (db.commit write).ProjectExists name := by
  obtain ⟨id, doc, present, own⟩ := exist
  have still : ((db.commit write).content .projects id).isSome :=
    db.content_commit_isSome write (Option.isSome_iff_exists.mpr ⟨doc, present⟩)
  obtain ⟨after, stored⟩ := Option.isSome_iff_exists.mp still
  obtain ⟨later, laterName, laterDrawn⟩ := named.commit harmless id after stored
  obtain ⟨before, beforeName, beforeDrawn⟩ := named id doc present
  cases beforeDrawn.symm.trans laterDrawn
  cases own.symm.trans beforeName
  exact ⟨id, after, stored, laterName⟩

/-- A harmless write leaves no reference without its project. -/
theorem Database.ReferencesExist.commit (references : db.ReferencesExist)
    (named : db.Named names) (harmless : write.Harmless db.ProjectExists names) :
    (db.commit write).ReferencesExist := by
  intro email doc present name member
  suffices before : db.ProjectExists name from before.commit named harmless
  rcases db.content_commit_cases write present with before | ⟨collection, rfl, applied⟩
  · exact references email doc before name member
  · rcases Write.mem_elements_apply collection.symm applied member with ⟨old, before, held⟩ | listed
    · exact references _ old before name held
    · exact harmless.profile name listed

/-- A creation in effect has given its name to a document. -/
theorem Write.projectExists_of_created {name : String} (created : name ∈ write.created)
    (applies : (write.operation.apply (db.content write.collection write.document)).isSome) :
    (db.commit write).ProjectExists name := by
  obtain ⟨doc, applied⟩ := Option.isSome_iff_exists.mp applies
  have stored := db.content_commit_self write applied
  obtain ⟨collection, document, operation⟩ := write
  cases collection with
  | users => exact nomatch created
  | profiles => exact nomatch created
  | projects =>
      cases operation with
      | mergeData data => exact nomatch created
      | updateData key change => exact nomatch created
      | setData data =>
          cases applied
          simp only [Write.created] at created
          split at created
          · cases created
            exact ⟨document, doc, stored, ‹_›⟩
          · exact nomatch created

end Commit

/-! ## What pending writes show -/

section Pending

variable {db : Database} {names : String → Option String} {writes : List Write}

/-- Under pending writes a profile lists what it listed before and what they list. -/
theorem Database.listed_commitAll {email name : String} {doc : Document}
    (present : (db.commitAll writes).content .profiles email = some doc)
    (member : name ∈ doc.elements "projects") :
    (∃ old, db.content .profiles email = some old ∧ name ∈ old.elements "projects") ∨
      ∃ write ∈ writes, name ∈ write.listed := by
  induction writes generalizing db with
  | nil => exact .inl ⟨doc, present, member⟩
  | cons write writes ih =>
      rcases ih present with ⟨middle, stored, held⟩ | ⟨later, queued, listed⟩
      · rcases db.content_commit_cases write stored with before | ⟨collection, rfl, applied⟩
        · exact .inl ⟨middle, before, held⟩
        · rcases Write.mem_elements_apply collection.symm applied held with
            ⟨old, before, earlier⟩ | listed
          · exact .inl ⟨old, before, earlier⟩
          · exact .inr ⟨write, List.mem_cons_self, listed⟩
      · exact .inr ⟨later, List.mem_cons_of_mem _ queued, listed⟩

/-- Under pending writes a project has the name it had before or the one they create. -/
theorem Database.named_commitAll (harmless : ∀ write ∈ writes, ∃ known, write.Harmless known names)
    {id name : String} {doc : Document}
    (present : (db.commitAll writes).content .projects id = some doc)
    (named : doc "name" = some (.string name)) :
    (∃ old, db.content .projects id = some old ∧ old "name" = some (.string name)) ∨
      ∃ write ∈ writes, name ∈ write.created := by
  induction writes generalizing db with
  | nil => exact .inl ⟨doc, present, named⟩
  | cons write writes ih =>
      rcases ih (fun other queued => harmless other (List.mem_cons_of_mem _ queued)) present with
        ⟨middle, stored, held⟩ | ⟨later, queued, created⟩
      · rcases db.content_commit_cases write stored with before | ⟨collection, rfl, applied⟩
        · exact .inl ⟨middle, before, held⟩
        · obtain ⟨known, harmless⟩ := harmless write List.mem_cons_self
          rcases harmless.project collection.symm _ middle applied with
            ⟨own, created, written, _⟩ | ⟨old, before, same⟩
          · cases held.symm.trans written
            exact .inr ⟨write, List.mem_cons_self, created⟩
          · exact .inl ⟨old, before, same.symm.trans held⟩
      · exact .inr ⟨later, List.mem_cons_of_mem _ queued, created⟩

/-- Writes in the order of their issue, each of which lists names that were known or that
an earlier one creates. -/
def Issues (names : String → Option String) : (String → Prop) → List Write → Prop
  | _, [] => True
  | known, write :: rest =>
      write.Harmless known names ∧ Issues names (fun name => known name ∨ name ∈ write.created) rest

namespace Issues

variable {known more : String → Prop} {later : String → Option String}

theorem mono (issues : Issues names known writes) (wider : ∀ name, known name → more name)
    (kept : ∀ id name, names id = some name → later id = some name) :
    Issues later more writes := by
  induction writes generalizing known more with
  | nil => trivial
  | cons write writes ih =>
      refine ⟨issues.1.mono (fun name _ => wider name) kept, ih issues.2 fun name => ?_⟩
      exact Or.imp_left (wider name)

/-- Later writes may list the names that earlier ones create. -/
theorem append_iff {others : List Write} :
    Issues names known (writes ++ others) ↔
      Issues names known writes ∧
        Issues names (fun name => known name ∨ name ∈ writes.filterMap Write.created) others := by
  induction writes generalizing known with
  | nil => simp [Issues]
  | cons write writes ih =>
      have names_eq : (fun name => (known name ∨ name ∈ write.created) ∨
          name ∈ writes.filterMap Write.created) =
          fun name => known name ∨ name ∈ (write :: writes).filterMap Write.created := by
        funext name
        cases created : write.created with
        | none => simp [created]
        | some own => simp [created, or_assoc, eq_comm]
      rw [List.cons_append, Issues, ih, Issues, names_eq, and_assoc]

/-- Writes that list known names may be issued in any order. -/
theorem of_harmless (harmless : ∀ write ∈ writes, write.Harmless known names) :
    Issues names known writes := by
  induction writes generalizing known with
  | nil => trivial
  | cons write writes ih =>
      refine ⟨harmless write List.mem_cons_self, ih fun other later => ?_⟩
      exact (harmless other (List.mem_cons_of_mem _ later)).mono (fun _ _ => .inl)
        fun _ _ drawn => drawn

/-- Each of the writes lists known names and names that the writes create. -/
theorem harmless (issues : Issues names known writes) :
    ∀ write ∈ writes,
      write.Harmless (fun name => known name ∨ name ∈ writes.filterMap Write.created) names := by
  intro write queued
  obtain ⟨before, after, rfl⟩ := List.append_of_mem queued
  obtain ⟨_, own, _⟩ := append_iff.mp issues
  refine own.mono (fun name _ => Or.imp_right fun created => ?_) fun _ _ drawn => drawn
  rw [List.filterMap_append]
  exact List.mem_append_left _ created

end Issues

end Pending

end Bowfolio
