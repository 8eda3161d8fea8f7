import Bowfolio.Foundation.Collect
import Bowfolio.Model.Records

/-!
# The interests on offer

Four views and the bundled data each collect the interests of the profiles and then
those of the projects, with the same two loops. The result lists every interest once,
in the order of first occurrence (`getInterests_collects`).
-/

namespace Bowfolio

/-- The loops of each `getInterests`: the interests of the profiles, then those of the
projects, each unless `interestsArray` contains it. -/
def collectInterests (profiles : List Profile) (projects : List Project) : List String :=
  let interestsArray := profiles.foldl
    (fun interestsArray profile => collect interestsArray profile.interests) []
  projects.foldl
    (fun interestsArray project => collect interestsArray project.interests) interestsArray

/-- `AddProjectView.getInterests`, over what its view models publish. -/
def AddProjectView.getInterests (profiles : List Profile) (projects : List Project) :
    List String :=
  collectInterests profiles projects

/-- `EditProfileView.getInterests`. -/
def EditProfileView.getInterests (profiles : List Profile) (projects : List Project) :
    List String :=
  collectInterests profiles projects

/-- `FilterView.getInterests`. -/
def FilterView.getInterests (profiles : List Profile) (projects : List Project) : List String :=
  collectInterests profiles projects

/-- `InterestsView.getInterests`. -/
def InterestsView.getInterests (profiles : List Profile) (projects : List Project) :
    List String :=
  collectInterests profiles projects

/-- The interests of all profiles, followed by those of all projects. -/
def occurringInterests (profiles : List Profile) (projects : List Project) : List String :=
  profiles.flatMap Profile.interests ++ projects.flatMap Project.interests

variable {profiles : List Profile} {projects : List Project} {interest : String}

/-- The loops collect the occurring interests into an empty list. -/
theorem collectInterests_eq (profiles : List Profile) (projects : List Project) :
    collectInterests profiles projects = collect [] (occurringInterests profiles projects) := by
  rw [collectInterests, foldl_collect, foldl_collect, occurringInterests, collect_append]

/-- An interest occurs when some profile or project has it. -/
theorem mem_occurringInterests :
    interest ∈ occurringInterests profiles projects ↔
      (∃ profile ∈ profiles, interest ∈ profile.interests) ∨
        ∃ project ∈ projects, interest ∈ project.interests := by
  simp [occurringInterests]

/-- Exactly the occurring interests are collected. -/
theorem mem_collectInterests :
    interest ∈ collectInterests profiles projects ↔
      (∃ profile ∈ profiles, interest ∈ profile.interests) ∨
        ∃ project ∈ projects, interest ∈ project.interests := by
  rw [collectInterests_eq, mem_collect, ← mem_occurringInterests]
  simp

/-- No interest is collected twice. -/
theorem nodup_collectInterests (profiles : List Profile) (projects : List Project) :
    (collectInterests profiles projects).Nodup := by
  rw [collectInterests_eq]
  exact nodup_collect List.nodup_nil

/-- Further projects only append interests. -/
theorem collectInterests_prefix (profiles : List Profile) (projects added : List Project) :
    collectInterests profiles projects <+: collectInterests profiles (projects ++ added) := by
  have occurring : occurringInterests profiles (projects ++ added) =
      occurringInterests profiles projects ++ added.flatMap Project.interests := by
    simp [occurringInterests]
  rw [collectInterests_eq, collectInterests_eq, occurring, collect_append]
  exact prefix_collect

/-- The list offers every occurring interest once, in the order of first occurrence. -/
structure OffersInterests (profiles : List Profile) (projects : List Project)
    (interestsArray : List String) : Prop where
  nodup : interestsArray.Nodup
  occurs : ∀ interest, interest ∈ interestsArray ↔
    (∃ profile ∈ profiles, interest ∈ profile.interests) ∨
      ∃ project ∈ projects, interest ∈ project.interests
  ordered : interestsArray.Pairwise fun first second =>
    (occurringInterests profiles projects).idxOf first <
      (occurringInterests profiles projects).idxOf second

/-- The collected list offers every occurring interest. -/
theorem offersInterests_collectInterests (profiles : List Profile) (projects : List Project) :
    OffersInterests profiles projects (collectInterests profiles projects) where
  nodup := nodup_collectInterests profiles projects
  occurs := fun _ => mem_collectInterests
  ordered := by
    rw [collectInterests_eq]
    exact pairwise_idxOf_collect _

/-- **The interests on offer.** All four views return the same list, which offers every
occurring interest once and in the order of first occurrence; appending projects only
appends to it. -/
theorem getInterests_collects (profiles : List Profile) (projects : List Project) :
    (EditProfileView.getInterests profiles projects =
        AddProjectView.getInterests profiles projects ∧
      FilterView.getInterests profiles projects = AddProjectView.getInterests profiles projects ∧
      InterestsView.getInterests profiles projects =
        AddProjectView.getInterests profiles projects) ∧
    OffersInterests profiles projects (AddProjectView.getInterests profiles projects) ∧
    ∀ added, AddProjectView.getInterests profiles projects <+:
      AddProjectView.getInterests profiles (projects ++ added) :=
  ⟨⟨rfl, rfl, rfl⟩, offersInterests_collectInterests profiles projects,
    collectInterests_prefix profiles projects⟩

end Bowfolio
