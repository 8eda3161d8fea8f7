import Bowfolio.Model.Data

/-!
# The cards of interests and projects

A card shows one picture for each profile or project that matches. `InterestsView`
lists a card for each interest of the bundled data, while the cards read the live
collections: rows and cards agree exactly when the snapshot has the interests of the
bundled data (`rowsMatchCards_iff`). With the interests that the page collects itself
they always agree.
-/

namespace Bowfolio

/-- The loops of `InterestCard.getProfilesAndProjects`. -/
def InterestCard.getProfilesAndProjects (profiles : List Profile) (projects : List Project)
    (interest : String) : List String :=
  let result := profiles.foldl
    (fun result profile =>
      if profile.interests.contains interest then result ++ [profile.picture] else result) []
  projects.foldl
    (fun result project =>
      if project.interests.contains interest then result ++ [project.picture] else result) result

/-- The loop of `ProjectCard.getParticipants`. -/
def ProjectCard.getParticipants (profiles : List Profile) (project : String) : List String :=
  profiles.foldl
    (fun participants profile =>
      if profile.projects.contains project then participants ++ [profile.picture]
      else participants) []

/-- The rows of `InterestsView`: the list over the global `interests`. -/
def InterestsView.rows (bundle : Data.Bundle) : List String :=
  Data.interests bundle

variable {profiles : List Profile} {projects : List Project} {interest : String}

/-- The card of an interest shows the pictures of the profiles and projects that have it. -/
theorem InterestCard.getProfilesAndProjects_eq (profiles : List Profile)
    (projects : List Project) (interest : String) :
    getProfilesAndProjects profiles projects interest =
      (profiles.filter fun profile => profile.interests.contains interest).map Profile.picture ++
        (projects.filter fun project => project.interests.contains interest).map
          Project.picture := by
  rw [getProfilesAndProjects, foldl_append_value, foldl_append_value, List.nil_append]

/-- The card of a project shows the pictures of the profiles that list its name. -/
theorem ProjectCard.getParticipants_eq (profiles : List Profile) (project : String) :
    getParticipants profiles project =
      (profiles.filter fun profile => profile.projects.contains project).map Profile.picture := by
  rw [getParticipants, foldl_append_value, List.nil_append]

/-- A card shows something exactly for the interests that occur. -/
theorem InterestCard.getProfilesAndProjects_ne_nil :
    getProfilesAndProjects profiles projects interest ≠ [] ↔
      interest ∈ occurringInterests profiles projects := by
  rw [getProfilesAndProjects_eq, mem_occurringInterests, not_iff_comm]
  simp [List.filter_eq_nil_iff]

/-- The rows are the interests whose cards show something, one row for each. -/
structure RowsMatchCards (rows : List String) (profiles : List Profile)
    (projects : List Project) : Prop where
  shown : ∀ interest, interest ∈ rows ↔
    InterestCard.getProfilesAndProjects profiles projects interest ≠ []
  once : ∀ interest ∈ rows, rows.count interest = 1

/-- Rows collected from any records match the cards of a snapshot exactly when the same
interests occur in both. -/
theorem rowsMatchCards_collectInterests (seeded : List Profile) (seededProjects : List Project)
    (profiles : List Profile) (projects : List Project) :
    RowsMatchCards (collectInterests seeded seededProjects) profiles projects ↔
      ∀ interest, interest ∈ occurringInterests seeded seededProjects ↔
        interest ∈ occurringInterests profiles projects := by
  have listed (interest : String) : interest ∈ collectInterests seeded seededProjects ↔
      interest ∈ occurringInterests seeded seededProjects := by
    rw [mem_collectInterests, mem_occurringInterests]
  constructor
  · intro rows interest
    rw [← listed, rows.shown, InterestCard.getProfilesAndProjects_ne_nil]
  · intro same
    refine ⟨fun interest => ?_, fun interest row => ?_⟩
    · rw [listed, same, InterestCard.getProfilesAndProjects_ne_nil]
    · exact List.count_eq_one_of_mem (nodup_collectInterests seeded seededProjects) row

/-- The interests that the page collects itself, and does not list, would match. -/
theorem rowsMatchCards_getInterests (profiles : List Profile) (projects : List Project) :
    RowsMatchCards (InterestsView.getInterests profiles projects) profiles projects :=
  (rowsMatchCards_collectInterests profiles projects profiles projects).mpr fun _ => Iff.rfl

/-- **When the interests page is up to date.** The rows match the cards of a snapshot if
and only if the interests in the snapshot are those in the bundled data. -/
theorem rowsMatchCards_iff (bundle : Data.Bundle) (profiles : List Profile)
    (projects : List Project) :
    RowsMatchCards (InterestsView.rows bundle) profiles projects ↔
      ∀ interest,
        interest ∈ occurringInterests (Data.profileData bundle) (Data.projectData bundle) ↔
          interest ∈ occurringInterests profiles projects :=
  rowsMatchCards_collectInterests _ _ profiles projects

/-- A profile with the given interests. -/
def interestedProfile (interests : List String) : Profile :=
  ⟨some "i-1", "Ann", "Lee", "ann@uni.edu", "", "", [], interests, ""⟩

/-- The snapshot holds one profile with an interest of its own. -/
theorem not_rowsMatchCards_chess :
    ¬ RowsMatchCards
      (InterestsView.rows ⟨fun _ => interestedProfile [], fun _ => ⟨none, "", "", "", [], ""⟩⟩)
      [interestedProfile ["Chess"]] [] := by
  intro rows
  have shown := (rows.shown "Chess").mpr (by decide)
  rw [InterestsView.rows, Data.interests_eq] at shown
  exact absurd shown (by decide)

end Bowfolio
