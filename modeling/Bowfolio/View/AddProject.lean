import Bowfolio.Swift.Text
import Bowfolio.ViewModel.Writes

/-!
# The project form

`AddProjectView` creates a project. Done first adds the project's name to the profile
of every selected participant, then starts the image upload, stores the project under
its identifier and asks for the download URL, without waiting for any of them.
-/

namespace Bowfolio

variable {Image : Type}

/-- A request of the form to Firebase. -/
inductive ProjectEffect (Image : Type) where
  | write (request : Write)
  | putData (path : String) (image : Image)
  | downloadURL (path : String) (project : Project)

namespace ProjectEffect

/-- The document writes among the requests, in order. -/
def writes (effects : List (ProjectEffect Image)) : List Write :=
  effects.filterMap fun
    | .write request => some request
    | _ => none

def uploads (effects : List (ProjectEffect Image)) : List (String × Image) :=
  effects.filterMap fun
    | .putData path image => some (path, image)
    | _ => none

def requests (effects : List (ProjectEffect Image)) : List (String × Project) :=
  effects.filterMap fun
    | .downloadURL path project => some (path, project)
    | _ => none

end ProjectEffect

/-- The state of `AddProjectView` that its handlers read: the project of its view
model, the loaded collections, the selections and the image. -/
structure AddProjectView (Image : Type) where
  project : Project
  profiles : List Profile
  projects : List Project
  selectedArray : List String
  selectedParticipantsArray : List String
  image : Option Image

/-- What the user enters into the form. -/
structure ProjectDraft (Image : Type) where
  name : String
  homepage : String
  description : String
  selectedArray : List String
  selectedParticipantsArray : List String
  image : Option Image
  deriving DecidableEq

namespace ProjectViewModel

def loadImageFromStorage (project : Project) : ProjectEffect Image :=
  .downloadURL (imagePath project.name) project

/-- `ProjectViewModel.save`, which traps with `addProject`. -/
def save (project : Project) : Option (List (ProjectEffect Image)) :=
  (addProject project).map fun request => [.write request, loadImageFromStorage project]

end ProjectViewModel

namespace AddProjectView

/-- A form over the loaded collections after the user's entries; its project has the
identifier that `UUID()` drew. -/
def fill (uuid : String) (profiles : List Profile) (projects : List Project)
    (draft : ProjectDraft Image) : AddProjectView Image where
  project :=
    { ProjectViewModel.initialProject uuid with
      name := draft.name
      homepage := draft.homepage
      description := draft.description }
  profiles := profiles
  projects := projects
  selectedArray := draft.selectedArray
  selectedParticipantsArray := draft.selectedParticipantsArray
  image := draft.image

variable (lowercased : String → String) (view : AddProjectView Image)

/-- No loaded project has the trimmed name. -/
def checkNameToBeIdentical (name : String) : Bool :=
  !view.projects.any fun project => project.name == trimmingCharacters name

/-- The condition under which the button Done is disabled. -/
def doneDisabled : Bool :=
  view.project.name.isEmpty || view.project.homepage.isEmpty ||
    view.project.description.isEmpty || view.selectedArray.length ≤ 0 || view.image.isNone ||
    view.checkNameToBeIdentical view.project.name == false

def setInterests : AddProjectView Image :=
  { view with project := { view.project with interests := view.selectedArray } }

/-- The requests of `setParticipants`: for each selected user, one for each loaded
profile whose email is the user's, ignoring case. -/
def setParticipants : List Write :=
  view.selectedParticipantsArray.flatMap fun user =>
    (view.profiles.filter fun profile => lowercased profile.email == lowercased user).map
      fun profile => ProfilesViewModel.addOneProject view.project.name profile.email

/-- The upload of the image, whose completion only prints; without an image the
unwrapping traps. -/
def setPicureOfProject : Option (ProjectEffect Image) :=
  view.image.map fun inputImage =>
    .putData (ProjectViewModel.imagePath view.project.name) inputImage

/-- The requests of Done, in order; none when an unwrapping traps. -/
def handleDoneTapped : Option (List (ProjectEffect Image)) := do
  let chosen := view.setInterests
  let upload ← chosen.setPicureOfProject
  let saved ← ProjectViewModel.save chosen.project
  return (chosen.setParticipants lowercased).map .write ++ upload :: saved

variable {lowercased} {view}

/-- Each participant write adds the name of the form's project. -/
theorem mem_setParticipants {write : Write} (member : write ∈ view.setParticipants lowercased) :
    ∃ profile ∈ view.profiles,
      write = ProfilesViewModel.addOneProject view.project.name profile.email := by
  obtain ⟨user, _, listed⟩ := List.mem_flatMap.mp member
  obtain ⟨profile, matched, rfl⟩ := List.mem_map.mp listed
  exact ⟨profile, (List.mem_filter.mp matched).1, rfl⟩

/-- Done traps exactly without an identifier or an image. It writes the participants'
profiles and then the project, uploads the image and asks for its URL. -/
theorem handleDoneTapped_eq_some_iff {effects : List (ProjectEffect Image)} :
    view.handleDoneTapped lowercased = some effects ↔
      ∃ id image, view.project.id = some id ∧ view.image = some image ∧
        effects = (view.setInterests.setParticipants lowercased).map .write ++
          [.putData (ProjectViewModel.imagePath view.project.name) image,
            .write ⟨.projects, id, .setData view.setInterests.project.encode⟩,
            .downloadURL (ProjectViewModel.imagePath view.project.name)
              view.setInterests.project] := by
  constructor
  · intro issued
    obtain ⟨upload, uploaded, rest⟩ := Option.bind_eq_some_iff.mp issued
    obtain ⟨saved, stored, result⟩ := Option.bind_eq_some_iff.mp rest
    obtain ⟨image, picked, rfl⟩ := Option.map_eq_some_iff.mp uploaded
    obtain ⟨request, added, rfl⟩ := Option.map_eq_some_iff.mp stored
    obtain ⟨id, identified, rfl⟩ := Option.map_eq_some_iff.mp added
    exact ⟨id, image, identified, picked, (Option.some.inj result).symm⟩
  · rintro ⟨id, image, identified, picked, rfl⟩
    have added : ProjectViewModel.addProject view.setInterests.project =
        some ⟨.projects, id, .setData view.setInterests.project.encode⟩ :=
      congrArg (Option.map _) identified
    have saved : (ProjectViewModel.save view.setInterests.project :
        Option (List (ProjectEffect Image))) = some _ :=
      congrArg (Option.map _) added
    refine Option.bind_eq_some_iff.mpr ⟨_, congrArg (Option.map _) picked, ?_⟩
    exact Option.bind_eq_some_iff.mpr ⟨_, saved, rfl⟩

variable {effects : List (ProjectEffect Image)}

/-- Done adds the project to its participants and then stores it. -/
theorem writes_handleDoneTapped {id : String} (identified : view.project.id = some id)
    (issued : view.handleDoneTapped lowercased = some effects) :
    ProjectEffect.writes effects =
      view.setInterests.setParticipants lowercased ++
        [⟨.projects, id, .setData view.setInterests.project.encode⟩] := by
  obtain ⟨own, _, same, _, rfl⟩ := handleDoneTapped_eq_some_iff.mp issued
  cases identified.symm.trans same
  unfold ProjectEffect.writes
  rw [List.filterMap_append, List.filterMap_map]
  exact congrArg (· ++ _) List.filterMap_some

/-- Done uploads the picked image under the name of the project. -/
theorem uploads_handleDoneTapped {image : Image} (picked : view.image = some image)
    (issued : view.handleDoneTapped lowercased = some effects) :
    ProjectEffect.uploads effects =
      [(ProjectViewModel.imagePath view.project.name, image)] := by
  obtain ⟨_, own, _, same, rfl⟩ := handleDoneTapped_eq_some_iff.mp issued
  cases picked.symm.trans same
  unfold ProjectEffect.uploads
  rw [List.filterMap_append, List.filterMap_map]
  exact congrArg (· ++ _) (List.filterMap_eq_nil_iff.mpr fun _ _ => rfl)

/-- Done asks for the URL of the picture at the path of the project. -/
theorem requests_handleDoneTapped (issued : view.handleDoneTapped lowercased = some effects) :
    ProjectEffect.requests effects =
      [(ProjectViewModel.imagePath view.project.name, view.setInterests.project)] := by
  obtain ⟨_, _, _, _, rfl⟩ := handleDoneTapped_eq_some_iff.mp issued
  unfold ProjectEffect.requests
  rw [List.filterMap_append, List.filterMap_map]
  exact congrArg (· ++ _) (List.filterMap_eq_nil_iff.mpr fun _ _ => rfl)

/-- Done is enabled only with an image. -/
theorem image_isSome_of_enabled (enabled : view.doneDisabled = false) : view.image.isSome := by
  unfold doneDisabled at enabled
  simp only [Bool.or_eq_false_iff] at enabled
  obtain ⟨⟨_, picked⟩, _⟩ := enabled
  exact Option.isNone_eq_false_iff.mp picked

end AddProjectView

end Bowfolio
