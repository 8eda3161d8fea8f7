import Mathlib.Data.List.Nodup
import Bowfolio.Foundation.Machine
import Bowfolio.Storage.Path
import Bowfolio.View.AddProject

/-!
# The pictures of new projects

Done starts the upload of the image and at once asks for the URL of the object at the
same path, again and again until there is one. The path is made from the name. For any
creations in any interleaving, every project gets the picture of its own Done exactly
when the standardized paths are pairwise distinct (`own_pictures_iff`).
-/

namespace Bowfolio

variable {Image : Type}

/-- A project form whose button Done is enabled, with the identifier of its project. -/
structure Creation (Image : Type) where
  view : AddProjectView Image
  id : String
  identified : view.project.id = some id
  enabled : view.doneDisabled = false

/-- The path of a creation's image. -/
def Creation.path (creation : Creation Image) : String :=
  objectPath creation.view.project.name

/-- An enabled Done does not trap: it has an image and issues its requests. -/
theorem Creation.issues (creation : Creation Image) (lowercased : String → String) :
    ∃ image effects, creation.view.image = some image ∧
      creation.view.handleDoneTapped lowercased = some effects := by
  obtain ⟨image, picked⟩ :=
    Option.isSome_iff_exists.mp (AddProjectView.image_isSome_of_enabled creation.enabled)
  exact ⟨image, _, picked, AddProjectView.handleDoneTapped_eq_some_iff.mpr
    ⟨creation.id, image, creation.identified, picked, rfl⟩⟩

/-- An object of the image storage: the image that the Done of project `owner` uploaded. -/
structure ImageVersion (Image : Type) where
  owner : String
  image : Image

structure ImageUpload (Image : Type) where
  path : String
  version : ImageVersion Image

/-- A download-URL request, with the project that its callback updates. -/
structure ImageRequest where
  path : String
  project : Project

/-- A served request. Its URL denotes the version present when it was issued. -/
structure ImageAnswer (Image : Type) where
  project : Project
  version : ImageVersion Image

/-- A picture written by a callback, with the version that its URL denotes. -/
structure PictureWrite (Image : Type) where
  request : Write
  version : ImageVersion Image

/-- The open forms of all clients, the image storage, and what is under way. -/
structure ImageStore (Image : Type) where
  forms : List (Creation Image)
  objects : String → Option (ImageVersion Image)
  uploads : List (ImageUpload Image)
  requests : List ImageRequest
  answers : List (ImageAnswer Image)
  written : List (PictureWrite Image)

inductive ImageEvent where
  | handleDoneTapped (index : Nat)
  | uploadCompleted (index : Nat)
  | uploadFailed (index : Nat)
  | downloadURL (index : Nat)
  | urlCallback (index : Nat)
  deriving DecidableEq, Repr

namespace ImageStore

/-- Nothing is under way and the storage is empty. -/
def launch (creations : List (Creation Image)) : ImageStore Image :=
  ⟨creations, fun _ => none, [], [], [], []⟩

variable (lowercased : String → String) (url : ImageVersion Image → String)
  (state : ImageStore Image)

/-- Issue the requests of a form's Done. The reference of a path standardizes it. -/
def perform (owner : String) (effects : List (ProjectEffect Image)) : ImageStore Image :=
  { state with
    uploads := state.uploads ++ (ProjectEffect.uploads effects).map fun (path, image) =>
      ⟨standardizedPathForString path, ⟨owner, image⟩⟩
    requests := state.requests ++ (ProjectEffect.requests effects).map fun (path, project) =>
      ⟨standardizedPathForString path, project⟩ }

/-- Storage serves a request. Without an object it fails and its callback repeats it. -/
def serve (index : Nat) (request : ImageRequest) : ImageStore Image :=
  match state.objects request.path with
  | none => state
  | some version =>
      { state with
        requests := state.requests.eraseIdx index
        answers := state.answers ++ [⟨request.project, version⟩] }

def step : ImageEvent → Option (ImageStore Image)
  | .handleDoneTapped index =>
      state.forms[index]?.bind fun creation =>
        (creation.view.handleDoneTapped lowercased).map fun effects =>
          { state with forms := state.forms.eraseIdx index }.perform creation.id effects
  | .uploadCompleted index =>
      state.uploads[index]?.map fun upload =>
        { state with
          objects := Function.update state.objects upload.path (some upload.version)
          uploads := state.uploads.eraseIdx index }
  | .uploadFailed index =>
      state.uploads[index]?.map fun _ => { state with uploads := state.uploads.eraseIdx index }
  | .downloadURL index => state.requests[index]?.map fun request => state.serve index request
  | .urlCallback index =>
      state.answers[index]?.bind fun answer =>
        (ProjectViewModel.updatePicture answer.project (url answer.version)).map fun request =>
          { state with
            answers := state.answers.eraseIdx index
            written := state.written ++ [⟨request, answer.version⟩] }

end ImageStore

def imageMachine (lowercased : String → String) (url : ImageVersion Image → String) :
    Machine (ImageStore Image) ImageEvent where
  step := ImageStore.step lowercased url

/-- In every run, every picture written denotes the image of the same project's Done. -/
def OwnPictures (lowercased : String → String) (url : ImageVersion Image → String)
    (creations : List (Creation Image)) : Prop :=
  ∀ events final, (imageMachine lowercased url).run (.launch creations) events = some final →
    ∀ picture ∈ final.written,
      picture.request.collection = .projects ∧ picture.version.owner = picture.request.document

/-- What is stored or under way under the path of a creation is that creation's. -/
structure ImageStore.Traced (creations : List (Creation Image)) (state : ImageStore Image) :
    Prop where
  forms : ∀ creation ∈ state.forms, creation ∈ creations
  objects : ∀ path version, state.objects path = some version →
    ∃ creation ∈ creations, path = creation.path ∧ version.owner = creation.id
  uploads : ∀ upload ∈ state.uploads,
    ∃ creation ∈ creations, upload.path = creation.path ∧ upload.version.owner = creation.id
  requests : ∀ request ∈ state.requests,
    ∃ creation ∈ creations, request.path = creation.path ∧ request.project.id = some creation.id
  answers : ∀ answer ∈ state.answers, answer.project.id = some answer.version.owner
  written : ∀ picture ∈ state.written,
    picture.request.collection = .projects ∧ picture.version.owner = picture.request.document

namespace ImageStore.Traced

variable {lowercased : String → String} {url : ImageVersion Image → String}
  {creations : List (Creation Image)} {state next : ImageStore Image}

/-- The upload and the request of a Done are traced to its creation. -/
theorem handleDoneTapped (traced : state.Traced creations) {index : Nat}
    {creation : Creation Image} {effects : List (ProjectEffect Image)}
    (opened : state.forms[index]? = some creation)
    (issued : creation.view.handleDoneTapped lowercased = some effects) :
    ({ state with forms := state.forms.eraseIdx index }.perform creation.id effects).Traced
      creations := by
  have listed := traced.forms creation (List.mem_of_getElem? opened)
  obtain ⟨image, picked⟩ :=
    Option.isSome_iff_exists.mp (AddProjectView.image_isSome_of_enabled creation.enabled)
  refine ⟨fun other member => traced.forms other (List.mem_of_mem_eraseIdx member),
    traced.objects, fun upload member => ?_, fun request member => ?_, traced.answers,
    traced.written⟩
  · rcases List.mem_append.mp member with earlier | started
    · exact traced.uploads upload earlier
    · rw [AddProjectView.uploads_handleDoneTapped picked issued, List.map_singleton] at started
      rw [List.mem_singleton.mp started]
      exact ⟨creation, listed, rfl, rfl⟩
  · rcases List.mem_append.mp member with earlier | asked
    · exact traced.requests request earlier
    · rw [AddProjectView.requests_handleDoneTapped issued, List.map_singleton] at asked
      rw [List.mem_singleton.mp asked]
      exact ⟨creation, listed, rfl, creation.identified⟩

/-- The image of a completed upload is traced to its creation. -/
theorem uploadCompleted (traced : state.Traced creations) {index : Nat}
    {upload : ImageUpload Image} (pending : state.uploads[index]? = some upload) :
    Traced creations
      { state with
        objects := Function.update state.objects upload.path (some upload.version)
        uploads := state.uploads.eraseIdx index } := by
  refine ⟨traced.forms, fun path version present => ?_,
    fun other member => traced.uploads other (List.mem_of_mem_eraseIdx member),
    traced.requests, traced.answers, traced.written⟩
  obtain ⟨creation, listed, samePath, owned⟩ :=
    traced.uploads upload (List.mem_of_getElem? pending)
  by_cases same : path = upload.path
  · subst same
    change Function.update state.objects upload.path _ upload.path = _ at present
    rw [Function.update_self] at present
    cases present
    exact ⟨creation, listed, samePath, owned⟩
  · change Function.update state.objects upload.path _ path = _ at present
    rw [Function.update_of_ne same] at present
    exact traced.objects path version present

/-- Where paths are apart, the object under a request's path is its own. -/
theorem serve (traced : state.Traced creations)
    (apart : ∀ one ∈ creations, ∀ other ∈ creations, one.path = other.path → one.id = other.id)
    {index : Nat} {request : ImageRequest} (pending : state.requests[index]? = some request) :
    (state.serve index request).Traced creations := by
  obtain ⟨asking, listed, askedPath, identified⟩ :=
    traced.requests request (List.mem_of_getElem? pending)
  unfold ImageStore.serve
  cases present : state.objects request.path with
  | none => exact traced
  | some version =>
      obtain ⟨storing, stored, storedPath, owned⟩ := traced.objects request.path version present
      have same := apart asking listed storing stored (askedPath.symm.trans storedPath)
      refine ⟨traced.forms, traced.objects, traced.uploads,
        fun other member => traced.requests other (List.mem_of_mem_eraseIdx member),
        fun answer member => ?_, traced.written⟩
      rcases List.mem_append.mp member with earlier | served
      · exact traced.answers answer earlier
      · rw [List.mem_singleton.mp served]
        exact identified.trans (congrArg some (same.trans owned.symm))

/-- One event keeps every picture traced to a creation with its path. -/
theorem step (traced : state.Traced creations)
    (apart : ∀ one ∈ creations, ∀ other ∈ creations, one.path = other.path → one.id = other.id)
    {event : ImageEvent} (stepped : state.step lowercased url event = some next) :
    next.Traced creations := by
  cases event with
  | handleDoneTapped index =>
      obtain ⟨creation, opened, mapped⟩ := Option.bind_eq_some_iff.mp stepped
      obtain ⟨effects, issued, rfl⟩ := Option.map_eq_some_iff.mp mapped
      exact traced.handleDoneTapped opened issued
  | uploadCompleted index =>
      obtain ⟨upload, pending, rfl⟩ := Option.map_eq_some_iff.mp stepped
      exact traced.uploadCompleted pending
  | uploadFailed index =>
      obtain ⟨upload, _, rfl⟩ := Option.map_eq_some_iff.mp stepped
      exact ⟨traced.forms, traced.objects,
        fun other member => traced.uploads other (List.mem_of_mem_eraseIdx member),
        traced.requests, traced.answers, traced.written⟩
  | downloadURL index =>
      obtain ⟨request, pending, rfl⟩ := Option.map_eq_some_iff.mp stepped
      exact traced.serve apart pending
  | urlCallback index =>
      obtain ⟨answer, pending, mapped⟩ := Option.bind_eq_some_iff.mp stepped
      obtain ⟨request, issued, rfl⟩ := Option.map_eq_some_iff.mp mapped
      obtain ⟨id, identified, rfl⟩ := Option.map_eq_some_iff.mp issued
      refine ⟨traced.forms, traced.objects, traced.uploads, traced.requests,
        fun other member => traced.answers other (List.mem_of_mem_eraseIdx member),
        fun picture member => ?_⟩
      rcases List.mem_append.mp member with earlier | current
      · exact traced.written picture earlier
      · rw [List.mem_singleton.mp current]
        have own := traced.answers answer (List.mem_of_getElem? pending)
        exact ⟨rfl, Option.some.inj (own.symm.trans identified)⟩

end ImageStore.Traced

/-- Creations with pairwise distinct paths have their own pictures in every run. -/
theorem ownPictures_of_nodup {lowercased : String → String} {url : ImageVersion Image → String}
    {creations : List (Creation Image)} (distinct : (creations.map Creation.path).Nodup) :
    OwnPictures lowercased url creations := by
  intro events final ran
  have start : (ImageStore.launch creations).Traced creations :=
    ⟨fun _ member => member, nofun, nofun, nofun, nofun, nofun⟩
  have apart : ∀ one ∈ creations, ∀ other ∈ creations, one.path = other.path → one.id = other.id :=
    fun one listed other member same =>
      congrArg Creation.id (List.inj_on_of_nodup_map distinct listed member same)
  have traced : final.Traced creations :=
    Machine.invariant_of_run (fun traced stepped => traced.step apart stepped) start ran
  exact traced.written

/-- Distinct names without slashes are enough. -/
theorem ownPictures_of_no_slash {lowercased : String → String}
    {url : ImageVersion Image → String} {creations : List (Creation Image)}
    (plain : ∀ creation ∈ creations, '/' ∉ creation.view.project.name.toList)
    (names : (creations.map fun creation => creation.view.project.name).Nodup) :
    OwnPictures lowercased url creations := by
  refine ownPictures_of_nodup (names.of_map _ |>.map_on fun one listed other member same => ?_)
  have sameName := (objectPath_inj_of_no_slash (plain one listed) (plain other member)).mp same
  exact List.inj_on_of_nodup_map names listed member sameName

/-- What an enabled Done adds to what is under way. -/
theorem ImageStore.step_handleDoneTapped (lowercased : String → String)
    (url : ImageVersion Image → String) (state : ImageStore Image) {index : Nat}
    {creation : Creation Image} (opened : state.forms[index]? = some creation) :
    ∃ image, state.step lowercased url (.handleDoneTapped index) =
      some { state with
        forms := state.forms.eraseIdx index
        uploads := state.uploads ++ [⟨creation.path, ⟨creation.id, image⟩⟩]
        requests := state.requests ++
          [⟨creation.path, creation.view.setInterests.project⟩] } := by
  obtain ⟨image, effects, picked, issued⟩ := creation.issues lowercased
  refine ⟨image, ?_⟩
  simp only [step, opened, Option.bind_some, issued, Option.map_some, perform,
    AddProjectView.uploads_handleDoneTapped picked issued,
    AddProjectView.requests_handleDoneTapped issued, List.map_singleton]
  rfl

/-- Two Dones are under way with one path: when the upload of one completes first, the
request of the other is served with its URL. -/
theorem ImageStore.run_crossed (lowercased : String → String) (url : ImageVersion Image → String)
    (state : ImageStore Image) {path id : String} {uploaded other : ImageVersion Image}
    {one asking : Project} (identified : asking.id = some id)
    (uploads : state.uploads = [⟨path, uploaded⟩, ⟨path, other⟩])
    (requests : state.requests = [⟨path, one⟩, ⟨path, asking⟩]) (answers : state.answers = []) :
    ∃ final, ∃ picture ∈ final.written,
      (imageMachine lowercased url).run state
        [.uploadCompleted 0, .downloadURL 1, .urlCallback 0] = some final ∧
      picture.request.document = id ∧ picture.version = uploaded := by
  let stored : ImageStore Image :=
    { state with
      objects := Function.update state.objects path (some uploaded)
      uploads := [⟨path, other⟩] }
  have storing : state.step lowercased url (.uploadCompleted 0) = some stored := by
    simp only [step, uploads, List.getElem?_cons_zero, Option.map_some, List.eraseIdx_cons_zero]
    rfl
  let served : ImageStore Image :=
    { stored with requests := [⟨path, one⟩], answers := [⟨asking, uploaded⟩] }
  have serving : stored.step lowercased url (.downloadURL 1) = some served := by
    have present : stored.objects path = some uploaded :=
      Function.update_self path (some uploaded) state.objects
    have asked : stored.requests = [⟨path, one⟩, ⟨path, asking⟩] := requests
    have unanswered : stored.answers = [] := answers
    simp only [step, asked, List.getElem?_cons_succ, List.getElem?_cons_zero, Option.map_some,
      serve, present, unanswered]
    rfl
  let request : Write :=
    ⟨.projects, id, .updateData "picture" (.value (.string (url uploaded)))⟩
  have issued : ProjectViewModel.updatePicture asking (url uploaded) = some request :=
    congrArg (Option.map _) identified
  let final : ImageStore Image :=
    { served with answers := [], written := state.written ++ [⟨request, uploaded⟩] }
  have calling : served.step lowercased url (.urlCallback 0) = some final :=
    congrArg (Option.map _) issued
  refine ⟨final, ⟨request, uploaded⟩, List.mem_append_right _ (List.mem_singleton_self _), ?_,
    rfl, rfl⟩
  rw [Machine.run_cons_of_step storing, Machine.run_cons_of_step serving,
    Machine.run_cons_of_step calling, Machine.run_nil]

/-- Two creations with one path can get the same image. -/
theorem exists_foreign_picture (lowercased : String → String) (url : ImageVersion Image → String)
    {creations : List (Creation Image)} {i j : Nat} {first second : Creation Image}
    (before : i < j) (one : creations[i]? = some first) (other : creations[j]? = some second)
    (same : first.path = second.path) :
    ∃ events final, ∃ picture ∈ final.written,
      (imageMachine lowercased url).run (.launch creations) events = some final ∧
      picture.request.document = first.id ∧ picture.version.owner = second.id := by
  obtain ⟨secondImage, secondStep⟩ :=
    (ImageStore.launch creations).step_handleDoneTapped lowercased url other
  let middle : ImageStore Image :=
    ⟨creations.eraseIdx j, fun _ => none, [⟨second.path, ⟨second.id, secondImage⟩⟩],
      [⟨second.path, second.view.setInterests.project⟩], [], []⟩
  have stillOpen : middle.forms[i]? = some first :=
    (List.getElem?_eraseIdx_of_lt before).trans one
  obtain ⟨firstImage, firstStep⟩ := middle.step_handleDoneTapped lowercased url stillOpen
  let crossed : ImageStore Image :=
    { middle with
      forms := middle.forms.eraseIdx i
      uploads := middle.uploads ++ [⟨first.path, ⟨first.id, firstImage⟩⟩]
      requests := middle.requests ++ [⟨first.path, first.view.setInterests.project⟩] }
  have uploads : crossed.uploads = [⟨second.path, ⟨second.id, secondImage⟩⟩,
      ⟨second.path, ⟨first.id, firstImage⟩⟩] :=
    congrArg (fun path => middle.uploads ++
      [(⟨path, ⟨first.id, firstImage⟩⟩ : ImageUpload Image)]) same
  have requests : crossed.requests = [⟨second.path, second.view.setInterests.project⟩,
      ⟨second.path, first.view.setInterests.project⟩] :=
    congrArg (fun path => middle.requests ++
      [(⟨path, first.view.setInterests.project⟩ : ImageRequest)]) same
  have identified : first.view.setInterests.project.id = some first.id := first.identified
  obtain ⟨final, picture, member, ran, document, version⟩ :=
    crossed.run_crossed lowercased url identified uploads requests rfl
  refine ⟨.handleDoneTapped j :: .handleDoneTapped i ::
    [.uploadCompleted 0, .downloadURL 1, .urlCallback 0], final, picture, member, ?_, document,
    congrArg ImageVersion.owner version⟩
  rw [Machine.run_cons_of_step secondStep, Machine.run_cons_of_step firstStep]
  exact ran

/-- **Whose picture a project gets.** For any creations under distinct identifiers, every
picture written in any run denotes the image of the same project's Done if and only if
the standardized paths of the creations are pairwise distinct. -/
theorem own_pictures_iff (lowercased : String → String) (url : ImageVersion Image → String)
    (creations : List (Creation Image)) (ids : (creations.map Creation.id).Nodup) :
    OwnPictures lowercased url creations ↔ (creations.map Creation.path).Nodup := by
  refine ⟨fun own => ?_, ownPictures_of_nodup⟩
  refine List.pairwise_iff_getElem.mpr fun i j iBound jBound before same => ?_
  rw [List.getElem_map, List.getElem_map] at same
  rw [List.length_map] at iBound jBound
  obtain ⟨events, final, picture, member, ran, document, owner⟩ := exists_foreign_picture
    lowercased url before (List.getElem?_eq_getElem iBound) (List.getElem?_eq_getElem jBound) same
  have sameID := (own events final ran picture member).2
  rw [document, owner] at sameID
  have apart := List.pairwise_iff_getElem.mp ids i j (by rwa [List.length_map])
    (by rwa [List.length_map]) before
  rw [List.getElem_map, List.getElem_map] at apart
  exact apart sameID.symm

/-- An enabled form for the project `name`. -/
def enabledCreation (id name : String)
    (enabled : (AddProjectView.fill id [] []
      ⟨name, "reef.org", "Corals", ["Biology"], [], some 7⟩ : AddProjectView Nat).doneDisabled =
        false) : Creation Nat where
  view := .fill id [] [] ⟨name, "reef.org", "Corals", ["Biology"], [], some 7⟩
  id := id
  identified := rfl
  enabled := enabled

/-- Names whose paths differ keep the pictures apart. -/
theorem own_pictures_twoNames :
    OwnPictures asciiLowercased (fun _ => "url")
      [enabledCreation "d-1" "Reef" rfl, enabledCreation "d-2" "Reef/Fish" rfl] :=
  (own_pictures_iff asciiLowercased _ _ (by decide)).mpr (by decide)

/-- Two names that differ in a repeated slash only. -/
def slashedCreations : List (Creation Nat) :=
  [enabledCreation "d-1" "Reef/Fish" rfl, enabledCreation "d-2" "Reef//Fish" rfl]

/-- Two different names whose paths are the same share one picture. -/
theorem not_ownPictures_slashes :
    (slashedCreations.map fun creation => creation.view.project.name).Nodup ∧
      ¬ OwnPictures asciiLowercased (fun _ => "url") slashedCreations := by
  refine ⟨by decide, fun own => ?_⟩
  have one : slashedCreations[0]? = some (enabledCreation "d-1" "Reef/Fish" rfl) := rfl
  have other : slashedCreations[1]? = some (enabledCreation "d-2" "Reef//Fish" rfl) := rfl
  obtain ⟨events, final, picture, member, ran, document, owner⟩ := exists_foreign_picture
    asciiLowercased (fun _ => "url") Nat.zero_lt_one one other (by decide)
  have same := (own events final ran picture member).2
  rw [document, owner] at same
  exact absurd same (by decide)

end Bowfolio
