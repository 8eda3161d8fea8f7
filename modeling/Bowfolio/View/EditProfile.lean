import Bowfolio.ViewModel.Writes

/-!
# The profile editor

`EditProfileView` edits its own copy of a profile. Done writes the whole copy; when
an image was picked it also starts an upload whose completion writes the captured
copy a second time and then asks for the download URL, whose callback writes the
picture.
-/

namespace Bowfolio

variable {Image : Type}

/-- The state of `EditProfileView` that its handlers read. -/
structure EditProfileView (Image : Type) where
  profile : Profile
  image : Option Image
  isLoadImage : Bool
  deriving DecidableEq

/-- An image upload, with the view that its completion captures. -/
structure ProfileUpload (Image : Type) where
  path : String
  image : Image
  view : EditProfileView Image
  deriving DecidableEq

/-- A download-URL request, with the profile that its callback updates. -/
structure PictureRequest where
  path : String
  profile : Profile
  deriving DecidableEq

/-- A request of the editor to Firebase. -/
inductive ProfileEffect (Image : Type) where
  | write (request : Write)
  | putData (upload : ProfileUpload Image)
  | downloadURL (request : PictureRequest)

namespace ProfileEffect

/-- The document writes among the requests, in order. -/
def writes (effects : List (ProfileEffect Image)) : List Write :=
  effects.filterMap fun
    | .write request => some request
    | _ => none

def uploads (effects : List (ProfileEffect Image)) : List (ProfileUpload Image) :=
  effects.filterMap fun
    | .putData upload => some upload
    | _ => none

def requests (effects : List (ProfileEffect Image)) : List PictureRequest :=
  effects.filterMap fun
    | .downloadURL request => some request
    | _ => none

end ProfileEffect

namespace ProfilesViewModel

variable (lowercased : String → String)

def loadImageFromStorage (profile : Profile) : ProfileEffect Image :=
  .downloadURL ⟨imagePath lowercased profile.email, profile⟩

def save (profile : Profile) (isUploadImage : Bool) : List (ProfileEffect Image) :=
  .write (updateProfile profile) ::
    if isUploadImage then [loadImageFromStorage lowercased profile] else []

end ProfilesViewModel

/-- One change of the form: a text field, or the array bound to a picker. The email
field is disabled. -/
inductive ProfileEdit where
  | firstName (text : String)
  | lastName (text : String)
  | title (text : String)
  | bio (text : String)
  | interests (selectedArray : List String)
  | projects (selectedArray : List String)
  deriving DecidableEq, Repr

namespace EditProfileView

/-- The editor that a sheet opens over a profile. -/
def launch (profile : Profile) : EditProfileView Image where
  profile := profile
  image := none
  isLoadImage := false

def edit (view : EditProfileView Image) : ProfileEdit → EditProfileView Image
  | .firstName text => { view with profile := { view.profile with firstName := text } }
  | .lastName text => { view with profile := { view.profile with lastName := text } }
  | .title text => { view with profile := { view.profile with title := text } }
  | .bio text => { view with profile := { view.profile with bio := text } }
  | .interests selectedArray =>
      { view with profile := { view.profile with interests := selectedArray } }
  | .projects selectedArray =>
      { view with profile := { view.profile with projects := selectedArray } }

/-- `loadImage` after the image picker. -/
def loadImage (view : EditProfileView Image) (inputImage : Image) : EditProfileView Image :=
  { view with image := some inputImage }

variable (lowercased : String → String)

def uploadPicureToStorage (view : EditProfileView Image) (inputImage : Image) :
    ProfileEffect Image :=
  .putData ⟨ProfilesViewModel.imagePath lowercased view.profile.email, inputImage, view⟩

def handleDoneTapped (view : EditProfileView Image) : List (ProfileEffect Image) :=
  (match view.image with
    | some inputImage => [uploadPicureToStorage lowercased view inputImage]
    | none => []) ++
  ProfilesViewModel.save lowercased view.profile view.isLoadImage

/-- The completion of a successful upload, run on the captured view. -/
def uploadCompleted (view : EditProfileView Image) : List (ProfileEffect Image) :=
  ProfilesViewModel.save lowercased view.profile true

variable {lowercased}

/-- Editing leaves the fields that the form cannot change. -/
theorem edit_frame (view : EditProfileView Image) (change : ProfileEdit) :
    (view.edit change).profile.email = view.profile.email ∧
      (view.edit change).profile.picture = view.profile.picture := by
  cases change <;> exact ⟨rfl, rfl⟩

/-- Done writes one document: the edited profile, under its own email. -/
theorem writes_handleDoneTapped (view : EditProfileView Image) :
    ProfileEffect.writes (view.handleDoneTapped lowercased) =
      [ProfilesViewModel.updateProfile view.profile] := by
  unfold handleDoneTapped ProfilesViewModel.save
  cases view.image <;> cases view.isLoadImage <;> rfl

/-- Done uploads the picked image, if any, on behalf of the view as it is. -/
theorem uploads_handleDoneTapped (view : EditProfileView Image) :
    ProfileEffect.uploads (view.handleDoneTapped lowercased) =
      view.image.toList.map fun image =>
        ⟨ProfilesViewModel.imagePath lowercased view.profile.email, image, view⟩ := by
  unfold handleDoneTapped ProfilesViewModel.save
  cases view.image <;> cases view.isLoadImage <;> rfl

/-- Done asks for no download URL itself while no upload of the view has completed. -/
theorem requests_handleDoneTapped (view : EditProfileView Image) (idle : view.isLoadImage = false) :
    ProfileEffect.requests (view.handleDoneTapped lowercased) = [] := by
  unfold handleDoneTapped ProfilesViewModel.save
  rw [idle]
  cases view.image <;> rfl

/-- Every download URL is requested for the profile that Done writes. -/
theorem mem_requests_handleDoneTapped (view : EditProfileView Image) {request : PictureRequest}
    (member : request ∈ ProfileEffect.requests (view.handleDoneTapped lowercased)) :
    request = ⟨ProfilesViewModel.imagePath lowercased view.profile.email, view.profile⟩ := by
  unfold handleDoneTapped ProfilesViewModel.save at member
  cases image : view.image <;> cases load : view.isLoadImage <;> rw [image, load] at member
  · exact absurd member List.not_mem_nil
  · exact List.mem_singleton.mp member
  · exact absurd member List.not_mem_nil
  · exact List.mem_singleton.mp member

/-- The completion of an upload writes the captured profile again. -/
theorem writes_uploadCompleted (view : EditProfileView Image) :
    ProfileEffect.writes (view.uploadCompleted lowercased) =
      [ProfilesViewModel.updateProfile view.profile] := rfl

end EditProfileView

end Bowfolio
