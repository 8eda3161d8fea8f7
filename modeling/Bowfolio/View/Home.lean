import Bowfolio.Foundation.Machine
import Bowfolio.View.EditProfile

/-!
# The home view

`HomeView` keeps the profile of the last tap on My Profile in a variable of its own,
which survives sign-out and is the fallback when no loaded profile matches the
account. Two sheet modifiers open the editor over that variable; the flags they are
bound to outlive the account too.
-/

namespace Bowfolio

variable {Image : Type}

/-- The state that presents a sheet: `HomeView` has one sheet bound to
`showEditProfile` and one bound to `showSheet`. -/
inductive SheetHost where
  | showEditProfile
  | showSheet
  deriving DecidableEq, Repr

/-- A presented sheet. The sheet of `showSheet` may hold both editors at once. -/
structure Sheet (Image : Type) where
  host : SheetHost
  editProfile : Option (EditProfileView Image)
  addProject : Bool
  deriving DecidableEq

/-- An image upload in flight, with the account whose Done started it. -/
structure PendingUpload (Image : Type) where
  upload : ProfileUpload Image
  account : String
  deriving DecidableEq

/-- A write request of `updateProfile`, with the account signed in at its Done. -/
structure DoneWrite where
  request : Write
  account : String

/-- The state of `HomeView`, of Auth, and of what the editors have issued. The
published session is present exactly while Auth has a current user. -/
structure HomeView (Image : Type) where
  isExpand : Bool
  showSheet : Bool
  showEditProfile : Bool
  showAddProject : Bool
  currentUser : Option String
  profiles : List Profile
  profile : Profile
  sheet : Option (Sheet Image)
  uploads : List (PendingUpload Image)
  writes : List DoneWrite

/-- What can happen to the home view. A snapshot carries the documents it lists and
the draws of `UUID()` made while decoding them. -/
inductive HomeEvent (Image : Type) where
  | signIn (email : String)
  | signOut
  | snapshot (uuids : Nat → String) (documents : List (String × Document))
  | toggleMenu
  | tapMyProfile
  | tapAddProject
  | present (host : SheetHost)
  | edit (change : ProfileEdit)
  | loadImage (inputImage : Image)
  | handleCancelTapped
  | handleDoneTapped
  | closeAddProject
  | swipeDown
  | uploadCompleted (index : Nat)
  | uploadFailed (index : Nat)

/-- The loop of `HomeView.getUserProfile`: the first loaded profile of the account, or
the held one. -/
def userProfile (lowercased : String → String) (profiles : List Profile)
    (currentUser : Option String) (held : Profile) : Profile :=
  (profiles.find? fun profile => some (lowercased profile.email) == currentUser).getD held

/-- The profile of the user is a loaded one or the one held before. -/
theorem userProfile_mem (lowercased : String → String) (profiles : List Profile)
    (currentUser : Option String) (held : Profile) :
    userProfile lowercased profiles currentUser held ∈ held :: profiles := by
  unfold userProfile
  cases found : profiles.find? fun profile => some (lowercased profile.email) == currentUser with
  | none => exact List.mem_cons_self
  | some profile => exact List.mem_cons_of_mem _ (List.mem_of_find?_eq_some found)

namespace HomeView

/-- The home view at launch; its profile is a placeholder. -/
def launch (uuid : String) : HomeView Image where
  isExpand := false
  showSheet := false
  showEditProfile := false
  showAddProject := false
  currentUser := none
  profiles := []
  profile := { ProfileViewModel.initialProfile uuid with email := "a" }
  sheet := none
  uploads := []
  writes := []

variable (lowercased : String → String) (state : HomeView Image)

def getUserProfile : Profile :=
  userProfile lowercased state.profiles state.currentUser state.profile

/-- The button My Profile. -/
def tapMyProfile : HomeView Image :=
  { state with
    showSheet := true
    showEditProfile := true
    isExpand := false
    profile := state.getUserProfile lowercased }

/-- The button Add Project. -/
def tapAddProject : HomeView Image :=
  { state with showSheet := true, showAddProject := true, isExpand := false }

/-- The flag a sheet is bound to. -/
def isPresented : SheetHost → Bool
  | .showEditProfile => state.showEditProfile
  | .showSheet => state.showSheet

/-- The sheet that a modifier builds when its flag is set. -/
def content : SheetHost → Sheet Image
  | .showEditProfile => ⟨.showEditProfile, some (.launch state.profile), false⟩
  | .showSheet =>
      ⟨.showSheet, if state.showEditProfile then some (.launch state.profile) else none,
        state.showAddProject⟩

/-- The presented sheet goes away and the flag it is bound to is reset. -/
def closeSheet : SheetHost → HomeView Image
  | .showEditProfile => { state with showEditProfile := false, sheet := none }
  | .showSheet => { state with showSheet := false, sheet := none }

/-- `EditProfileView.dismiss`. -/
def dismissEditProfile (host : SheetHost) : HomeView Image :=
  closeSheet { state with showEditProfile := false } host

/-- `AddProjectView.dismiss`. -/
def dismissAddProject (host : SheetHost) : HomeView Image :=
  closeSheet { state with showAddProject := false } host

/-- The requests of `EditProfileView` issued for an account. -/
def issue (account : String) (effects : List (ProfileEffect Image)) : HomeView Image :=
  { state with
    uploads := state.uploads ++
      (ProfileEffect.uploads effects).map fun upload => ⟨upload, account⟩
    writes := state.writes ++
      (ProfileEffect.writes effects).map fun request => ⟨request, account⟩ }

/-- The presented profile editor with its sheet. -/
def editor : Option (Sheet Image × EditProfileView Image) :=
  state.sheet.bind fun sheet => sheet.editProfile.map fun view => (sheet, view)

/-- The menu takes taps while someone is signed in and no sheet covers it. -/
def uncovered : Prop :=
  state.currentUser.isSome ∧ state.sheet.isNone

instance : Decidable state.uncovered := inferInstanceAs (Decidable (_ ∧ _))

/-- One event. Auth reports emails in lower case, and the buttons of the menu exist
while it is expanded. -/
def step : HomeEvent Image → Option (HomeView Image)
  | .signIn email =>
      if lowercased email = email then some { state with currentUser := some email } else none
  | .signOut => some { state with currentUser := none, sheet := none }
  | .snapshot uuids documents =>
      some { state with profiles := ProfilesViewModel.fetchData uuids documents }
  | .toggleMenu =>
      if state.uncovered then some { state with isExpand := !state.isExpand } else none
  | .tapMyProfile =>
      if state.uncovered ∧ state.isExpand then some (state.tapMyProfile lowercased) else none
  | .tapAddProject =>
      if state.uncovered ∧ state.isExpand then some state.tapAddProject else none
  | .present host =>
      if state.uncovered ∧ state.isPresented host then
        some { state with sheet := some (state.content host) }
      else none
  | .edit change =>
      state.editor.map fun (sheet, view) =>
        { state with sheet := some { sheet with editProfile := some (view.edit change) } }
  | .loadImage inputImage =>
      state.editor.map fun (sheet, view) =>
        { state with sheet := some { sheet with editProfile := some (view.loadImage inputImage) } }
  | .handleCancelTapped =>
      state.editor.map fun (sheet, _) => state.dismissEditProfile sheet.host
  | .handleDoneTapped =>
      state.currentUser.bind fun account =>
        state.editor.map fun (sheet, view) =>
          (state.issue account (view.handleDoneTapped lowercased)).dismissEditProfile sheet.host
  | .closeAddProject =>
      (state.sheet.filter fun sheet => sheet.addProject).map fun sheet =>
        state.dismissAddProject sheet.host
  | .swipeDown => state.sheet.map fun sheet => state.closeSheet sheet.host
  | .uploadCompleted index =>
      state.uploads[index]?.map fun pending =>
        { state with uploads := state.uploads.eraseIdx index }.issue pending.account
          (pending.upload.view.uploadCompleted lowercased)
  | .uploadFailed index =>
      state.uploads[index]?.map fun _ =>
        { state with uploads := state.uploads.eraseIdx index }

variable {lowercased} {state}

/-- A loaded profile of the account is found. -/
theorem getUserProfile_of_matched
    (matched : ∃ profile ∈ state.profiles, some (lowercased profile.email) = state.currentUser) :
    state.getUserProfile lowercased ∈ state.profiles ∧
      some (lowercased (state.getUserProfile lowercased).email) = state.currentUser := by
  unfold getUserProfile userProfile
  cases found : state.profiles.find?
      fun profile => some (lowercased profile.email) == state.currentUser with
  | none =>
      obtain ⟨profile, member, same⟩ := matched
      exact absurd (beq_iff_eq.mpr same) (List.find?_eq_none.mp found profile member)
  | some profile =>
      have accepted := List.find?_some found
      exact ⟨List.mem_of_find?_eq_some found, beq_iff_eq.mp accepted⟩

/-- Without one, the held profile is taken. -/
theorem getUserProfile_of_unmatched
    (unmatched : ¬ ∃ profile ∈ state.profiles,
      some (lowercased profile.email) = state.currentUser) :
    state.getUserProfile lowercased = state.profile := by
  unfold getUserProfile userProfile
  rw [List.find?_eq_none.mpr fun profile member same =>
    unmatched ⟨profile, member, beq_iff_eq.mp same⟩, Option.getD_none]

end HomeView

/-- The home view as a machine. -/
def homeMachine (lowercased : String → String) : Machine (HomeView Image) (HomeEvent Image) where
  step := HomeView.step lowercased

end Bowfolio
