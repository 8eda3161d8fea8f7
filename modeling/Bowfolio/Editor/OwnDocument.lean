import Bowfolio.Swift.Text
import Bowfolio.View.Home

/-!
# Whose profile a Done writes

The editor edits the profile that `HomeView` holds, and the flag that asks for the
editor is reset by the editor's own buttons only. A Done writes the document of the
signed-in account in every run in which My Profile finds a profile of the account and
nobody signs in over another account's pending editor (`writes_own_document`). In
other runs it overwrites another account's profile (`writes_foreign_document`).
-/

namespace Bowfolio

variable {Image : Type} (lowercased : String → String)

/-- The request writes the profile document of the account, ignoring case. -/
def DoneWrite.OwnDocument (write : DoneWrite) : Prop :=
  write.request.collection = .profiles ∧
    lowercased write.request.document = lowercased write.account

/-- The held profile is that of whoever is signed in. -/
def HomeView.HoldsOwnProfile (state : HomeView Image) : Prop :=
  ∀ account ∈ state.currentUser, lowercased state.profile.email = lowercased account

/-- What keeps the editor on the account's own profile: My Profile is tapped only when
a loaded profile matches the account or the held one does, and an account signs in
only when no editor is asked for or the held profile is its own. -/
def KeepsOwner (state : HomeView Image) : HomeEvent Image → Prop
  | .tapMyProfile =>
      (∃ profile ∈ state.profiles, some (lowercased profile.email) = state.currentUser) ∨
        state.HoldsOwnProfile lowercased
  | .signIn email =>
      state.showEditProfile = true → lowercased state.profile.email = lowercased email
  | _ => True

instance (state : HomeView Image) : Decidable (state.HoldsOwnProfile lowercased) :=
  inferInstanceAs (Decidable (∀ account ∈ state.currentUser, _))

instance (state : HomeView Image) :
    (event : HomeEvent Image) → Decidable (KeepsOwner lowercased state event)
  | .tapMyProfile => inferInstanceAs (Decidable (_ ∨ _))
  | .signIn _ => inferInstanceAs (Decidable (_ → _))
  | .signOut | .snapshot .. | .toggleMenu | .tapAddProject | .present _ | .edit _
  | .loadImage _ | .handleCancelTapped | .handleDoneTapped | .closeAddProject | .swipeDown
  | .uploadCompleted _ | .uploadFailed _ => inferInstanceAs (Decidable True)

instance (write : DoneWrite) : Decidable (write.OwnDocument lowercased) :=
  inferInstanceAs (Decidable (_ ∧ _))

/-- Everything that is edited or in flight belongs to its account. -/
structure HomeView.Sound (state : HomeView Image) : Prop where
  account : ∀ account ∈ state.currentUser, lowercased account = account
  held : state.showEditProfile = true → state.HoldsOwnProfile lowercased
  editor : ∀ sheet ∈ state.sheet, ∀ view ∈ sheet.editProfile,
    state.showEditProfile = true ∧ view.profile.email = state.profile.email
  uploads : ∀ pending ∈ state.uploads,
    lowercased pending.upload.view.profile.email = lowercased pending.account
  writes : ∀ write ∈ state.writes, write.OwnDocument lowercased

namespace HomeView

variable {lowercased} {state : HomeView Image}

theorem sound_launch (uuid : String) : (launch uuid : HomeView Image).Sound lowercased where
  account := nofun
  held := nofun
  editor := nofun
  uploads := nofun
  writes := nofun

/-- The open editor is that of the presented sheet. -/
theorem editor_eq_some {sheet : Sheet Image} {view : EditProfileView Image}
    (open_ : state.editor = some (sheet, view)) :
    state.sheet = some sheet ∧ sheet.editProfile = some view := by
  obtain ⟨presented, present, mapped⟩ := Option.bind_eq_some_iff.mp open_
  obtain ⟨shown, held, same⟩ := Option.map_eq_some_iff.mp mapped
  cases same
  exact ⟨present, held⟩

/-- A matching loaded profile is found, and the fallback is the held one. -/
theorem getUserProfile_own {account : String} (lower : lowercased account = account)
    (signedIn : state.currentUser = some account)
    (keeps : KeepsOwner lowercased state (.tapMyProfile : HomeEvent Image)) :
    lowercased (state.getUserProfile lowercased).email = lowercased account := by
  by_cases matched :
      ∃ profile ∈ state.profiles, some (lowercased profile.email) = state.currentUser
  · have found := (getUserProfile_of_matched matched).2
    rw [signedIn] at found
    rw [Option.some.inj found, lower]
  · rw [getUserProfile_of_unmatched matched]
    exact keeps.resolve_left matched account signedIn

namespace Sound

/-- Signing in keeps the view sound when the editor asked for is of the account. -/
theorem signIn (sound : state.Sound lowercased) {email : String}
    (lower : lowercased email = email)
    (keeps : KeepsOwner lowercased state (.signIn email : HomeEvent Image)) :
    Sound lowercased { state with currentUser := some email } where
  account := by
    rintro _ ⟨⟩
    exact lower
  held := by
    rintro flag _ ⟨⟩
    exact keeps flag
  editor := sound.editor
  uploads := sound.uploads
  writes := sound.writes

/-- Opening the own profile keeps the view sound. -/
theorem tapMyProfile (sound : state.Sound lowercased) (closed : state.sheet = none)
    (keeps : KeepsOwner lowercased state (.tapMyProfile : HomeEvent Image)) :
    (state.tapMyProfile lowercased).Sound lowercased where
  account := sound.account
  held := fun _ account signedIn =>
    getUserProfile_own (sound.account account signedIn) signedIn keeps
  editor := fun _ present => absurd (closed.symm.trans present) nofun
  uploads := sound.uploads
  writes := sound.writes

/-- Presenting the content of a host keeps the view sound. -/
theorem present (sound : state.Sound lowercased) (host : SheetHost)
    (flag : state.isPresented host = true) :
    Sound lowercased { state with sheet := some (state.content host) } where
  account := sound.account
  held := sound.held
  editor := by
    rintro _ ⟨⟩ view shown
    cases host with
    | showEditProfile =>
        cases shown
        exact ⟨flag, rfl⟩
    | showSheet =>
        obtain ⟨asked, same⟩ := Option.ite_none_right_eq_some.mp shown
        cases same
        exact ⟨asked, rfl⟩
  uploads := sound.uploads
  writes := sound.writes

/-- Closing a sheet, with or without the editor's flag. -/
theorem close (sound : state.Sound lowercased) {next : HomeView Image}
    (closed : next.sheet = none)
    (flag : next.showEditProfile = true → state.showEditProfile = true)
    (user : next.currentUser = state.currentUser ∨ next.currentUser = none)
    (profile : next.profile = state.profile) (uploads : next.uploads = state.uploads)
    (writes : next.writes = state.writes) : next.Sound lowercased where
  account := by
    rcases user with same | out
    · rw [same]; exact sound.account
    · rw [out]; exact nofun
  held := by
    intro set account signedIn
    rcases user with same | out
    · rw [profile]; exact sound.held (flag set) account (same ▸ signedIn)
    · exact absurd (out.symm.trans signedIn) nofun
  editor := fun _ present => absurd (closed.symm.trans present) nofun
  uploads := uploads ▸ sound.uploads
  writes := writes ▸ sound.writes

theorem closeSheet (sound : state.Sound lowercased) (host : SheetHost) :
    (state.closeSheet host).Sound lowercased := by
  cases host with
  | showEditProfile => exact sound.close rfl (fun flag => nomatch flag) (.inl rfl) rfl rfl rfl
  | showSheet => exact sound.close rfl id (.inl rfl) rfl rfl rfl

theorem dismissEditProfile (sound : state.Sound lowercased) (host : SheetHost) :
    (state.dismissEditProfile host).Sound lowercased := by
  cases host <;> exact sound.close rfl (fun flag => nomatch flag) (.inl rfl) rfl rfl rfl

theorem dismissAddProject (sound : state.Sound lowercased) (host : SheetHost) :
    (state.dismissAddProject host).Sound lowercased := by
  cases host with
  | showEditProfile => exact sound.close rfl (fun flag => nomatch flag) (.inl rfl) rfl rfl rfl
  | showSheet => exact sound.close rfl id (.inl rfl) rfl rfl rfl

/-- Requests about a profile of the account keep every entry with its account. -/
theorem issue (sound : state.Sound lowercased) {account : String} {profile : Profile}
    {effects : List (ProfileEffect Image)}
    (own : lowercased profile.email = lowercased account)
    (uploads : ∀ upload ∈ ProfileEffect.uploads effects, upload.view.profile = profile)
    (writes : ProfileEffect.writes effects = [ProfilesViewModel.updateProfile profile]) :
    (state.issue account effects).Sound lowercased where
  account := sound.account
  held := sound.held
  editor := sound.editor
  uploads := by
    intro pending member
    rcases List.mem_append.mp member with earlier | started
    · exact sound.uploads pending earlier
    · obtain ⟨upload, issued, rfl⟩ := List.mem_map.mp started
      rw [uploads upload issued]
      exact own
  writes := by
    intro write member
    rcases List.mem_append.mp member with earlier | requested
    · exact sound.writes write earlier
    · rw [writes, List.map_singleton, List.mem_singleton] at requested
      subst requested
      exact ⟨rfl, own⟩

/-- An upload ends. -/
theorem eraseUpload (sound : state.Sound lowercased) (index : Nat) :
    Sound lowercased { state with uploads := state.uploads.eraseIdx index } where
  account := sound.account
  held := sound.held
  editor := sound.editor
  uploads := fun pending member => sound.uploads pending (List.mem_of_mem_eraseIdx member)
  writes := sound.writes

/-- A change of the form leaves the email. -/
theorem editView (sound : state.Sound lowercased) {sheet : Sheet Image}
    {view changed : EditProfileView Image} (shown : state.editor = some (sheet, view))
    (email : changed.profile.email = view.profile.email) :
    Sound lowercased
      { state with sheet := some { sheet with editProfile := some changed } } where
  account := sound.account
  held := sound.held
  editor := by
    rintro _ ⟨⟩ _ ⟨⟩
    obtain ⟨present, held⟩ := editor_eq_some shown
    obtain ⟨flag, same⟩ := sound.editor sheet present view held
    exact ⟨flag, email.trans same⟩
  uploads := sound.uploads
  writes := sound.writes

/-- One event keeps everything with its account. -/
theorem step (sound : state.Sound lowercased) {event : HomeEvent Image} {next : HomeView Image}
    (stepped : state.step lowercased event = some next)
    (keeps : KeepsOwner lowercased state event) : next.Sound lowercased := by
  cases event with
  | signIn email =>
      obtain ⟨lower, same⟩ := Option.ite_none_right_eq_some.mp stepped
      cases same
      exact sound.signIn lower keeps
  | signOut =>
      cases stepped
      exact sound.close rfl id (.inr rfl) rfl rfl rfl
  | snapshot uuids documents =>
      cases stepped
      exact ⟨sound.account, sound.held, sound.editor, sound.uploads, sound.writes⟩
  | toggleMenu =>
      obtain ⟨_, same⟩ := Option.ite_none_right_eq_some.mp stepped
      cases same
      exact ⟨sound.account, sound.held, sound.editor, sound.uploads, sound.writes⟩
  | tapMyProfile =>
      obtain ⟨⟨uncovered, _⟩, same⟩ := Option.ite_none_right_eq_some.mp stepped
      cases same
      exact sound.tapMyProfile (Option.isNone_iff_eq_none.mp uncovered.2) keeps
  | tapAddProject =>
      obtain ⟨_, same⟩ := Option.ite_none_right_eq_some.mp stepped
      cases same
      exact ⟨sound.account, sound.held, sound.editor, sound.uploads, sound.writes⟩
  | present host =>
      obtain ⟨⟨_, flag⟩, same⟩ := Option.ite_none_right_eq_some.mp stepped
      cases same
      exact sound.present host flag
  | edit change =>
      obtain ⟨⟨sheet, view⟩, shown, same⟩ := Option.map_eq_some_iff.mp stepped
      cases same
      exact sound.editView shown (view.edit_frame change).1
  | loadImage inputImage =>
      obtain ⟨⟨sheet, view⟩, shown, same⟩ := Option.map_eq_some_iff.mp stepped
      cases same
      exact sound.editView shown rfl
  | handleCancelTapped =>
      obtain ⟨⟨sheet, view⟩, _, same⟩ := Option.map_eq_some_iff.mp stepped
      cases same
      exact sound.dismissEditProfile sheet.host
  | handleDoneTapped =>
      obtain ⟨account, signedIn, mapped⟩ := Option.bind_eq_some_iff.mp stepped
      obtain ⟨⟨sheet, view⟩, shown, same⟩ := Option.map_eq_some_iff.mp mapped
      cases same
      obtain ⟨present, held⟩ := editor_eq_some shown
      obtain ⟨flag, email⟩ := sound.editor sheet present view held
      have own : lowercased view.profile.email = lowercased account :=
        email ▸ sound.held flag account signedIn
      have issued : (state.issue account (view.handleDoneTapped lowercased)).Sound lowercased := by
        refine sound.issue own (fun started member => ?_) view.writes_handleDoneTapped
        rw [view.uploads_handleDoneTapped] at member
        obtain ⟨_, _, rfl⟩ := List.mem_map.mp member
        rfl
      exact issued.dismissEditProfile sheet.host
  | closeAddProject =>
      obtain ⟨sheet, _, same⟩ := Option.map_eq_some_iff.mp stepped
      cases same
      exact sound.dismissAddProject sheet.host
  | swipeDown =>
      obtain ⟨sheet, _, same⟩ := Option.map_eq_some_iff.mp stepped
      cases same
      exact sound.closeSheet sheet.host
  | uploadCompleted index =>
      obtain ⟨pending, found, same⟩ := Option.map_eq_some_iff.mp stepped
      cases same
      exact (sound.eraseUpload index).issue (sound.uploads pending (List.mem_of_getElem? found))
        nofun pending.upload.view.writes_uploadCompleted
  | uploadFailed index =>
      obtain ⟨_, _, same⟩ := Option.map_eq_some_iff.mp stepped
      cases same
      exact sound.eraseUpload index

end Sound

end HomeView

/-- **Done writes the account's own document.** In every run from launch whose steps
keep the owner, everything that a Done or the upload it starts writes through
`updateProfile` goes to the profile document of the account signed in at that Done. -/
theorem writes_own_document (lowercased : String → String) (uuid : String)
    (events : List (HomeEvent Image)) (final : HomeView Image)
    (keeps : (homeMachine lowercased).Along
      (fun state event _ => KeepsOwner lowercased state event) (.launch uuid) events)
    (ran : (homeMachine lowercased).run (.launch uuid) events = some final) :
    ∀ write ∈ final.writes, write.OwnDocument lowercased :=
  (Machine.invariant_of_along (fun sound stepped guard => sound.step stepped guard)
    (HomeView.sound_launch uuid) keeps ran).writes

/-- A profile as the snapshot lists it; Auth reports the email in lower case. -/
def annProfile : Profile :=
  ⟨some "i-1", "Ann", "Lee", "Ann@uni.edu", "Corals", "Dr.", ["Reef"], ["Biology"], ""⟩

/-- Ann edits her profile, picks a picture and signs out before the upload ends. -/
def annEvents : List (HomeEvent Nat) :=
  [.signIn "ann@uni.edu", .snapshot (fun _ => "i-1") [("Ann@uni.edu", annProfile.encode)],
    .toggleMenu, .tapMyProfile, .present .showSheet, .edit (.title "Prof."), .loadImage 7,
    .handleDoneTapped, .toggleMenu, .signOut, .uploadCompleted 0]

/-- Both writes of Ann go to her own document. -/
theorem writes_own_document_annEvents :
    ∃ final, (homeMachine asciiLowercased).run (.launch "i-0") annEvents = some final ∧
      final.writes.length = 2 ∧ ∀ write ∈ final.writes, write.OwnDocument asciiLowercased :=
  ⟨_, rfl, rfl, writes_own_document asciiLowercased "i-0" annEvents _ (by decide) rfl⟩

/-- After Ann, Bob signs in on the same device while the snapshot does not list his
profile: My Profile falls back on the profile that Ann's tap left. -/
def bobEvents : List (HomeEvent Nat) :=
  [.signIn "ann@uni.edu", .snapshot (fun _ => "i-1") [("Ann@uni.edu", annProfile.encode)],
    .toggleMenu, .tapMyProfile, .present .showSheet, .handleCancelTapped, .toggleMenu, .signOut,
    .signIn "bob@uni.edu", .tapMyProfile, .present .showSheet, .edit (.firstName "Bob"),
    .handleDoneTapped]

/-- A write of the run goes to the document of another account. -/
theorem writes_foreign_document :
    ∃ final, (homeMachine asciiLowercased).run (.launch "i-0") bobEvents = some final ∧
      ¬ ∀ write ∈ final.writes, write.OwnDocument asciiLowercased :=
  ⟨_, rfl, by decide⟩

end Bowfolio
