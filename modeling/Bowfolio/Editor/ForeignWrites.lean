import Bowfolio.View.EditProfile

/-!
# One edit session beside other writers

The session edits a copy of the profile while other clients add project names and
an earlier session's callback sets the picture. Done overlays the whole copy, with
its arrays as a whole, so it undoes the writes that came after the copy was taken.
The session loses nothing exactly when those writes left the document with what the
copy already says (`session_losesNothing_iff`).
-/

namespace Bowfolio

variable {Image : Type} {lowercased : String → String}

/-- What happens between the tap on My Profile and the tap on Done: changes of the
form and of the image, and writes of others to the same profile document. -/
inductive SessionEvent (Image : Type) where
  | edit (change : ProfileEdit)
  | loadImage (inputImage : Image)
  | addOneProject (projectName : String)
  | updatePicture (url : String)
  deriving DecidableEq, Repr

/-- The store and the open editor. -/
structure EditSession (Image : Type) where
  db : Database
  view : EditProfileView Image

namespace EditSession

/-- The session that My Profile opens over a profile. -/
def launch (db : Database) (profile : Profile) : EditSession Image :=
  ⟨db, .launch profile⟩

def handle (session : EditSession Image) : SessionEvent Image → EditSession Image
  | .edit change => { session with view := session.view.edit change }
  | .loadImage inputImage => { session with view := session.view.loadImage inputImage }
  | .addOneProject projectName =>
      ⟨session.db.commit (ProfilesViewModel.addOneProject projectName session.view.profile.email),
        session.view⟩
  | .updatePicture url =>
      ⟨session.db.commit (ProfilesViewModel.updatePicture session.view.profile url), session.view⟩

/-- The store after the write of Done. -/
def done (lowercased : String → String) (session : EditSession Image) : Database :=
  session.db.commitAll (ProfileEffect.writes (session.view.handleDoneTapped lowercased))

end EditSession

namespace SessionEvent

/-- What an event does to the stored profile. -/
def act (stored : Profile) : SessionEvent Image → Profile
  | .addOneProject projectName =>
      { stored with projects := arrayUnion stored.projects [projectName] }
  | .updatePicture url => { stored with picture := url }
  | _ => stored

/-- The project names that other clients add, in order. -/
def addedProjects (events : List (SessionEvent Image)) : List String :=
  events.filterMap fun
    | .addOneProject projectName => some projectName
    | _ => none

/-- The picture URLs that the earlier session's callbacks write, in order. -/
def writtenPictures (events : List (SessionEvent Image)) : List String :=
  events.filterMap fun
    | .updatePicture url => some url
    | _ => none

/-- The events of others add their projects to those of the document. -/
theorem foldl_act_projects (stored : Profile) (events : List (SessionEvent Image)) :
    (events.foldl act stored).projects = arrayUnion stored.projects (addedProjects events) := by
  induction events generalizing stored with
  | nil => rfl
  | cons event events ih =>
      rw [List.foldl_cons, ih]
      cases event <;> rfl

/-- The last picture that others wrote is left in the document. -/
theorem foldl_act_picture (stored : Profile) (events : List (SessionEvent Image)) :
    (events.foldl act stored).picture = (writtenPictures events).getLastD stored.picture := by
  induction events generalizing stored with
  | nil => rfl
  | cons event events ih =>
      rw [List.foldl_cons, ih]
      cases event with
      | updatePicture url => exact List.getLastD_cons.symm
      | _ => rfl

/-- Other writers change the project names and the picture only. -/
theorem foldl_act_encode {stored : Profile} {events : List (SessionEvent Image)} {key : String}
    (notProjects : key ≠ "projects") (notPicture : key ≠ "picture") :
    (events.foldl act stored).encode key = stored.encode key := by
  induction events generalizing stored with
  | nil => rfl
  | cons event events ih =>
      rw [List.foldl_cons, ih]
      cases event with
      | addOneProject projectName =>
          simp only [act, Profile.encode, Document.ofFields, List.lookup_cons,
            beq_false_of_ne notProjects]
      | updatePicture url =>
          simp only [act, Profile.encode, Document.ofFields, List.lookup_cons,
            beq_false_of_ne notPicture]
      | _ => rfl

end SessionEvent

/-- The profile document stores `stored`, and the editor still shows the email and the
picture of the copy it was opened over. -/
structure EditSession.Tracks (copied : Profile) (session : EditSession Image) (stored : Profile) :
    Prop where
  email : session.view.profile.email = copied.email
  picture : session.view.profile.picture = copied.picture
  stores : session.db.StoresProfile copied.email stored

/-- One event keeps the session tracked. -/
theorem EditSession.Tracks.handle {copied stored : Profile} {session : EditSession Image}
    (tracks : session.Tracks copied stored) (event : SessionEvent Image) :
    (session.handle event).Tracks copied (event.act stored) := by
  obtain ⟨email, picture, stores⟩ := tracks
  cases event with
  | edit change =>
      obtain ⟨sameEmail, samePicture⟩ := session.view.edit_frame change
      exact ⟨sameEmail.trans email, samePicture.trans picture, stores⟩
  | loadImage inputImage => exact ⟨email, picture, stores⟩
  | addOneProject projectName =>
      exact ⟨email, picture, email ▸ (email ▸ stores).addOneProject projectName⟩
  | updatePicture url => exact ⟨email, picture, stores.updatePicture email url⟩

/-- Any events keep the session tracked. -/
theorem EditSession.Tracks.foldl {copied stored : Profile} {session : EditSession Image}
    (tracks : session.Tracks copied stored) (events : List (SessionEvent Image)) :
    (events.foldl EditSession.handle session).Tracks copied
      (events.foldl SessionEvent.act stored) := by
  induction events generalizing session stored with
  | nil => exact tracks
  | cons event events ih => exact ih (tracks.handle event)

/-- What Done must leave as it is in the store: the fields that the user did not
change, where picking an image changes the picture, and the project names that the
user did not deselect. -/
structure LosesNothing (copied : Profile) (view : EditProfileView Image)
    (before after : Document) : Prop where
  fields : ∀ key ∈ Profile.codingKeys, view.profile.encode key = copied.encode key →
    ¬ (key = "picture" ∧ view.image.isSome) → after key = before key
  projects : ∀ name ∈ before.elements "projects",
    ¬ (name ∈ copied.projects ∧ name ∉ view.profile.projects) → name ∈ after.elements "projects"

/-- The writes of the others leave nothing that the copy does not have: every project
name added is one the copy holds or the user selected as well, and the last picture
written is the copied one, unless the user picked a new image. -/
structure CopyCovers (copied : Profile) (view : EditProfileView Image)
    (events : List (SessionEvent Image)) : Prop where
  projects : ∀ name ∈ SessionEvent.addedProjects events,
    name ∈ copied.projects ∨ name ∈ view.profile.projects
  picture : view.image.isSome ∨
    (SessionEvent.writtenPictures events).getLastD copied.picture = copied.picture

/-- Comparison of the two encodings that Done exchanges. -/
theorem losesNothing_iff_copyCovers {copied : Profile} {view : EditProfileView Image}
    {events : List (SessionEvent Image)} {before after : Document}
    (picture : view.profile.picture = copied.picture)
    (stored : (events.foldl SessionEvent.act copied).StoredIn before)
    (written : view.profile.StoredIn after) :
    LosesNothing copied view before after ↔ CopyCovers copied view events := by
  have beforeProjects := stored.elements_projects
  rw [SessionEvent.foldl_act_projects] at beforeProjects
  have afterProjects := written.elements_projects
  constructor
  · intro loses
    refine ⟨fun name added => ?_, ?_⟩
    · by_contra missing
      obtain ⟨notCopied, notSelected⟩ := not_or.mp missing
      have inStore : name ∈ before.elements "projects" := by
        rw [beforeProjects]
        exact mem_arrayUnion.mpr (.inr added)
      have kept := loses.projects name inStore fun deselected => notCopied deselected.1
      exact notSelected (afterProjects ▸ kept)
    · by_cases picked : view.image.isSome
      · exact .inl picked
      · right
        have unchanged : view.profile.encode "picture" = copied.encode "picture" := by
          rw [Profile.encode_picture, Profile.encode_picture, picture]
        have same := loses.fields "picture" (by decide) unchanged fun both => picked both.2
        rw [stored "picture" (by decide), written "picture" (by decide), unchanged,
          Profile.encode_picture, Profile.encode_picture, SessionEvent.foldl_act_picture] at same
        exact (FieldValue.string.inj (Option.some.inj same)).symm
  · intro covers
    refine ⟨fun key coded unchanged notPicked => ?_, fun name inStore notDeselected => ?_⟩
    · rw [stored key coded, written key coded, unchanged]
      by_cases isProjects : key = "projects"
      · subst isProjects
        rw [Profile.encode_projects, Profile.encode_projects] at unchanged
        have sameNames := FieldValue.array.inj (Option.some.inj unchanged)
        have held : ∀ name ∈ SessionEvent.addedProjects events, name ∈ copied.projects := by
          intro name added
          exact (covers.projects name added).elim id fun selected => sameNames ▸ selected
        rw [Profile.encode_projects, Profile.encode_projects, SessionEvent.foldl_act_projects,
          arrayUnion_of_subset held]
      · by_cases isPicture : key = "picture"
        · subst isPicture
          have last := covers.picture.resolve_left fun picked => notPicked ⟨rfl, picked⟩
          rw [Profile.encode_picture, Profile.encode_picture, SessionEvent.foldl_act_picture, last]
        · exact (SessionEvent.foldl_act_encode isProjects isPicture).symm
    · rw [beforeProjects] at inStore
      rw [afterProjects]
      by_contra notSelected
      rcases mem_arrayUnion.mp inStore with copiedName | added
      · exact notDeselected ⟨copiedName, notSelected⟩
      · rcases covers.projects name added with copiedName | selected
        · exact notDeselected ⟨copiedName, notSelected⟩
        · exact notSelected selected

/-- **What a session loses.** For every profile copied from its document and every
interleaving of form changes with writes of others to that document, the write of
Done loses nothing if and only if the copy covers those writes. -/
theorem session_losesNothing_iff (lowercased : String → String) (db : Database) (copied : Profile)
    (uuid : String) (doc : Document) (present : db.content .profiles copied.email = some doc)
    (decoded : Profile.decode uuid copied.email doc = .ok copied)
    (events : List (SessionEvent Image)) :
    ∃ before after,
      (events.foldl EditSession.handle (.launch db copied)).db.content .profiles copied.email =
        some before ∧
      ((events.foldl EditSession.handle (.launch db copied)).done lowercased).content
        .profiles copied.email = some after ∧
      (LosesNothing copied (events.foldl EditSession.handle (.launch db copied)).view before after ↔
        CopyCovers copied (events.foldl EditSession.handle (.launch db copied)).view events) := by
  have opened : (EditSession.launch db copied : EditSession Image).Tracks copied copied :=
    ⟨rfl, rfl, doc, present, (Profile.decode_eq_ok_iff.mp decoded).2⟩
  obtain ⟨email, picture, before, content, stored⟩ := opened.foldl events
  generalize events.foldl EditSession.handle (.launch db copied) = session at *
  refine ⟨before, before.overlay session.view.profile.encode, content, ?_, ?_⟩
  · rw [EditSession.done, EditProfileView.writes_handleDoneTapped]
    refine email ▸ session.db.content_commit_self
      (ProfilesViewModel.updateProfile session.view.profile) ?_
    rw [ProfilesViewModel.updateProfile, email, content, DocumentWrite.apply]
  · exact losesNothing_iff_copyCovers picture stored
      (session.view.profile.storedIn_overlay before)

/-- A profile as its document decodes. -/
def copiedProfile : Profile :=
  ⟨some "i-1", "Ann", "Lee", "ann@uni.edu", "Corals", "Dr.", ["Reef"], ["Biology"], "url-0"⟩

/-- The database that holds it. -/
def copiedDatabase : Database :=
  Database.empty.commit (ProfileViewModel.addProfile copiedProfile)

/-- The user selects a project that another client has added meanwhile. -/
def joinedEvents : List (SessionEvent Nat) :=
  [.addOneProject "Atoll", .edit (.projects ["Reef", "Atoll"])]

/-- The session up to Done. -/
def joinedSession : EditSession Nat :=
  joinedEvents.foldl EditSession.handle (.launch copiedDatabase copiedProfile)

/-- Done loses nothing then, and the document keeps both projects. -/
theorem session_losesNothing_joinedEvents :
    ∃ before after,
      joinedSession.db.content .profiles "ann@uni.edu" = some before ∧
      (joinedSession.done id).content .profiles "ann@uni.edu" = some after ∧
      LosesNothing copiedProfile joinedSession.view before after ∧
      after.elements "projects" = ["Reef", "Atoll"] := by
  obtain ⟨before, after, stored, written, loses⟩ :=
    session_losesNothing_iff id copiedDatabase copiedProfile "i-1" _ rfl rfl joinedEvents
  refine ⟨before, after, stored, written, loses.mpr ⟨by decide, .inr rfl⟩, ?_⟩
  cases written
  decide

/-- Another client adds the user to a project while the user changes the title. -/
def titleSession : EditSession Nat :=
  [.addOneProject "Atoll", .edit (.title "Prof.")].foldl EditSession.handle
    (.launch copiedDatabase copiedProfile)

/-- The Done after it removes the user from the project. -/
theorem session_loses_addedProject :
    ∃ before after,
      titleSession.db.content .profiles "ann@uni.edu" = some before ∧
      (titleSession.done id).content .profiles "ann@uni.edu" = some after ∧
      ¬ LosesNothing copiedProfile titleSession.view before after := by
  refine ⟨_, _, rfl, rfl, fun loses => ?_⟩
  exact absurd (loses.projects "Atoll" (by decide) (by decide)) (by decide)

end Bowfolio
