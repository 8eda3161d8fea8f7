import Bowfolio.Swift.Text
import Bowfolio.View.Home
import Bowfolio.View.SignUp

/-!
# Accounts and their profiles

The completion of a request reads the email of the form again, and Firestore reads it as
a path. Every successful completion creates the documents of its own request, and every
created account finds its profile, exactly when at every successful completion the form
still shows the request's email and that email is one segment of a path
(`registers_own_account_iff`).
-/

namespace Bowfolio

open Firestore.ResourcePath (Segment)

variable {lowercased : String → String}

/-- Firestore names every document of the profiles collection by one segment of a path. -/
def Database.NamesProfiles (db : Database) : Prop :=
  ∀ name, (db.content .profiles name).isSome → Segment name

/-- The documents of one registration: a user and a profile that carry `email`, the
profile under it, and no other profile touched. -/
structure Registers (email autoID : String) (before after : Database) : Prop where
  user : ∃ user doc, after.content .users autoID = some doc ∧ User.StoredIn user doc ∧
    user.email = email
  profile : ∃ profile, after.StoresProfile email profile ∧ profile.email = email
  others : ∀ other, other ≠ email → after.content .profiles other = before.content .profiles other

/-! ## What the handler writes -/

namespace ProfileViewModel

variable (profile : Profile) (db : Database)

/-- The profile is added under a segment, or no document of the collection is touched. -/
theorem performAddProfile_cases :
    (performAddProfile profile db).getD db = db ∨
      ∃ name, Segment name ∧ (performAddProfile profile db).getD db =
        db.commit ⟨.profiles, name, .setData profile.encode⟩ := by
  unfold performAddProfile
  cases named : Firestore.CollectionReference.document (Firestore.collectionPath .profiles)
      profile.email with
  | none => exact .inl rfl
  | some key =>
      obtain ⟨subPath, accepted, path⟩ := Firestore.document_eq_some_iff.mp named
      have segments := Firestore.ResourcePath.segment_of_fromString accepted
      simp only [Option.map_some, Option.getD_some, Firestore.DocumentKey.documentName, path]
      match subPath with
      | [] => exact .inl rfl
      | [segment] => exact .inr ⟨segment, segments segment List.mem_cons_self, rfl⟩
      | _ :: _ :: _ => exact .inl rfl

/-- Under a segment the profile is added as it is. -/
theorem performAddProfile_of_segment (segment : Segment profile.email) :
    performAddProfile profile db = some (db.commit (addProfile profile)) := by
  obtain ⟨key, named, path⟩ := Firestore.document_of_segment .profiles segment
  rw [performAddProfile, named, Option.map_some, Firestore.DocumentKey.documentName, path]
  rfl

end ProfileViewModel

namespace SignUpView

variable (state : SignUpView) (autoID uuid : String)

/-- The handler touches no document but the new user and a profile named by a segment. -/
theorem content_registered (name : CollectionName) (document : String) :
    (state.registered autoID uuid).db.content name document =
        (state.db.commit (UserViewModel.addUser autoID
          ⟨some uuid, state.email, ""⟩)).content name document ∨
      name = .profiles ∧ Segment document := by
  let added := state.db.commit (UserViewModel.addUser autoID ⟨some uuid, state.email, ""⟩)
  let profile : Profile := { state.profile with email := state.email }
  rcases ProfileViewModel.performAddProfile_cases profile added with kept | ⟨own, segment, saved⟩
  · exact .inl (congrArg (fun db : Database => db.content name document) kept)
  · by_cases place : name = .profiles ∧ document = own
    · exact .inr ⟨place.1, place.2 ▸ segment⟩
    · left
      refine (congrArg (fun db : Database => db.content name document) saved).trans ?_
      exact added.content_commit_of_ne _ (by tauto)

/-- The user document carries the email of the form. -/
theorem user_registered :
    (state.registered autoID uuid).db.content .users autoID =
      some (User.encode ⟨some uuid, state.email, ""⟩) := by
  rcases state.content_registered autoID uuid .users autoID with kept | ⟨isProfile, _⟩
  · rw [kept]
    exact state.db.content_commit_self (UserViewModel.addUser autoID _) rfl
  · exact nomatch isProfile

/-- The handler names no profile by anything but a segment. -/
theorem namesProfiles_registered (named : state.db.NamesProfiles) :
    (state.registered autoID uuid).db.NamesProfiles := by
  intro name present
  rcases state.content_registered autoID uuid .profiles name with kept | ⟨_, segment⟩
  · have notUsers : CollectionName.profiles ≠ .users := nofun
    rw [kept, state.db.content_commit_of_ne (UserViewModel.addUser autoID _) (.inl notUsers)]
      at present
    exact named name present
  · exact segment

/-- The handler registers the email that the form shows, when it is a segment. -/
theorem registers_registered (segment : Segment state.email) :
    Registers state.email autoID state.db (state.registered autoID uuid).db := by
  let user : User := ⟨some uuid, state.email, ""⟩
  let profile : Profile := { state.profile with email := state.email }
  let added := state.db.commit (UserViewModel.addUser autoID user)
  have saved : (state.registered autoID uuid).db =
      added.commit (ProfileViewModel.addProfile profile) :=
    congrArg (Option.getD · added) (ProfileViewModel.performAddProfile_of_segment profile added
      segment)
  refine ⟨⟨user, _, state.user_registered autoID uuid, user.storedIn_encode, rfl⟩,
    ⟨profile, ⟨_, ?_, profile.storedIn_encode⟩, rfl⟩, fun other apart => ?_⟩
  · rw [saved]
    exact added.content_commit_self (ProfileViewModel.addProfile profile) rfl
  · have notUsers : CollectionName.profiles ≠ .users := nofun
    rw [saved, added.content_commit_of_ne (ProfileViewModel.addProfile profile) (.inr apart)]
    exact state.db.content_commit_of_ne (UserViewModel.addUser autoID user) (.inl notUsers)

end SignUpView

/-! ## Which requests are registered -/

/-- Every successful completion registers the email of its request; nothing else
writes. -/
def RegistersRequest (state : SignUpView) : SignUpEvent → SignUpView → Prop
  | .createUserSucceeded index autoID _, next =>
      ∀ request ∈ state.pending[index]?, Registers request.email autoID state.db next.db
  | _, next => next.db = state.db

/-- The form shows the email of the request whose completion succeeds, and that email is
one segment of a path. -/
def ShowsRequest (state : SignUpView) : SignUpEvent → Prop
  | .createUserSucceeded index _ _ =>
      ∀ request ∈ state.pending[index]?, state.email = request.email ∧ Segment request.email
  | _ => True

/-- The account finds its profile among the loaded ones once the snapshot is up to
date. -/
def FindsProfile (lowercased : String → String) (db : Database) (account : String) : Prop :=
  ∀ (uuids : Nat → String) (home : HomeView Unit),
    home.profiles = ProfilesViewModel.fetchData uuids (db .profiles).entries →
    home.currentUser = some account →
      home.getUserProfile lowercased ∈ home.profiles ∧
        lowercased (home.getUserProfile lowercased).email = account

/-- Every event names profiles by segments only. -/
theorem namesProfiles_step {state next : SignUpView} {event : SignUpEvent}
    (named : state.db.NamesProfiles) (stepped : state.step lowercased event = some next) :
    next.db.NamesProfiles := by
  obtain ⟨_, reacted⟩ := Option.ite_none_left_eq_some.mp stepped
  cases event with
  | createUserSucceeded index autoID uuid =>
      obtain ⟨request, _, accepted⟩ := Option.bind_eq_some_iff.mp reacted
      obtain ⟨_, same⟩ := Option.ite_none_left_eq_some.mp accepted
      cases same
      exact (state.createAccount lowercased index request).namesProfiles_registered autoID uuid
        named
  | createUserFailed index localizedDescription =>
      obtain ⟨request, _, same⟩ := Option.map_eq_some_iff.mp reacted
      cases same
      exact named
  | signUp =>
      cases reacted
      unfold SignUpView.signUp
      split_ifs <;> exact named
  | editEmail | editPassword | editRepassword | closeAlert =>
      cases reacted
      exact named

/-- A completion registers its request exactly when the form shows it. -/
theorem registersRequest_iff {state next : SignUpView} {event : SignUpEvent}
    (named : state.db.NamesProfiles) (stepped : state.step lowercased event = some next) :
    RegistersRequest state event next ↔ ShowsRequest state event := by
  have names := namesProfiles_step named stepped
  obtain ⟨_, reacted⟩ := Option.ite_none_left_eq_some.mp stepped
  cases event with
  | createUserSucceeded index autoID uuid =>
      obtain ⟨request, pending, accepted⟩ := Option.bind_eq_some_iff.mp reacted
      obtain ⟨_, same⟩ := Option.ite_none_left_eq_some.mp accepted
      cases same
      let answered := state.createAccount lowercased index request
      constructor
      · intro own other found
        cases pending.symm.trans found
        obtain ⟨user, doc, present, stored, carried⟩ := (own request pending).user
        cases (answered.user_registered autoID uuid).symm.trans present
        have email := FieldValue.string.inj (Option.some.inj (User.storedIn_iff.mp stored).1)
        obtain ⟨profile, ⟨doc, created, _⟩, _⟩ := (own request pending).profile
        exact ⟨email.trans carried, names request.email (Option.isSome_of_mem created)⟩
      · intro shows other found
        cases pending.symm.trans found
        obtain ⟨shown, segment⟩ := shows request pending
        have registers := answered.registers_registered autoID uuid (shown.symm ▸ segment)
        exact shown ▸ registers
  | createUserFailed index localizedDescription =>
      obtain ⟨request, _, same⟩ := Option.map_eq_some_iff.mp reacted
      cases same
      exact iff_of_true rfl trivial
  | signUp =>
      cases reacted
      refine iff_of_true ?_ trivial
      change (SignUpView.signUp state).db = state.db
      unfold SignUpView.signUp
      split_ifs <;> rfl
  | editEmail | editPassword | editRepassword | closeAlert =>
      cases reacted
      exact iff_of_true rfl trivial

/-- Every account that the view created has a profile under an email of its own. -/
def HasProfiles (lowercased : String → String) (state : SignUpView) : Prop :=
  ∀ account ∈ state.created, ∃ key profile,
    lowercased key = account ∧ state.db.StoresProfile key profile ∧ profile.email = key

/-- A registration under another email keeps the profiles there are. -/
theorem Registers.keeps {email autoID key : String} {before after : Database} {profile : Profile}
    (registers : Registers email autoID before after) (stores : before.StoresProfile key profile)
    (own : profile.email = key) : ∃ kept, after.StoresProfile key kept ∧ kept.email = key := by
  by_cases same : key = email
  · subst same
    exact registers.profile
  · obtain ⟨doc, present, held⟩ := stores
    exact ⟨profile, ⟨doc, (registers.others key same).trans present, held⟩, own⟩

/-- A completion with the requested email in the field keeps a profile for every account. -/
theorem HasProfiles.step {state next : SignUpView} {event : SignUpEvent}
    (has : HasProfiles lowercased state) (named : state.db.NamesProfiles)
    (stepped : state.step lowercased event = some next) (shows : ShowsRequest state event) :
    HasProfiles lowercased next := by
  have registers := (registersRequest_iff named stepped).mpr shows
  obtain ⟨_, reacted⟩ := Option.ite_none_left_eq_some.mp stepped
  cases event with
  | createUserSucceeded index autoID uuid =>
      obtain ⟨request, pending, accepted⟩ := Option.bind_eq_some_iff.mp reacted
      obtain ⟨_, same⟩ := Option.ite_none_left_eq_some.mp accepted
      cases same
      intro account member
      rcases List.mem_cons.mp member with rfl | earlier
      · obtain ⟨profile, stores, own⟩ := (registers request pending).profile
        exact ⟨request.email, profile, rfl, stores, own⟩
      · obtain ⟨key, profile, named, stores, own⟩ := has account earlier
        obtain ⟨kept, still, ownKept⟩ := (registers request pending).keeps stores own
        exact ⟨key, kept, named, still, ownKept⟩
  | createUserFailed index localizedDescription =>
      obtain ⟨request, _, same⟩ := Option.map_eq_some_iff.mp reacted
      cases same
      exact has
  | signUp =>
      cases reacted
      have created : (SignUpView.signUp state).created = state.created := by
        unfold SignUpView.signUp
        split_ifs <;> rfl
      intro account member
      rw [registers]
      exact has account (created ▸ member)
  | editEmail | editPassword | editRepassword | closeAlert =>
      cases reacted
      exact has

/-- A stored profile of the account is loaded by the next snapshot and found in it. -/
theorem HasProfiles.finds {state : SignUpView} (has : HasProfiles lowercased state)
    {account : String} (created : account ∈ state.created) :
    FindsProfile lowercased state.db account := by
  intro uuids home loaded signedIn
  obtain ⟨key, profile, rfl, ⟨doc, present, held⟩, own⟩ := has account created
  have listed : (key, doc) ∈ (state.db .profiles).entries :=
    (state.db .profiles).get?_eq_some_iff.mp present
  obtain ⟨uuid, found, member, decoded⟩ : ∃ uuid, ∃ record ∈ home.profiles,
      Profile.decode uuid key doc = .ok record := by
    rw [loaded]
    exact exists_mem_fetchData listed fun uuid => ⟨_, held.decode_eq_ok uuid key⟩
  have email : found.email = key :=
    ((Profile.decode_eq_ok_iff.mp decoded).2.email_unique held).trans own
  obtain ⟨inProfiles, matched⟩ := HomeView.getUserProfile_of_matched
    ⟨found, member, (congrArg (fun text => some (lowercased text)) email).trans signedIn.symm⟩
  rw [signedIn] at matched
  exact ⟨inProfiles, Option.some.inj matched⟩

/-- **When registrations are right.** In every run of the form, every successful
completion registers the email of its request and every created account finds its
profile, if and only if at every successful completion the form shows the request's email
and that email is one segment of a path. -/
theorem registers_own_account_iff (lowercased : String → String) (uuid : String)
    (accounts : List String) (db : Database) (named : db.NamesProfiles)
    (events : List SignUpEvent) :
    ((signUpMachine lowercased).Along RegistersRequest (.launch uuid accounts db) events ∧
      ∀ final, (signUpMachine lowercased).run (.launch uuid accounts db) events = some final →
        ∀ account ∈ final.created, FindsProfile lowercased final.db account) ↔
    (signUpMachine lowercased).Along (fun state event _ => ShowsRequest state event)
      (.launch uuid accounts db) events := by
  let names (state : SignUpView) : Prop := state.db.NamesProfiles
  have begins : names (.launch uuid accounts db) := named
  have agree : (signUpMachine lowercased).Along RegistersRequest (.launch uuid accounts db) events ↔
      (signUpMachine lowercased).Along (fun state event _ => ShowsRequest state event)
        (.launch uuid accounts db) events := by
    refine Machine.along_iff_along (fun named stepped => ?_) (fun named stepped _ => ?_) begins
    · exact registersRequest_iff named stepped
    · exact namesProfiles_step named stepped
  refine ⟨fun right => agree.mp right.1, fun shows => ⟨agree.mpr shows, ?_⟩⟩
  intro final ran account created
  let invariant (state : SignUpView) : Prop :=
    HasProfiles lowercased state ∧ state.db.NamesProfiles
  have start : invariant (.launch uuid accounts db) := ⟨nofun, named⟩
  have kept : invariant final :=
    Machine.invariant_of_along (fun kept stepped guard =>
      ⟨kept.1.step kept.2 stepped guard, namesProfiles_step kept.2 stepped⟩) start shows ran
  exact kept.1.finds created

/-- The account of the form is created while the form still shows its email. -/
def registeredEvents : List SignUpEvent :=
  [.editEmail "ann@uni.edu", .editPassword "secret", .editRepassword "secret", .signUp,
    .createUserSucceeded 0 "u-1" "i-1"]

/-- One user signs up without another edit; the account gets its profile. -/
theorem registers_own_account_iff_registered :
    (signUpMachine asciiLowercased).Along RegistersRequest (.launch "i-0" [] .empty)
      registeredEvents := by
  have named : Database.empty.NamesProfiles := fun _ present => nomatch present
  refine ((registers_own_account_iff asciiLowercased "i-0" [] .empty named registeredEvents).mpr
    ?_).1
  refine ⟨trivial, trivial, trivial, trivial, ?_, trivial⟩
  rintro request ⟨⟩
  decide

/-- The user goes on typing while the request is pending. -/
def retypedEvents : List SignUpEvent :=
  [.editEmail "ann@uni.edu", .editPassword "secret", .editRepassword "secret", .signUp,
    .editEmail "anne@uni.edu", .createUserSucceeded 0 "u-1" "i-1"]

/-- The email of the request has a slash in it. -/
def slashedEvents : List SignUpEvent :=
  [.editEmail "ann/lee@uni.edu", .editPassword "secret", .editRepassword "secret", .signUp,
    .createUserSucceeded 0 "u-1" "i-1"]

/-- The account of one email gets the documents of another, and the account of an email
with a slash gets no profile: the application stops. -/
theorem registers_retyped_email :
    ¬ (signUpMachine asciiLowercased).Along RegistersRequest (.launch "i-0" [] .empty)
        retypedEvents ∧
      ¬ (signUpMachine asciiLowercased).Along RegistersRequest (.launch "i-0" [] .empty)
        slashedEvents := by
  constructor
  · intro along
    obtain ⟨_, _, _, _, _, registers, _⟩ := along
    obtain ⟨user, doc, present, stored, email⟩ := (registers ⟨"ann@uni.edu", "secret"⟩ rfl).user
    cases present
    have carried : "anne@uni.edu" = user.email :=
      FieldValue.string.inj (Option.some.inj (User.storedIn_iff.mp stored).1)
    exact absurd (carried.trans email) (by decide)
  · intro along
    obtain ⟨_, _, _, _, registers, _⟩ := along
    obtain ⟨profile, ⟨doc, present, _⟩, _⟩ :=
      (registers ⟨"ann/lee@uni.edu", "secret"⟩ rfl).profile
    exact nomatch present

end Bowfolio
