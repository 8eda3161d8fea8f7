import Bowfolio.Foundation.Machine
import Bowfolio.Firestore.ResourcePath
import Bowfolio.ViewModel.Writes

/-!
# The registration form

`SignUpView.signUp` asks Auth for an account under the typed email. The completion
handler runs later, creates the user and the profile document, and takes their email
from the form as it is then. Firestore reads the email as a path below `profiles`: it
stops the application on a path that names no document. Auth creates at most one account
per email ignoring case and reports it in lower case.
-/

namespace Bowfolio

/-- The name of a document directly below its collection. -/
def Firestore.DocumentKey.documentName (key : Firestore.DocumentKey) : Option String :=
  match key.path with
  | [_, name] => some name
  | _ => none

/-- `ProfileViewModel.addProfile` as Firestore performs it. Below `profiles` the email is
read as a path: `document` stops the application when that path names no document, and a
longer path names a document outside the collection. -/
def ProfileViewModel.performAddProfile (profile : Profile) (db : Database) : Option Database :=
  (Firestore.CollectionReference.document (Firestore.collectionPath .profiles)
    profile.email).map fun key =>
      match key.documentName with
      | some name => db.commit ⟨.profiles, name, .setData profile.encode⟩
      | none => db

/-- A pending request for an account. -/
structure SignUpRequest where
  email : String
  password : String
  deriving DecidableEq, Repr

/-- The form, its view model, Auth and the database. `created` lists the accounts that
this view's requests created; a `trapped` application takes no further event. -/
structure SignUpView where
  email : String
  password : String
  repassword : String
  alertMessage : String
  showAlert : Bool
  profile : Profile
  pending : List SignUpRequest
  accounts : List String
  created : List String
  db : Database
  trapped : Bool

/-- What can happen to the form. A success carries the identifier that Firestore
assigns to the user document and the draw of its `UUID()`, a failure the localized
description of its error. -/
inductive SignUpEvent where
  | editEmail (text : String)
  | editPassword (text : String)
  | editRepassword (text : String)
  | signUp
  | closeAlert
  | createUserSucceeded (index : Nat) (autoID uuid : String)
  | createUserFailed (index : Nat) (localizedDescription : String)
  deriving DecidableEq, Repr

namespace SignUpView

/-- The empty form over the existing accounts and documents. -/
def launch (uuid : String) (accounts : List String) (db : Database) : SignUpView where
  email := ""
  password := ""
  repassword := ""
  alertMessage := ""
  showAlert := false
  profile := ProfileViewModel.initialProfile uuid
  pending := []
  accounts := accounts
  created := []
  db := db
  trapped := false

variable (lowercased : String → String) (state : SignUpView)

/-- The tap on Sign Up. -/
def signUp : SignUpView :=
  if state.password ≠ state.repassword then
    { state with
      alertMessage := "Passwords are not match, Please Re-Enter your passwords!"
      showAlert := true }
  else { state with pending := state.pending ++ [⟨state.email, state.password⟩] }

/-- The completion handler without an error. The user document is added first. -/
def registered (autoID uuid : String) : SignUpView :=
  let profile := { state.profile with email := state.email }
  let added := state.db.commit (UserViewModel.addUser autoID ⟨some uuid, state.email, ""⟩)
  let saved := ProfileViewModel.performAddProfile profile added
  { state with profile := profile, db := saved.getD added, trapped := saved.isNone }

/-- Auth creates the account of a pending request. -/
def createAccount (index : Nat) (request : SignUpRequest) : SignUpView :=
  { state with
    pending := state.pending.eraseIdx index
    accounts := lowercased request.email :: state.accounts
    created := lowercased request.email :: state.created }

/-- The completion handler with an error. -/
def refused (index : Nat) (localizedDescription : String) : SignUpView :=
  { state with
    pending := state.pending.eraseIdx index
    showAlert := true
    alertMessage := localizedDescription }

/-- One event of a running application. Firestore assigns identifiers that are not in use. -/
def react : SignUpEvent → Option SignUpView
  | .editEmail text => some { state with email := text }
  | .editPassword text => some { state with password := text }
  | .editRepassword text => some { state with repassword := text }
  | .signUp => some state.signUp
  | .closeAlert => some { state with showAlert := !state.showAlert }
  | .createUserSucceeded index autoID uuid =>
      state.pending[index]?.bind fun request =>
        if lowercased request.email ∈ state.accounts ∨ (state.db.content .users autoID).isSome then
          none
        else some ((state.createAccount lowercased index request).registered autoID uuid)
  | .createUserFailed index localizedDescription =>
      state.pending[index]?.map fun _ => state.refused index localizedDescription

def step (event : SignUpEvent) : Option SignUpView :=
  if state.trapped then none else state.react lowercased event

end SignUpView

/-- The form as a machine. -/
def signUpMachine (lowercased : String → String) : Machine SignUpView SignUpEvent where
  step := SignUpView.step lowercased

end Bowfolio
