import Bowfolio.Store.Schema

/-!
# Round trips and document identity

What becomes of the identifier of a record that is encoded and decoded again.
`User` codes its identifier and gets the one of the document back. `Profile` and
`Project` leave `id` out of their coding keys, so each decoding draws a new one,
and saving a project that was read addresses another document.
-/

namespace Bowfolio

/-- A value of one of the three record types. -/
inductive ModelValue where
  | ofProfile (profile : Profile)
  | ofProject (project : Project)
  | ofUser (user : User)
  deriving DecidableEq, Repr

namespace ModelValue

/-- Encode a value as its own type does. -/
def encode : ModelValue → Document
  | .ofProfile profile => profile.encode
  | .ofProject project => project.encode
  | .ofUser user => user.encode

/-- Decode a document as the type of the given value. -/
def decodeLike (value : ModelValue) (uuid reference : String) (doc : Document) :
    Except DecodingError ModelValue :=
  match value with
  | .ofProfile _ => (Profile.decode uuid reference doc).map .ofProfile
  | .ofProject _ => (Project.decode uuid reference doc).map .ofProject
  | .ofUser _ => (User.decode uuid reference doc).map .ofUser

/-- The same coded fields under another identifier. -/
def withID (value : ModelValue) (id : String) : ModelValue :=
  match value with
  | .ofProfile profile => .ofProfile { profile with id := some id }
  | .ofProject project => .ofProject { project with id := some id }
  | .ofUser user => .ofUser { user with id := some id }

/-- The type of the value lists the `@DocumentID` property among its coding keys. -/
def codesDocumentID : ModelValue → Prop
  | .ofProfile _ => "id" ∈ Profile.codingKeys
  | .ofProject _ => "id" ∈ Project.codingKeys
  | .ofUser _ => "id" ∈ User.codingKeys

instance (value : ModelValue) : Decidable value.codesDocumentID := by
  cases value <;> exact inferInstanceAs (Decidable (_ ∈ _))

/-- The identifier a decoded value has: the one of the document when the type
codes it, else the drawn one. -/
def decodedID (value : ModelValue) (uuid reference : String) : String :=
  if value.codesDocumentID then reference else uuid

/-- Decoding an encoded value gives its coded fields and the decoded identifier. -/
theorem decodeLike_encode (value : ModelValue) (uuid reference : String) :
    value.decodeLike uuid reference value.encode =
      .ok (value.withID (value.decodedID uuid reference)) := by
  cases value with
  | ofProfile profile =>
      have decoded : Profile.decode uuid reference profile.encode =
          .ok { profile with id := some uuid } :=
        profile.storedIn_encode.decode_eq_ok uuid reference
      simp only [decodeLike, encode, decoded]
      rfl
  | ofProject project =>
      have decoded : Project.decode uuid reference project.encode =
          .ok { project with id := some uuid } :=
        Project.decode_eq_ok_iff.mpr ⟨rfl, project.storedIn_encode⟩
      simp only [decodeLike, encode, decoded]
      rfl
  | ofUser user =>
      have decoded : User.decode uuid reference user.encode =
          .ok { user with id := some reference } :=
        User.decode_eq_ok_iff.mpr ⟨rfl, user.storedIn_encode⟩
      simp only [decodeLike, encode, decoded]
      rfl

/-- Different identifiers give different values. -/
theorem withID_injective (value : ModelValue) : Function.Injective value.withID := by
  intro first second same
  cases value <;> simpa [withID] using same

end ModelValue

/-- The identity a value should keep when its encoding at `reference` is decoded,
with `first` and `second` the identifiers drawn by two decodings. -/
structure KeepsIdentity (value : ModelValue) (reference first second : String) : Prop where
  /-- The decoded value has the coded fields of the value and the identifier of
  the document. -/
  roundTrip : value.decodeLike first reference value.encode = .ok (value.withID reference)
  /-- Decoding the same snapshot twice gives equal values. -/
  stable : value.decodeLike first reference value.encode =
    value.decodeLike second reference value.encode
  /-- Saving a project that was read writes the document it was read from. -/
  saved : ∀ project,
    value.decodeLike first reference value.encode = .ok (.ofProject project) →
      ∃ write, ProjectViewModel.addProject project = some write ∧
        write.collection = .projects ∧ write.document = reference

/-- **Identity is kept exactly by the types that code it.** For a type that leaves
`id` out of its coding keys the drawn identifiers would have to be the one of the
document. -/
theorem keepsIdentity_iff (value : ModelValue) (reference first second : String) :
    KeepsIdentity value reference first second ↔
      value.codesDocumentID ∨ first = reference ∧ second = reference := by
  have keeps_iff : ∀ uuid, value.decodeLike uuid reference value.encode =
      .ok (value.withID reference) ↔ value.decodedID uuid reference = reference := by
    intro uuid
    rw [value.decodeLike_encode, Except.ok.injEq, value.withID_injective.eq_iff]
  constructor
  · intro keeps
    by_cases coded : value.codesDocumentID
    · exact .inl coded
    · have firstKept := (keeps_iff first).mp keeps.roundTrip
      have secondKept := (keeps_iff second).mp (keeps.stable ▸ keeps.roundTrip)
      simp only [ModelValue.decodedID, coded, ↓reduceIte] at firstKept secondKept
      exact .inr ⟨firstKept, secondKept⟩
  · intro condition
    have kept : ∀ uuid ∈ [first, second], value.decodedID uuid reference = reference := by
      intro uuid member
      unfold ModelValue.decodedID
      split_ifs with coded
      · rfl
      · obtain ⟨rfl, rfl⟩ := condition.resolve_left coded
        simpa using member
    have roundTrip := (keeps_iff first).mpr (kept first (by simp))
    refine ⟨roundTrip, roundTrip.trans ((keeps_iff second).mpr (kept second (by simp))).symm, ?_⟩
    intro project decoded
    have identified : project.id = some reference := by
      have same := Except.ok.inj (roundTrip.symm.trans decoded)
      cases value with
      | ofProfile profile => cases same
      | ofProject original => cases same; rfl
      | ofUser user => cases same
    exact ⟨_, congrArg (Option.map _) identified, rfl, rfl⟩

/-- A project read back under a drawn identifier does not keep its identity. -/
theorem not_keepsIdentity_project :
    ¬ KeepsIdentity (.ofProject ⟨some "d-1", "Reef", "reef.org", "Corals", ["Biology"], "url"⟩)
      "d-1" "i-1" "i-2" := by
  intro keeps
  exact absurd keeps.roundTrip (by decide)

/-- **A saved project is a copy.** Saving a project that was read from a document,
with an identifier no document has, creates a new document and leaves the one it
was read from as it was. -/
theorem save_read_project (db : Database) {doc : Document} {uuid reference : String}
    {project : Project} (present : db.content .projects reference = some doc)
    (decoded : Project.decode uuid reference doc = .ok project)
    (fresh : db.content .projects uuid = none) :
    ∃ write, ProjectViewModel.addProject project = some write ∧
      (db.commit write).content .projects uuid = some project.encode ∧
      (db.commit write).content .projects reference = some doc := by
  obtain ⟨identified, _⟩ := Project.decode_eq_ok_iff.mp decoded
  refine ⟨_, congrArg (Option.map _) identified, ?_, ?_⟩
  · exact db.content_commit_self ⟨.projects, uuid, .setData project.encode⟩ rfl
  · have apart : reference ≠ uuid := by
      intro same
      rw [same, fresh] at present
      cases present
    rw [db.content_commit_of_ne _ (.inr apart), present]

end Bowfolio
