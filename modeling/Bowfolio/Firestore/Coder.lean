import Bowfolio.Firestore.Document

/-!
# The Firestore coder

Decoding reads the coded keys of a record from a document and fails on a missing
key or a value of the wrong kind. A coded `@DocumentID` key is skipped by the
encoder; the decoder fills it from the reference and rejects a document that
holds a field of that name.
-/

namespace Bowfolio

/-- Why a document does not decode; the key is the one that was read. -/
inductive DecodingError where
  | keyNotFound (key : String)
  | typeMismatch (key : String)
  | fieldNameConflict (key : String)
  deriving DecidableEq, Repr

/-- A value with an error is a success exactly when both stages are. -/
theorem bind_eq_ok_iff {Error First Second : Type} {value : Except Error First}
    {next : First → Except Error Second} {result : Second} :
    (value >>= next) = .ok result ↔ ∃ middle, value = .ok middle ∧ next middle = .ok result := by
  cases value with
  | error error => simp only [bind, Except.bind, reduceCtorEq, false_and, exists_false]
  | ok middle => simp only [bind, Except.bind, Except.ok.injEq, exists_eq_left']

namespace Document

/-- `KeyedDecodingContainer.decode(String.self, forKey:)`. -/
def decodeString (doc : Document) (key : String) : Except DecodingError String :=
  match doc key with
  | none => .error (.keyNotFound key)
  | some (.string text) => .ok text
  | some (.array _) => .error (.typeMismatch key)

/-- `KeyedDecodingContainer.decode([String].self, forKey:)`. -/
def decodeStrings (doc : Document) (key : String) : Except DecodingError (List String) :=
  match doc key with
  | none => .error (.keyNotFound key)
  | some (.string _) => .error (.typeMismatch key)
  | some (.array elements) => .ok elements

/-- `KeyedDecodingContainer.decode(DocumentID<String>.self, forKey:)`. -/
def decodeDocumentID (doc : Document) (reference key : String) :
    Except DecodingError (Option String) :=
  if (doc key).isSome then .error (.fieldNameConflict key) else .ok (some reference)

variable {doc : Document} {key : String}

/-- A text is decoded exactly from a field that holds it. -/
theorem decodeString_eq_ok_iff {text : String} :
    doc.decodeString key = .ok text ↔ doc key = some (.string text) := by
  unfold decodeString
  cases doc key with
  | none => simp only [reduceCtorEq]
  | some value => cases value <;> simp only [Except.ok.injEq, Option.some.injEq,
      FieldValue.string.injEq, reduceCtorEq]

/-- Texts are decoded exactly from an array field that holds them. -/
theorem decodeStrings_eq_ok_iff {elements : List String} :
    doc.decodeStrings key = .ok elements ↔ doc key = some (.array elements) := by
  unfold decodeStrings
  cases doc key with
  | none => simp only [reduceCtorEq]
  | some value => cases value <;> simp only [Except.ok.injEq, Option.some.injEq,
      FieldValue.array.injEq, reduceCtorEq]

/-- A document identifier is the reference, and its field must be missing. -/
theorem decodeDocumentID_eq_ok_iff {reference : String} {id : Option String} :
    doc.decodeDocumentID reference key = .ok id ↔ doc key = none ∧ id = some reference := by
  unfold decodeDocumentID
  cases doc key with
  | none => simp only [Option.isSome_none, Bool.false_eq_true, ↓reduceIte, Except.ok.injEq,
      true_and, eq_comm]
  | some value => simp only [Option.isSome_some, ↓reduceIte, reduceCtorEq, false_and]

end Document

/-- A record type of the application: how `setData(from:)` encodes a value and
how `data(as:)` decodes a document. The decoder is given the identifier that the
`UUID()` default draws and the identifier of the document. -/
class FirestoreCodable (Record : Type) where
  encode : Record → Document
  decode : (uuid reference : String) → Document → Except DecodingError Record

/-- The snapshot listener of `fetchData`: decode the documents of the snapshot in
order and drop those that do not decode (`compactMap` over `try?`). The draws of
`UUID()` are numbered by document. -/
def fetchData {Record : Type} [FirestoreCodable Record] (uuids : Nat → String)
    (documents : List (String × Document)) : List Record :=
  documents.zipIdx.filterMap fun entry =>
    (FirestoreCodable.decode (uuids entry.2) entry.1.1 entry.1.2).toOption

section FetchData

variable {Record : Type} [FirestoreCodable Record] {uuids : Nat → String}

/-- Everything that `fetchData` publishes is the decoding of a listed document. -/
theorem mem_fetchData {documents : List (String × Document)} {record : Record} :
    record ∈ fetchData uuids documents →
      ∃ uuid, ∃ entry ∈ documents, FirestoreCodable.decode uuid entry.1 entry.2 = .ok record := by
  intro member
  obtain ⟨⟨entry, index⟩, listed, decoded⟩ := List.mem_filterMap.mp member
  refine ⟨uuids index, entry, (List.mem_zipIdx' listed).2 ▸ List.getElem_mem _, ?_⟩
  revert decoded
  cases (FirestoreCodable.decode (uuids index) entry.1 entry.2 : Except DecodingError Record) with
  | error error => exact nofun
  | ok value => exact fun same => congrArg Except.ok (Option.some.inj same)

/-- A listed document that decodes is published. -/
theorem exists_mem_fetchData {documents : List (String × Document)} {entry : String × Document}
    (listed : entry ∈ documents)
    (decodes : ∀ uuid, ∃ record : Record,
      FirestoreCodable.decode uuid entry.1 entry.2 = .ok record) :
    ∃ uuid, ∃ record ∈ (fetchData uuids documents : List Record),
      FirestoreCodable.decode uuid entry.1 entry.2 = .ok record := by
  obtain ⟨index, bound, same⟩ := List.mem_iff_getElem.mp listed
  obtain ⟨record, decoded⟩ := decodes (uuids index)
  refine ⟨uuids index, record, List.mem_filterMap.mpr ⟨(entry, index), ?_, ?_⟩, decoded⟩
  · exact List.mem_zipIdx_iff_getElem?.mpr (same ▸ List.getElem?_eq_getElem bound)
  · rw [decoded]
    rfl

/-- If every document decodes, `fetchData` publishes one record per document, in
document order. -/
theorem fetchData_forall₂ {documents : List (String × Document)}
    (decodes : ∀ entry ∈ documents, ∀ uuid, ∃ record : Record,
      FirestoreCodable.decode uuid entry.1 entry.2 = .ok record) :
    List.Forall₂ (fun (entry : String × Document) (record : Record) =>
        ∃ uuid, FirestoreCodable.decode uuid entry.1 entry.2 = .ok record)
      documents (fetchData uuids documents) := by
  unfold fetchData
  generalize 0 = start
  induction documents generalizing start with
  | nil => exact List.Forall₂.nil
  | cons entry rest ih =>
      obtain ⟨record, decoded⟩ := decodes entry List.mem_cons_self (uuids start)
      have tail :=
        ih (fun other member => decodes other (List.mem_cons_of_mem _ member)) (start + 1)
      rw [List.zipIdx_cons, List.filterMap_cons]
      simp only [decoded, Except.toOption]
      exact List.Forall₂.cons ⟨uuids start, decoded⟩ tail

end FetchData

end Bowfolio
