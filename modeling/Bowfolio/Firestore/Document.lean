import Mathlib.Data.String.Basic
import Mathlib.Logic.Function.Basic
import Bowfolio.Foundation.Collect
import Bowfolio.Foundation.Collection

/-!
# Firestore documents and writes

A document maps field names to values and a write request acts on one document
of one collection. `setData` replaces the document, `setData` with merge overlays
the fields it carries, and `updateData` changes one field of a document that
exists and fails on one that does not. Values are the two kinds the application
stores: strings and arrays of strings.
-/

namespace Bowfolio

/-- The value of a document field. -/
inductive FieldValue where
  | string (text : String)
  | array (elements : List String)
  deriving DecidableEq, Repr

/-- A document maps the names of its fields to their values. -/
abbrev Document := String → Option FieldValue

namespace Document

/-- The document with the given fields and no other. -/
def ofFields (fields : List (String × FieldValue)) : Document :=
  fun key => fields.lookup key

/-- The fields of `data` over those of `base`; an array is replaced as a whole. -/
def overlay (base data : Document) : Document :=
  fun key => (data key).or (base key)

/-- The elements of an array field; a missing field and a string have none. -/
def elements (doc : Document) (key : String) : List String :=
  match doc key with
  | some (.array elements) => elements
  | _ => []

end Document

/-- `FieldValue.arrayUnion`: append every element that the array does not hold yet. -/
def arrayUnion (array elements : List String) : List String :=
  elements.foldl
    (fun result element => if element ∈ result then result else result ++ [element]) array

/-- The new value `updateData` gives to a field. -/
inductive FieldChange where
  | value (replacement : FieldValue)
  | arrayUnion (elements : List String)
  deriving DecidableEq, Repr

/-- The value a field has after a change. A union over a field that is not an
array starts from the empty array. -/
def FieldChange.apply (doc : Document) (key : String) : FieldChange → FieldValue
  | .value replacement => replacement
  | .arrayUnion elements => .array (Bowfolio.arrayUnion (doc.elements key) elements)

/-- A write request on one document. -/
inductive DocumentWrite where
  | setData (data : Document)
  | mergeData (data : Document)
  | updateData (key : String) (change : FieldChange)

/-- The document after a write request, from its content before (`none` when it
does not exist). A failing request has no result. -/
def DocumentWrite.apply : DocumentWrite → Option Document → Option Document
  | .setData data, _ => some data
  | .mergeData data, none => some data
  | .mergeData data, some doc => some (doc.overlay data)
  | .updateData _ _, none => none
  | .updateData key change, some doc =>
      some (Function.update doc key (some (change.apply doc key)))

/-- The three collections of the application. -/
inductive CollectionName where
  | users
  | profiles
  | projects
  deriving DecidableEq, Repr

/-- A write request, addressed to a document of a collection. -/
structure Write where
  collection : CollectionName
  document : String
  operation : DocumentWrite

/-- The content of the database. -/
abbrev Database := CollectionName → Collection String Document

namespace Database

/-- The database without documents. -/
def empty : Database := fun _ => Collection.empty

/-- The content of one document. -/
def content (db : Database) (name : CollectionName) (document : String) : Option Document :=
  (db name).get? document

/-- Let one write request take effect; a failing request changes nothing. -/
def commit (db : Database) (write : Write) : Database :=
  match write.operation.apply (db.content write.collection write.document) with
  | none => db
  | some doc => Function.update db write.collection ((db write.collection).set write.document doc)

/-- Let write requests take effect in order. -/
def commitAll (db : Database) (writes : List Write) : Database :=
  writes.foldl commit db

end Database

namespace Document

theorem overlay_of_some {base data : Document} {key : String} {value : FieldValue}
    (present : data key = some value) : base.overlay data key = some value := by
  simp only [overlay, present, Option.some_or]

theorem elements_of_array {doc : Document} {key : String} {elements : List String}
    (present : doc key = some (.array elements)) : doc.elements key = elements := by
  simp only [Document.elements, present]

/-- A union of a field unites its elements, those of a missing field being none. -/
theorem elements_arrayUnion (doc : Document) (key : String) (elements : List String) :
    Document.elements
        (Function.update doc key (some (FieldChange.apply doc key (.arrayUnion elements)))) key =
      Bowfolio.arrayUnion (doc.elements key) elements :=
  elements_of_array (Function.update_self ..)

theorem elements_congr {first second : Document} {key : String}
    (same : first key = second key) : first.elements key = second.elements key := by
  simp only [Document.elements, same]

end Document

/-! ## Array unions -/

/-- A union is a collecting loop. -/
theorem arrayUnion_eq_collect (array elements : List String) :
    arrayUnion array elements = collect array elements := rfl

/-- A union has the elements of both. -/
theorem mem_arrayUnion {array elements : List String} {element : String} :
    element ∈ arrayUnion array elements ↔ element ∈ array ∨ element ∈ elements := by
  rw [arrayUnion_eq_collect, mem_collect]

/-- A union with elements that are there changes nothing. -/
theorem arrayUnion_of_subset {array elements : List String}
    (held : ∀ name ∈ elements, name ∈ array) :
    arrayUnion array elements = array := by
  rw [arrayUnion_eq_collect, collect_of_subset held]

/-! ## What one write does -/

namespace Database

variable (db : Database) (write : Write)

/-- A successful request stores its result under the addressed document. -/
theorem commit_of_applied {doc : Document}
    (applied : write.operation.apply (db.content write.collection write.document) = some doc) :
    db.commit write =
      Function.update db write.collection ((db write.collection).set write.document doc) := by
  simp only [commit, applied]

/-- A request that fails changes nothing. -/
theorem commit_of_failed
    (failed : write.operation.apply (db.content write.collection write.document) = none) :
    db.commit write = db := by
  simp only [commit, failed]

/-- A successful write leaves its result in the document it is addressed to. -/
theorem content_commit_self {doc : Document}
    (applied : write.operation.apply (db.content write.collection write.document) = some doc) :
    (db.commit write).content write.collection write.document = some doc := by
  rw [db.commit_of_applied write applied, content, Function.update_self, Collection.get?_set_self]

/-- A write leaves the other collections alone. -/
theorem commit_of_ne {name : CollectionName} (apart : name ≠ write.collection) :
    db.commit write name = db name := by
  cases applied : write.operation.apply (db.content write.collection write.document) with
  | none => rw [db.commit_of_failed write applied]
  | some doc => rw [db.commit_of_applied write applied, Function.update_of_ne apart]

/-- A write leaves every other document alone. -/
theorem content_commit_of_ne {name : CollectionName} {document : String}
    (apart : name ≠ write.collection ∨ document ≠ write.document) :
    (db.commit write).content name document = db.content name document := by
  by_cases same : name = write.collection
  · subst same
    have different := apart.resolve_left fun unequal => unequal rfl
    cases applied : write.operation.apply (db.content write.collection write.document) with
    | none => rw [db.commit_of_failed write applied]
    | some doc =>
        rw [db.commit_of_applied write applied, content, Function.update_self,
          Collection.get?_set_of_ne _ different, content]
  · simp only [content, db.commit_of_ne write same]

/-- A document after a write is the one before it, or the result of the request. -/
theorem content_commit_cases {name : CollectionName} {document : String} {doc : Document}
    (present : (db.commit write).content name document = some doc) :
    db.content name document = some doc ∨
      name = write.collection ∧ document = write.document ∧
        write.operation.apply (db.content name document) = some doc := by
  by_cases addressed : name = write.collection ∧ document = write.document
  · obtain ⟨rfl, rfl⟩ := addressed
    cases applied : write.operation.apply (db.content write.collection write.document) with
    | none => exact .inl (db.commit_of_failed write applied ▸ present)
    | some result =>
        cases present.symm.trans (db.content_commit_self write applied)
        exact .inr ⟨rfl, rfl, rfl⟩
  · exact .inl ((db.content_commit_of_ne write (by tauto)).symm.trans present)

/-- A write never removes a document. -/
theorem content_commit_isSome {name : CollectionName} {document : String}
    (present : (db.content name document).isSome) :
    ((db.commit write).content name document).isSome := by
  by_cases addressed : name = write.collection ∧ document = write.document
  · obtain ⟨rfl, rfl⟩ := addressed
    cases applied : write.operation.apply (db.content write.collection write.document) with
    | none => rw [db.commit_of_failed write applied]; exact present
    | some doc => rw [db.content_commit_self write applied]; rfl
  · rw [db.content_commit_of_ne write (by tauto)]
    exact present

/-- Writes to other collections leave a collection alone. -/
theorem commitAll_of_ne {name : CollectionName} {writes : List Write}
    (apart : ∀ write ∈ writes, name ≠ write.collection) : db.commitAll writes name = db name := by
  induction writes generalizing db with
  | nil => rfl
  | cons write writes ih =>
      have rest := ih (db.commit write) fun other member =>
        apart other (List.mem_cons_of_mem _ member)
      exact rest.trans (db.commit_of_ne write (apart write List.mem_cons_self))

theorem commitAll_append (first second : List Write) :
    db.commitAll (first ++ second) = (db.commitAll first).commitAll second :=
  List.foldl_append

theorem commitAll_cons (writes : List Write) :
    db.commitAll (write :: writes) = (db.commit write).commitAll writes := rfl

/-- Writes to other documents leave a document alone. -/
theorem content_commitAll_of_ne {name : CollectionName} {document : String} {writes : List Write}
    (apart : ∀ write ∈ writes, name ≠ write.collection ∨ document ≠ write.document) :
    (db.commitAll writes).content name document = db.content name document := by
  induction writes generalizing db with
  | nil => rfl
  | cons write writes ih =>
      rw [commitAll_cons, ih _ fun other member => apart other (List.mem_cons_of_mem _ member)]
      exact db.content_commit_of_ne write (apart write List.mem_cons_self)

/-- A document stays missing under writes that fail on a missing document. -/
theorem content_commitAll_none {name : CollectionName} {document : String} {writes : List Write}
    (fails : ∀ write ∈ writes, write.collection = name → write.document = document →
      write.operation.apply none = none) (absent : db.content name document = none) :
    (db.commitAll writes).content name document = none := by
  induction writes generalizing db with
  | nil => exact absent
  | cons write writes ih =>
      refine ih _ (fun other member => fails other (List.mem_cons_of_mem _ member)) ?_
      by_cases addressed : write.collection = name ∧ write.document = document
      · obtain ⟨rfl, rfl⟩ := addressed
        rw [db.commit_of_failed write, absent]
        rw [absent]
        exact fails write List.mem_cons_self rfl rfl
      · rw [db.content_commit_of_ne write (by tauto), absent]

/-- When all writes to a document set it to the same data, one of them is enough. -/
theorem content_commitAll_setData {name : CollectionName} {document : String} {data : Document}
    {writes : List Write}
    (same : ∀ write ∈ writes, write.collection = name → write.document = document →
      write.operation = .setData data)
    (written : (∃ write ∈ writes, write.collection = name ∧ write.document = document) ∨
      db.content name document = some data) :
    (db.commitAll writes).content name document = some data := by
  induction writes generalizing db with
  | nil =>
      obtain ⟨write, member, _⟩ | stored := written
      · exact absurd member List.not_mem_nil
      · exact stored
  | cons write writes ih =>
      rw [commitAll_cons]
      refine ih _ (fun other member => same other (List.mem_cons_of_mem _ member)) ?_
      by_cases addressed : write.collection = name ∧ write.document = document
      · obtain ⟨rfl, rfl⟩ := addressed
        refine .inr (db.content_commit_self write ?_)
        rw [same write List.mem_cons_self rfl rfl, DocumentWrite.apply]
      · have kept : (db.commit write).content name document = db.content name document :=
          db.content_commit_of_ne write (by tauto)
        obtain ⟨other, member, own⟩ | stored := written
        · rcases List.mem_cons.mp member with rfl | later
          · exact absurd own addressed
          · exact .inl ⟨other, later, own⟩
        · exact .inr (kept.trans stored)

variable {property : CollectionName → String → Document → Prop}

/-- **The document invariant rule.** A property of the documents survives a write
whose result has it. -/
theorem every_commit {db : Database} {write : Write}
    (every : ∀ name, (db name).Every (property name))
    (holds : ∀ doc, write.operation.apply (db.content write.collection write.document) = some doc →
      property write.collection write.document doc) :
    ∀ name, (db.commit write name).Every (property name) := by
  intro name document doc present
  rcases db.content_commit_cases write present with before | ⟨rfl, rfl, applied⟩
  · exact every name before
  · exact holds doc applied

end Database

end Bowfolio
