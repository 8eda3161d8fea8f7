import Bowfolio.Firestore.FieldValue
import Bowfolio.Firestore.ResourcePath

/-!
# Mutations

A mutation acts on one document, which may be missing, known to be deleted or unknown.
Applied to the local view it respects its precondition; applied to a remote document it
was accepted by the server. What a mutation does to the data of the document does not
depend on the version and the state (`contents_applyToLocalView`), so batches are
compared through the data alone.
-/

namespace Bowfolio.Firestore

/-- `SnapshotVersion`; zero stands for `SnapshotVersion::None()`, the least one. -/
abbrev SnapshotVersion := Nat

inductive DocumentState where
  | localMutations
  | committedMutations
  | synced
  deriving DecidableEq, Repr

/-- `MaybeDocument`: a document, or what is known instead of it. -/
inductive MaybeDocument where
  | document (key : DocumentKey) (data : ObjectValue) (version : SnapshotVersion)
      (state : DocumentState)
  | noDocument (key : DocumentKey) (version : SnapshotVersion) (hasCommittedMutations : Bool)
  | unknownDocument (key : DocumentKey) (version : SnapshotVersion)
  deriving DecidableEq

namespace MaybeDocument

def key : MaybeDocument → DocumentKey
  | .document key .. | .noDocument key .. | .unknownDocument key _ => key

def version : MaybeDocument → SnapshotVersion
  | .document _ _ version _ | .noDocument _ version _ | .unknownDocument _ version => version

def hasPendingWrites : MaybeDocument → Bool
  | .document _ _ _ state => state ≠ .synced
  | .noDocument _ _ hasCommittedMutations => hasCommittedMutations
  | .unknownDocument .. => true

/-- The data of a document; there is none when it does not exist or is not known. -/
def data? : MaybeDocument → Option ObjectValue
  | .document _ data .. => some data
  | .noDocument .. | .unknownDocument .. => none

def isDocument (doc : MaybeDocument) : Bool :=
  doc.data?.isSome

end MaybeDocument

/-- The data of a document that may be missing. -/
def contents (maybeDoc : Option MaybeDocument) : Option ObjectValue :=
  maybeDoc.bind MaybeDocument.data?

/-- `Precondition`; the one on the update time is set by transactions only. -/
inductive Precondition where
  | none
  | isPresent (value : Bool)
  deriving DecidableEq, Repr

/-- `Precondition::IsValidFor`, of which the data decides. -/
def Precondition.isValidFor (precondition : Precondition) (data : Option ObjectValue) : Bool :=
  match precondition with
  | .none => true
  | .isPresent value => value = data.isSome

/-- `TransformOperation`, the two of `ArrayTransform`. -/
inductive TransformOperation where
  | arrayUnion (elements : List FieldValue)
  | arrayRemove (elements : List FieldValue)
  deriving DecidableEq

namespace TransformOperation

/-- `ArrayTransform::Rep::CoercedFieldValuesArray`. -/
def coercedFieldValuesArray : Option FieldValue → List FieldValue
  | some (.leaf (.array elements)) => elements
  | _ => []

/-- The loop of `ArrayTransform::Rep::Apply`; a removal erases the first equal element. -/
def applyTo (previousValue : Option FieldValue) : TransformOperation → FieldValue
  | .arrayUnion elements =>
      .leaf (.array (elements.foldl
        (fun result element => if element ∈ result then result else result ++ [element])
        (coercedFieldValuesArray previousValue)))
  | .arrayRemove elements =>
      .leaf (.array (elements.foldl List.erase (coercedFieldValuesArray previousValue)))

end TransformOperation

structure FieldTransform where
  path : FieldPath
  transformation : TransformOperation
  deriving DecidableEq

/-- `Mutation`; the one that only verifies is used by transactions. -/
inductive Mutation where
  | set (key : DocumentKey) (value : ObjectValue) (precondition : Precondition)
  | patch (key : DocumentKey) (value : ObjectValue) (mask : List FieldPath)
      (precondition : Precondition)
  | transform (key : DocumentKey) (fieldTransforms : List FieldTransform)
  | delete (key : DocumentKey) (precondition : Precondition)
  deriving DecidableEq

namespace Mutation

def key : Mutation → DocumentKey
  | .set key .. | .patch key .. | .transform key _ | .delete key _ => key

/-- A transformation requires the document to exist. -/
def precondition : Mutation → Precondition
  | .set _ _ precondition | .patch _ _ _ precondition | .delete _ precondition => precondition
  | .transform .. => .isPresent true

/-- `PatchMutation::Rep::PatchObject`. -/
def patchObject (value : ObjectValue) (mask : List FieldPath) (object : ObjectValue) :
    ObjectValue :=
  FieldTree.patch value mask object

/-- One entry of `TransformMutation::Rep::LocalTransformResults`: a field that the document
lacks is looked up in the base document. -/
def localTransformResult (data : ObjectValue) (base : Option ObjectValue)
    (fieldTransform : FieldTransform) : FieldValue :=
  fieldTransform.transformation.applyTo
    ((ObjectValue.get data fieldTransform.path).or
      (base.bind fun object => ObjectValue.get object fieldTransform.path))

/-- `TransformMutation::Rep::TransformObject` over the results. -/
def transformObject (object : ObjectValue) (results : List (FieldPath × FieldValue)) :
    ObjectValue :=
  results.foldl (fun object result => ObjectValue.set object result.1 result.2) object

/-- The results that `base` gives for the fields that the document lacks. -/
def localTransforms (fieldTransforms : List FieldTransform) (data : ObjectValue)
    (base : Option ObjectValue) : ObjectValue :=
  transformObject data (fieldTransforms.map fun fieldTransform =>
    (fieldTransform.path, localTransformResult data base fieldTransform))

/-- `Mutation::Rep::GetPostMutationVersion`. -/
def postMutationVersion : Option MaybeDocument → SnapshotVersion
  | some (.document _ _ version _) => version
  | _ => 0

/-- `Mutation::ApplyToLocalView`; array transformations do not look at the time. -/
def applyToLocalView (mutation : Mutation) (maybeDoc baseDoc : Option MaybeDocument) :
    Option MaybeDocument :=
  if mutation.precondition.isValidFor (contents maybeDoc) then
    match mutation with
    | .set key value _ =>
        some (.document key value (postMutationVersion maybeDoc) .localMutations)
    | .patch key value mask _ =>
        some (.document key (patchObject value mask ((contents maybeDoc).getD []))
          (postMutationVersion maybeDoc) .localMutations)
    | .transform _ fieldTransforms =>
        match maybeDoc with
        | some (.document key data version _) =>
            some (.document key (localTransforms fieldTransforms data (contents baseDoc)) version
              .localMutations)
        | other => other
    | .delete key _ => some (.noDocument key 0 false)
  else maybeDoc

/-- `Mutation::ApplyToRemoteDocument`, at the version of the mutation's result. The results
of array transformations are computed as in the local view. -/
def applyToRemoteDocument (mutation : Mutation) (maybeDoc : Option MaybeDocument)
    (version : SnapshotVersion) : MaybeDocument :=
  match mutation with
  | .set key value _ => .document key value version .committedMutations
  | .patch key value mask precondition =>
      if precondition.isValidFor (contents maybeDoc) then
        .document key (patchObject value mask ((contents maybeDoc).getD [])) version
          .committedMutations
      else .unknownDocument key version
  | .transform key fieldTransforms =>
      match contents maybeDoc with
      | some data =>
          .document key (localTransforms fieldTransforms data (some data)) version
            .committedMutations
      | none => .unknownDocument key version
  | .delete key _ => .noDocument key version true

/-! ## The data alone -/

/-- What a mutation makes of the data of the local view. -/
def effect (mutation : Mutation) (current base : Option ObjectValue) : Option ObjectValue :=
  if mutation.precondition.isValidFor current then
    match mutation with
    | .set _ value _ => some value
    | .patch _ value mask _ => some (patchObject value mask (current.getD []))
    | .transform _ fieldTransforms => current.map fun data =>
        localTransforms fieldTransforms data base
    | .delete .. => none
  else current

/-- The data of the local view after a mutation depends on the data before it only. -/
theorem contents_applyToLocalView (mutation : Mutation) (maybeDoc baseDoc : Option MaybeDocument) :
    contents (mutation.applyToLocalView maybeDoc baseDoc) =
      mutation.effect (contents maybeDoc) (contents baseDoc) := by
  unfold applyToLocalView effect
  split
  · cases mutation with
    | set | patch | delete => rfl
    | transform key fieldTransforms =>
        match maybeDoc with
        | none => rfl
        | some (.document ..) => rfl
        | some (.noDocument ..) => rfl
        | some (.unknownDocument ..) => rfl
  · rfl

/-- A mutation whose precondition holds does to a remote document what it does to the local
view of the same document. -/
theorem contents_applyToRemoteDocument {mutation : Mutation} {maybeDoc : Option MaybeDocument}
    (valid : mutation.precondition.isValidFor (contents maybeDoc)) (version : SnapshotVersion) :
    contents (some (mutation.applyToRemoteDocument maybeDoc version)) =
      mutation.effect (contents maybeDoc) (contents maybeDoc) := by
  unfold effect
  rw [if_pos valid]
  cases mutation with
  | set | delete => rfl
  | patch key value mask precondition =>
      change precondition.isValidFor (contents maybeDoc) = true at valid
      rw [applyToRemoteDocument, if_pos valid]
      rfl
  | transform key fieldTransforms =>
      rw [applyToRemoteDocument]
      cases contents maybeDoc <;> rfl

/-- The document with a result has the version of the result. -/
theorem version_applyToRemoteDocument (mutation : Mutation) (maybeDoc : Option MaybeDocument)
    (version : SnapshotVersion) :
    (mutation.applyToRemoteDocument maybeDoc version).version = version := by
  cases mutation with
  | set | delete => rfl
  | patch key value mask precondition =>
      rw [applyToRemoteDocument]
      split <;> rfl
  | transform =>
      rw [applyToRemoteDocument]
      split <;> rfl

end Mutation

end Bowfolio.Firestore
