import Bowfolio.Firestore.Mutation

/-!
# Mutation batches

A batch applies its mutations in order to the document that each addresses. In the local
view a transformation may read a field from the document as it was before the batch; in
a remote document it never does. When no mutation disturbs the fields that a later one
transforms, the two agree on the data (`contents_applyToLocalDocument`,
`contents_applyToRemoteDocument`).
-/

namespace Bowfolio.Firestore

/-- `MutationBatch`, whose constructor asserts that it has mutations. The base mutations
record the values before increments and are empty without them. -/
structure MutationBatch where
  batchId : Nat
  baseMutations : List Mutation
  mutations : List Mutation
  nonempty : mutations ≠ []
  deriving DecidableEq

namespace MutationBatch

/-- The keys that the batch writes, in order and with repetitions. -/
def keys (batch : MutationBatch) : List DocumentKey :=
  batch.mutations.map Mutation.key

/-- `MutationBatch::ApplyToLocalDocument`. -/
def applyToLocalDocument (batch : MutationBatch) (maybeDoc : Option MaybeDocument)
    (documentKey : DocumentKey) : Option MaybeDocument :=
  let baseDoc := batch.baseMutations.foldl
    (fun doc mutation =>
      if mutation.key = documentKey then mutation.applyToLocalView doc doc else doc) maybeDoc
  batch.mutations.foldl
    (fun doc mutation =>
      if mutation.key = documentKey then mutation.applyToLocalView doc baseDoc else doc) baseDoc

/-- `MutationBatch::ApplyToRemoteDocument`, with the version of each mutation's result. -/
def applyToRemoteDocument (batch : MutationBatch) (maybeDoc : Option MaybeDocument)
    (documentKey : DocumentKey) (versions : List SnapshotVersion) : Option MaybeDocument :=
  (batch.mutations.zip versions).foldl
    (fun doc result =>
      if result.1.key = documentKey then some (result.1.applyToRemoteDocument doc result.2)
      else doc) maybeDoc

end MutationBatch

namespace Mutation

/-- The fields that a mutation transforms. -/
def transformedPaths : Mutation → List FieldPath
  | .transform _ fieldTransforms => fieldTransforms.map FieldTransform.path
  | .set .. | .patch .. | .delete .. => []

/-- Neither path leads to the other. -/
def Unrelated (first second : FieldPath) : Prop :=
  ¬ first <+: second ∧ ¬ second <+: first

instance (first second : FieldPath) : Decidable (Unrelated first second) :=
  inferInstanceAs (Decidable (_ ∧ _))

/-- The mutation leaves the field alone or transforms it. -/
def Keeps (path : FieldPath) : Mutation → Prop
  | .set .. | .delete .. => False
  | .patch _ _ mask _ => ∀ masked ∈ mask, Unrelated masked path
  | .transform _ fieldTransforms =>
      ∀ fieldTransform ∈ fieldTransforms,
        fieldTransform.path = path ∨ Unrelated fieldTransform.path path

instance (path : FieldPath) : (mutation : Mutation) → Decidable (mutation.Keeps path)
  | .set .. | .delete .. => inferInstanceAs (Decidable False)
  | .patch .. => inferInstanceAs (Decidable (∀ masked ∈ _, _))
  | .transform .. => inferInstanceAs (Decidable (∀ fieldTransform ∈ _, _))

/-- No mutation disturbs a field that a later one of the same document transforms. -/
def Undisturbed (mutations : List Mutation) : Prop :=
  mutations.Pairwise fun earlier later =>
    earlier.key = later.key → ∀ path ∈ later.transformedPaths, earlier.Keeps path

instance (mutations : List Mutation) : Decidable (Undisturbed mutations) :=
  inferInstanceAs (Decidable (List.Pairwise _ _))

/-- The data of one document after mutations, each on the data that it finds. -/
def runAll (mutations : List Mutation) (documentKey : DocumentKey)
    (current : Option ObjectValue) : Option ObjectValue :=
  mutations.foldl
    (fun current mutation =>
      if mutation.key = documentKey then mutation.effect current current else current) current

theorem runAll_cons_self {mutation : Mutation} {documentKey : DocumentKey}
    (own : mutation.key = documentKey) (mutations : List Mutation)
    (current : Option ObjectValue) :
    runAll (mutation :: mutations) documentKey current =
      runAll mutations documentKey (mutation.effect current current) := by
  rw [runAll, List.foldl_cons, if_pos own, runAll]

theorem runAll_cons_of_ne {mutation : Mutation} {documentKey : DocumentKey}
    (foreign : mutation.key ≠ documentKey) (mutations : List Mutation)
    (current : Option ObjectValue) :
    runAll (mutation :: mutations) documentKey current = runAll mutations documentKey current := by
  rw [runAll, List.foldl_cons, if_neg foreign, runAll]

theorem runAll_append (first second : List Mutation) (documentKey : DocumentKey)
    (current : Option ObjectValue) :
    runAll (first ++ second) documentKey current =
      runAll second documentKey (runAll first documentKey current) :=
  List.foldl_append

/-- Mutations of other documents change nothing. -/
theorem runAll_of_foreign {mutations : List Mutation} {documentKey : DocumentKey}
    (foreign : ∀ mutation ∈ mutations, mutation.key ≠ documentKey)
    (current : Option ObjectValue) : runAll mutations documentKey current = current := by
  induction mutations with
  | nil => rfl
  | cons mutation mutations ih =>
      rw [runAll_cons_of_ne (foreign mutation List.mem_cons_self)]
      exact ih fun other member => foreign other (List.mem_cons_of_mem _ member)

/-! ## Sorted objects -/

/-- The values that a mutation writes are sorted. -/
def Sorted : Mutation → Prop
  | .set _ value _ | .patch _ value _ _ => ObjectValue.Sorted value
  | .transform .. | .delete .. => True

/-- Writing sorted results keeps an object sorted. -/
theorem sorted_transformObject {object : ObjectValue} (sorted : ObjectValue.Sorted object)
    {results : List (FieldPath × FieldValue)} (leaves : ∀ result ∈ results, result.2.Sorted) :
    ObjectValue.Sorted (transformObject object results) := by
  induction results generalizing object with
  | nil => exact sorted
  | cons result results ih =>
      exact ih (sorted.set result.1 (leaves result List.mem_cons_self))
        fun other member => leaves other (List.mem_cons_of_mem _ member)

theorem sorted_localTransforms {object : ObjectValue} (sorted : ObjectValue.Sorted object)
    (fieldTransforms : List FieldTransform) (base : Option ObjectValue) :
    ObjectValue.Sorted (localTransforms fieldTransforms object base) := by
  refine sorted_transformObject sorted fun result member => ?_
  obtain ⟨fieldTransform, _, rfl⟩ := List.mem_map.mp member
  rw [localTransformResult]
  cases fieldTransform.transformation <;> exact .atLeaf _

/-- Mutations that write sorted values keep objects sorted. -/
theorem Sorted.effect {mutation : Mutation} (mutationSorted : mutation.Sorted)
    {current : Option ObjectValue}
    (sorted : ∀ object, current = some object → ObjectValue.Sorted object)
    (base : Option ObjectValue) :
    ∀ object, mutation.effect current base = some object → ObjectValue.Sorted object := by
  intro object result
  unfold Mutation.effect at result
  split at result
  · cases mutation with
    | set key value precondition =>
        cases result
        exact mutationSorted
    | patch key value mask precondition =>
        cases result
        refine FieldTree.Sorted.patch ?_ mutationSorted mask
        cases current with
        | none => exact ObjectValue.sorted_nil
        | some old => exact sorted old rfl
    | transform key fieldTransforms =>
        obtain ⟨data, there, rfl⟩ := Option.map_eq_some_iff.mp result
        exact sorted_localTransforms (sorted data there) fieldTransforms base
    | delete => cases result
  · exact sorted object result

/-- Sorted mutations keep a document sorted. -/
theorem sorted_runAll {mutations : List Mutation} (all : ∀ mutation ∈ mutations, mutation.Sorted)
    {current : Option ObjectValue}
    (sorted : ∀ object, current = some object → ObjectValue.Sorted object)
    (documentKey : DocumentKey) :
    ∀ object, runAll mutations documentKey current = some object → ObjectValue.Sorted object := by
  induction mutations generalizing current with
  | nil => exact sorted
  | cons mutation mutations ih =>
      have rest := fun other member => all other (List.mem_cons_of_mem mutation member)
      by_cases own : mutation.key = documentKey
      · rw [runAll_cons_self own]
        exact ih rest ((all mutation List.mem_cons_self).effect sorted current)
      · rw [runAll_cons_of_ne own]
        exact ih rest sorted

/-! ## Reading the fields that stay -/

section Fields

variable {path : FieldPath} {object : ObjectValue}

theorem get_set_self (nonempty : path ≠ []) (object : ObjectValue) (value : FieldValue) :
    ObjectValue.get (ObjectValue.set object path value) path = some value := by
  cases path with
  | nil => exact absurd rfl nonempty
  | cons first rest =>
      have read := FieldTree.get_set_append object first rest [] value
      rwa [List.append_nil, FieldTree.get_nil] at read

/-- A value written at an unrelated path is not seen. -/
theorem get_set_of_unrelated {other : FieldPath} (unrelated : Unrelated other path)
    (object : ObjectValue) (value : FieldValue) :
    ObjectValue.get (ObjectValue.set object other value) path = ObjectValue.get object path := by
  cases other with
  | nil => exact absurd List.nil_prefix unrelated.1
  | cons first rest => exact FieldTree.get_set_of_apart unrelated object value

/-- A transformed object keeps the fields that its transformations keep. -/
theorem get_transformObject_isSome {results : List (FieldPath × FieldValue)}
    (kept : ∀ result ∈ results, result.1 = path ∨ Unrelated result.1 path)
    (present : (ObjectValue.get object path).isSome) :
    (ObjectValue.get (transformObject object results) path).isSome := by
  induction results generalizing object with
  | nil => exact present
  | cons result results ih =>
      refine ih (fun other member => kept other (List.mem_cons_of_mem _ member)) ?_
      rcases kept result List.mem_cons_self with rfl | unrelated
      · by_cases nonempty : result.1 = []
        · rw [nonempty]
          rfl
        · rw [get_set_self nonempty]
          rfl
      · rwa [get_set_of_unrelated unrelated]

/-- Results at unrelated paths are not seen. -/
theorem get_transformObject_of_unrelated {results : List (FieldPath × FieldValue)}
    (unrelated : ∀ result ∈ results, Unrelated result.1 path) (object : ObjectValue) :
    ObjectValue.get (transformObject object results) path = ObjectValue.get object path := by
  induction results generalizing object with
  | nil => rfl
  | cons result results ih =>
      refine (ih (fun other member => unrelated other (List.mem_cons_of_mem _ member)) _).trans ?_
      exact get_set_of_unrelated (unrelated result List.mem_cons_self) object result.2

/-- Among results for unrelated paths, each is found at its path. -/
theorem get_transformObject_of_mem {results : List (FieldPath × FieldValue)}
    {result : FieldPath × FieldValue} (nonempty : result.1 ≠ [])
    (others : ∀ other ∈ results, other = result ∨ Unrelated other.1 result.1)
    (found : result ∈ results ∨ ObjectValue.get object result.1 = some result.2) :
    ObjectValue.get (transformObject object results) result.1 = some result.2 := by
  induction results generalizing object with
  | nil => exact found.resolve_left List.not_mem_nil
  | cons head results ih =>
      refine ih (fun other member => others other (List.mem_cons_of_mem _ member)) ?_
      rcases others head List.mem_cons_self with rfl | unrelated
      · exact .inr (get_set_self nonempty object _)
      · rcases found with member | there
        · rcases List.mem_cons.mp member with rfl | later
          · exact absurd (List.prefix_refl _) unrelated.1
          · exact .inl later
        · exact .inr ((get_set_of_unrelated unrelated object head.2).trans there)

/-- Transformations of unrelated paths are not seen. -/
theorem get_localTransforms_of_unrelated {fieldTransforms : List FieldTransform}
    (unrelated : ∀ fieldTransform ∈ fieldTransforms, Unrelated fieldTransform.path path)
    (base : Option ObjectValue) :
    ObjectValue.get (localTransforms fieldTransforms object base) path =
      ObjectValue.get object path := by
  refine get_transformObject_of_unrelated (fun result member => ?_) object
  obtain ⟨fieldTransform, listed, rfl⟩ := List.mem_map.mp member
  exact unrelated fieldTransform listed

/-- A transformation that no other one touches is applied to its old field. -/
theorem get_localTransforms_of_mem {fieldTransforms : List FieldTransform}
    {fieldTransform : FieldTransform} (nonempty : fieldTransform.path ≠ [])
    (others : ∀ other ∈ fieldTransforms,
      other = fieldTransform ∨ Unrelated other.path fieldTransform.path)
    (listed : fieldTransform ∈ fieldTransforms) :
    ObjectValue.get (localTransforms fieldTransforms object (some object)) fieldTransform.path =
      some (fieldTransform.transformation.applyTo
        (ObjectValue.get object fieldTransform.path)) := by
  have result : localTransformResult object (some object) fieldTransform =
      fieldTransform.transformation.applyTo (ObjectValue.get object fieldTransform.path) := by
    rw [localTransformResult, Option.bind_some, Option.or_self]
  rw [← result]
  refine @get_transformObject_of_mem object _ (fieldTransform.path, _) nonempty
    (fun other member => ?_) (.inl (List.mem_map.mpr ⟨fieldTransform, listed, rfl⟩))
  obtain ⟨otherTransform, otherListed, rfl⟩ := List.mem_map.mp member
  rcases others otherTransform otherListed with rfl | unrelated
  · exact .inl rfl
  · exact .inr unrelated

/-- A kept field that is there stays there. -/
theorem get_effect_isSome {mutation : Mutation} (keeps : mutation.Keeps path)
    {current base : Option ObjectValue}
    (present : (current.bind fun object => ObjectValue.get object path).isSome) :
    ((mutation.effect current base).bind fun object => ObjectValue.get object path).isSome := by
  obtain ⟨object, rfl, found⟩ : ∃ object, current = some object ∧
      (ObjectValue.get object path).isSome := by
    cases current with
    | none => cases present
    | some object => exact ⟨object, rfl, present⟩
  unfold effect
  split
  · cases mutation with
    | set | delete => exact keeps.elim
    | patch key value mask precondition =>
        have same := FieldTree.get_patch_of_apart keeps value object
        exact (congrArg Option.isSome same).trans found
    | transform key fieldTransforms =>
        refine get_transformObject_isSome (fun result member => ?_) found
        obtain ⟨fieldTransform, listed, rfl⟩ := List.mem_map.mp member
        exact keeps fieldTransform listed
  · exact present

end Fields

/-! ## The base document does not matter -/

variable {mutations : List Mutation} {documentKey : DocumentKey}

/-- Transformations of fields that are there do not look at the base document. -/
theorem effect_of_present {mutation : Mutation} {current base : Option ObjectValue}
    (present : ∀ path ∈ mutation.transformedPaths,
      (base.bind fun object => ObjectValue.get object path).isSome →
        (current.bind fun object => ObjectValue.get object path).isSome) :
    mutation.effect current base = mutation.effect current current := by
  cases mutation with
  | set | patch | delete => rfl
  | transform key fieldTransforms =>
      unfold effect
      split
      · cases current with
        | none => rfl
        | some data =>
            refine congrArg (fun results => some (transformObject data results)) ?_
            refine List.map_congr_left fun fieldTransform listed => ?_
            have there := present fieldTransform.path (List.mem_map_of_mem listed)
            rw [localTransformResult, localTransformResult]
            cases found : ObjectValue.get data fieldTransform.path with
            | some value => rfl
            | none =>
                cases before :
                  base.bind fun object => ObjectValue.get object fieldTransform.path with
                | none => simp [found]
                | some value =>
                    have := there (by rw [before]; rfl)
                    simp [found] at this
      · rfl

/-- With undisturbed fields a run may look up missing fields in the first data. -/
theorem foldl_effect_eq_runAll (undisturbed : Undisturbed mutations)
    {current base : Option ObjectValue}
    (present : ∀ mutation ∈ mutations, mutation.key = documentKey →
      ∀ path ∈ mutation.transformedPaths,
        (base.bind fun object => ObjectValue.get object path).isSome →
          (current.bind fun object => ObjectValue.get object path).isSome) :
    mutations.foldl
        (fun current mutation =>
          if mutation.key = documentKey then mutation.effect current base else current) current =
      runAll mutations documentKey current := by
  induction mutations generalizing current with
  | nil => rfl
  | cons mutation mutations ih =>
      obtain ⟨keeps, undisturbed⟩ := List.pairwise_cons.mp undisturbed
      rw [runAll, List.foldl_cons, List.foldl_cons]
      by_cases own : mutation.key = documentKey
      · rw [if_pos own, if_pos own, effect_of_present (present mutation List.mem_cons_self own)]
        refine ih undisturbed fun later member laterOwn path transformed there => ?_
        refine get_effect_isSome (keeps later member (own.trans laterOwn.symm) path transformed) ?_
        exact present later (List.mem_cons_of_mem _ member) laterOwn path transformed there
      · rw [if_neg own, if_neg own]
        exact ih undisturbed fun later member =>
          present later (List.mem_cons_of_mem _ member)

/-- On the contents, the mutations of a batch have their effects in a row. -/
theorem contents_foldl_applyToLocalView (mutations : List Mutation) (documentKey : DocumentKey)
    (maybeDoc baseDoc : Option MaybeDocument) :
    contents (mutations.foldl
        (fun doc mutation =>
          if mutation.key = documentKey then mutation.applyToLocalView doc baseDoc else doc)
        maybeDoc) =
      mutations.foldl
        (fun current mutation =>
          if mutation.key = documentKey then mutation.effect current (contents baseDoc)
          else current) (contents maybeDoc) := by
  induction mutations generalizing maybeDoc with
  | nil => rfl
  | cons mutation mutations ih =>
      rw [List.foldl_cons, List.foldl_cons, ih]
      split
      · rw [contents_applyToLocalView]
      · rfl

/-- Every mutation of the document finds its precondition satisfied. -/
def ValidAlong (documentKey : DocumentKey) : List Mutation → Option ObjectValue → Prop
  | [], _ => True
  | mutation :: mutations, current =>
      if mutation.key = documentKey then
        mutation.precondition.isValidFor current ∧
          ValidAlong documentKey mutations (mutation.effect current current)
      else ValidAlong documentKey mutations current

end Mutation

namespace MutationBatch

variable {batch : MutationBatch} {documentKey : DocumentKey}

/-- **The local view of a batch.** Without base mutations and with undisturbed fields, a
batch does to the data what its mutations do one after the other. -/
theorem contents_applyToLocalDocument (plain : batch.baseMutations = [])
    (undisturbed : Mutation.Undisturbed batch.mutations) (maybeDoc : Option MaybeDocument)
    (documentKey : DocumentKey) :
    contents (batch.applyToLocalDocument maybeDoc documentKey) =
      Mutation.runAll batch.mutations documentKey (contents maybeDoc) := by
  rw [applyToLocalDocument, plain, List.foldl_nil, Mutation.contents_foldl_applyToLocalView]
  exact Mutation.foldl_effect_eq_runAll undisturbed fun _ _ _ _ _ there => there

/-- **The remote document of a batch.** Where the preconditions hold, a batch does the same
to the data of a remote document. -/
theorem contents_applyToRemoteDocument {versions : List SnapshotVersion}
    (results : versions.length = batch.mutations.length) {maybeDoc : Option MaybeDocument}
    (valid : Mutation.ValidAlong documentKey batch.mutations (contents maybeDoc)) :
    contents (batch.applyToRemoteDocument maybeDoc documentKey versions) =
      Mutation.runAll batch.mutations documentKey (contents maybeDoc) := by
  rw [applyToRemoteDocument]
  generalize batch.mutations = mutations at results valid
  induction mutations generalizing maybeDoc versions with
  | nil => rfl
  | cons mutation mutations ih =>
      cases versions with
      | nil => cases results
      | cons version versions =>
          have rest : versions.length = mutations.length := Nat.succ.inj results
          rw [List.zip_cons_cons, List.foldl_cons, Mutation.runAll, List.foldl_cons]
          dsimp only
          unfold Mutation.ValidAlong at valid
          by_cases own : mutation.key = documentKey
          · rw [if_pos own] at valid ⊢
            rw [if_pos own]
            obtain ⟨holds, validRest⟩ := valid
            rw [← Mutation.contents_applyToRemoteDocument holds version] at validRest ⊢
            exact ih rest validRest
          · rw [if_neg own] at valid ⊢
            rw [if_neg own]
            exact ih rest valid

end MutationBatch

end Bowfolio.Firestore
