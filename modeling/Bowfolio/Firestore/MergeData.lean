import Bowfolio.Firestore.UserData

/-!
# Merging dictionaries

`setData` with merge turns a dictionary into a patch and, for its sentinels, a
transformation. On every document the two write what the dictionary has at each of its
paths, in the local view as on the remote document, and leave the other paths alone.
-/

namespace Bowfolio.Firestore

variable {dict : List (String × UserData)}

/-- `new` has what the data says at each of its ends, and what `old` has elsewhere. -/
structure Merged (data : UserData) (old new : ObjectValue) : Prop where
  value : ∀ path reached, path ≠ [] → data.get path = some reached → isMasked reached →
    reached ≠ .leaf .delete → ObjectValue.get new path = some (storedValue reached)
  delete : ∀ path, data.get path = some (.leaf .delete) → ObjectValue.get new path = none
  transform : ∀ path operation, (data.get path).bind sentinelOperation = some operation →
    ObjectValue.get new path = some (operation.applyTo (ObjectValue.get old path))
  rest : ∀ path, (∀ other reached, other ≠ [] → data.get other = some reached →
    reached.isEnd → Mutation.Unrelated other path) →
      ObjectValue.get new path = ObjectValue.get old path

/-- Nothing lies below the data that goes into the field mask. -/
theorem isEnd_of_isMasked {data : UserData} (masked : isMasked data) : data.isEnd := by
  match data with
  | .leaf _ => rfl
  | .node [] => rfl
  | .node (_ :: _) => cases masked

/-- A transformation stands at a leaf that is not masked. -/
theorem leaf_of_sentinelOperation {data : UserData} {operation : TransformOperation}
    (operates : sentinelOperation data = some operation) :
    (∃ leaf, data = .leaf leaf) ∧ isMasked data = false := by
  match data with
  | .leaf (.scalar _) | .leaf (.array _) | .leaf .delete | .node _ => cases operates
  | .leaf (.arrayUnion _) | .leaf (.arrayRemove _) => exact ⟨⟨_, rfl⟩, rfl⟩

/-- Different ends of a tree are unrelated. -/
theorem unrelated_of_isEnd {data first second : UserData} {path other : FieldPath}
    (found : data.get path = some first) (otherFound : data.get other = some second)
    (ends : first.isEnd) (otherEnds : second.isEnd) (apart : path ≠ other) :
    Mutation.Unrelated path other := by
  refine ⟨fun below => apart ?_, fun above => apart ?_⟩
  · exact FieldTree.eq_of_isEnd found ends below (Option.isSome_of_eq_some otherFound)
  · exact (FieldTree.eq_of_isEnd otherFound otherEnds above (Option.isSome_of_eq_some found)).symm

/-- A masked path of the object leads to what the data there stands for. -/
theorem get_of_labels {object : ObjectValue} (sorted : ObjectValue.Sorted object)
    {data reached : UserData}
    (labels : ∀ path, (FieldTree.node object).labelAt path = (data.get path).bind objectLabel)
    {path : FieldPath} (found : data.get path = some reached) :
    (isMasked reached → reached ≠ .leaf .delete →
        ObjectValue.get object path = some (storedValue reached)) ∧
      (reached = .leaf .delete → ObjectValue.get object path = none) := by
  have here := labels path
  rw [found, Option.bind_some] at here
  have ofLeaf : ∀ {leaf : LeafValue}, objectLabel reached = some (some leaf) →
      ObjectValue.get object path = some (.leaf leaf) := by
    intro leaf label
    rw [label] at here
    obtain ⟨child, reading, same⟩ := Option.map_eq_some_iff.mp here
    cases child with
    | leaf value =>
        cases same
        exact reading
    | node => cases same
  refine ⟨fun masked kept => ?_, fun same => ?_⟩
  · match reached with
    | .leaf (.scalar value) => exact ofLeaf rfl
    | .leaf (.array elements) => exact ofLeaf rfl
    | .leaf .delete => exact absurd rfl kept
    | .leaf (.arrayUnion elements) => cases masked
    | .leaf (.arrayRemove elements) => cases masked
    | .node (_ :: _) => cases masked
    | .node [] =>
        obtain ⟨child, reading, _⟩ := Option.map_eq_some_iff.mp here
        -- Nothing stands below the path, so the map there is empty.
        have empty : child = .node [] := by
          apply (FieldTree.Sorted.get sorted reading).ext_labelAt ObjectValue.sorted_nil
          intro below
          have further := labels (path ++ below)
          rw [FieldTree.labelAt_append, FieldTree.get_append, reading, found, Option.bind_some,
            Option.bind_some] at further
          cases below with
          | nil => exact further
          | cons first below => exact further
        rw [empty] at reading
        exact reading
  · rw [same] at here
    exact Option.map_eq_none_iff.mp here

/-- The transformations read the fields they started from. -/
theorem runAll_transformMutations (key : DocumentKey) (fieldTransforms : List FieldTransform)
    (data : ObjectValue) :
    Mutation.runAll (transformMutations key fieldTransforms) key (some data) =
      some (Mutation.localTransforms fieldTransforms data (some data)) := by
  unfold transformMutations
  split
  · next bare => rw [bare]; rfl
  · rw [Mutation.runAll_cons_self (by rfl)]
    rfl

/-- What the parsed merge of a well-formed dictionary has at its ends. -/
structure MergeShape (data : UserData) (parsed : ParsedSetData) : Prop where
  patch : parsed.patch = true
  sorted : ObjectValue.Sorted parsed.data
  labels : ∀ path, (FieldTree.node parsed.data).labelAt path = (data.get path).bind objectLabel
  mask : ∀ masked, masked ∈ parsed.fieldMask ↔ masked ≠ [] ∧
    ∃ reached, data.get masked = some reached ∧ isMasked reached
  transforms : ∀ fieldTransform, fieldTransform ∈ parsed.fieldTransforms ↔
    (data.get fieldTransform.path).bind sentinelOperation = some fieldTransform.transformation

/-- Well formed data is parsed into a patch of its shape. -/
theorem mergeShape_of_wellFormed (wellFormed : WellFormed .mergeSet (.node dict)) :
    ∃ parsed, parsedMergeData dict = some parsed ∧ MergeShape (.node dict) parsed := by
  obtain ⟨object, after, parsing, sorted, labels, mask, transforms⟩ :=
    parseRoot_of_wellFormed wellFormed
  exact ⟨⟨object, after.fieldMask, after.fieldTransforms, true⟩,
    by rw [parsedMergeData, parsing]; rfl, rfl, sorted, labels, mask, transforms⟩

namespace MergeShape

variable {data : UserData} {parsed : ParsedSetData}

/-- The path of a transformation is unrelated to the other ends of the data. -/
theorem unrelated_transform (shape : MergeShape data parsed) {fieldTransform : FieldTransform}
    (listed : fieldTransform ∈ parsed.fieldTransforms) {path : FieldPath} {reached : UserData}
    (found : data.get path = some reached) (ends : reached.isEnd)
    (apart : path ≠ fieldTransform.path) : Mutation.Unrelated path fieldTransform.path := by
  obtain ⟨sentinel, there, operates⟩ :=
    Option.bind_eq_some_iff.mp ((shape.transforms fieldTransform).mp listed)
  obtain ⟨⟨leaf, rfl⟩, _⟩ := leaf_of_sentinelOperation operates
  exact unrelated_of_isEnd found there ends rfl apart

/-- The mask and the transformations stay apart. -/
theorem unrelated_masked (shape : MergeShape data parsed) {fieldTransform : FieldTransform}
    (listed : fieldTransform ∈ parsed.fieldTransforms) {masked : FieldPath}
    (member : masked ∈ parsed.fieldMask) : Mutation.Unrelated masked fieldTransform.path := by
  obtain ⟨_, reached, found, marked⟩ := (shape.mask masked).mp member
  refine shape.unrelated_transform listed found (isEnd_of_isMasked marked) fun same => ?_
  have operates := (shape.transforms fieldTransform).mp listed
  rw [← same, found, Option.bind_some] at operates
  exact Bool.false_ne_true ((leaf_of_sentinelOperation operates).2.symm.trans marked)

/-- The patch leaves the transformed fields to the transformation. -/
theorem undisturbed (shape : MergeShape data parsed) (key : DocumentKey)
    (precondition : Precondition) :
    Mutation.Undisturbed (parsed.toMutations key precondition) := by
  rw [ParsedSetData.toMutations, if_pos shape.patch, transformMutations]
  refine List.pairwise_cons.mpr ⟨fun later member _ path transformed => ?_, ?_⟩
  · split_ifs at member with bare
    · exact absurd member List.not_mem_nil
    · cases List.mem_singleton.mp member
      obtain ⟨fieldTransform, listed, rfl⟩ := List.mem_map.mp transformed
      exact fun masked => shape.unrelated_masked listed
  · split_ifs
    · exact List.Pairwise.nil
    · exact List.pairwise_singleton _ _

/-- The object after the patch and the transformations. -/
def outcome (parsed : ParsedSetData) (old : ObjectValue) : ObjectValue :=
  let patched := Mutation.patchObject parsed.data parsed.fieldMask old
  Mutation.localTransforms parsed.fieldTransforms patched (some patched)

/-- The mutations of the data have its outcome on every document. -/
theorem runAll_toMutations (shape : MergeShape data parsed) (key : DocumentKey)
    (current : Option ObjectValue) :
    Mutation.runAll (parsed.toMutations key .none) key current =
      some (outcome parsed (current.getD [])) := by
  rw [ParsedSetData.toMutations, if_pos shape.patch, Mutation.runAll_cons_self (by rfl)]
  exact runAll_transformMutations key _ _

/-- The masked paths have the parsed values. -/
theorem get_outcome_masked (shape : MergeShape data parsed) {old : ObjectValue}
    (oldSorted : ObjectValue.Sorted old) {path : FieldPath} {reached : UserData}
    (nonempty : path ≠ []) (found : data.get path = some reached) (marked : isMasked reached) :
    ObjectValue.get (outcome parsed old) path = ObjectValue.get parsed.data path := by
  have member := (shape.mask path).mpr ⟨nonempty, reached, found, marked⟩
  rw [outcome, Mutation.get_localTransforms_of_unrelated fun fieldTransform listed =>
    (shape.unrelated_masked listed member).symm]
  exact FieldTree.get_patch_covered oldSorted shape.sorted
    (.inl ⟨path, member, nonempty, List.prefix_refl path⟩)

/-- The outcome merges the data into the old document. -/
theorem merged (shape : MergeShape data parsed) (dictionary : ∃ dict, data = .node dict)
    {old : ObjectValue} (oldSorted : ObjectValue.Sorted old) :
    Merged data old (outcome parsed old) := by
  have below : ∀ {path leaf}, data.get path = some (.leaf leaf) → path ≠ [] := by
    intro path leaf found bare
    obtain ⟨dict, rfl⟩ := dictionary
    rw [bare] at found
    cases (FieldTree.get_nil _).symm.trans found
  refine ⟨fun path reached nonempty found masked kept => ?_, fun path found => ?_,
    fun path operation transformed => ?_, fun path unrelated => ?_⟩
  · rw [shape.get_outcome_masked oldSorted nonempty found masked]
    exact (get_of_labels shape.sorted shape.labels found).1 masked kept
  · rw [shape.get_outcome_masked oldSorted (below found) found rfl]
    exact (get_of_labels shape.sorted shape.labels found).2 rfl
  · have listed := (shape.transforms ⟨path, operation⟩).mpr transformed
    obtain ⟨reached, found, operates⟩ := Option.bind_eq_some_iff.mp transformed
    obtain ⟨⟨leaf, rfl⟩, _⟩ := leaf_of_sentinelOperation operates
    have before : ObjectValue.get
        (Mutation.patchObject parsed.data parsed.fieldMask old) path = ObjectValue.get old path :=
      FieldTree.get_patch_of_apart (fun masked => shape.unrelated_masked listed) _ old
    rw [outcome, Mutation.get_localTransforms_of_mem (below found) ?_ listed, before]
    intro other otherListed
    have own := (shape.transforms other).mp otherListed
    by_cases same : other.path = path
    · rw [same, transformed] at own
      refine .inl ?_
      cases other
      cases same
      cases own
      rfl
    · obtain ⟨sentinel, there, otherOperates⟩ := Option.bind_eq_some_iff.mp own
      obtain ⟨⟨_, rfl⟩, _⟩ := leaf_of_sentinelOperation otherOperates
      exact .inr (shape.unrelated_transform listed there rfl same)
  · rw [outcome, Mutation.get_localTransforms_of_unrelated fun fieldTransform listed => ?_]
    · refine FieldTree.get_patch_of_apart (fun masked member => ?_) _ old
      obtain ⟨nonempty, reached, found, marked⟩ := (shape.mask masked).mp member
      exact unrelated masked reached nonempty found (isEnd_of_isMasked marked)
    · obtain ⟨reached, found, operates⟩ :=
        Option.bind_eq_some_iff.mp ((shape.transforms fieldTransform).mp listed)
      obtain ⟨⟨_, rfl⟩, _⟩ := leaf_of_sentinelOperation operates
      exact unrelated _ _ (below found) found rfl

end MergeShape

end Bowfolio.Firestore
