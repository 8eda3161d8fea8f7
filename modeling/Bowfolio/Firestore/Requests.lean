import Bowfolio.Firestore.MergeData

/-!
# The requests of the application

The application sends dictionaries of strings and arrays of strings. Parsed by the SDK and
run as mutations they do to the stored objects what the write requests do to the
documents, for one request (`represents_request`) and for any sequence of them.
-/

namespace Bowfolio.Firestore

/-- A stored text. -/
def stringValue (text : String) : FieldValue := .leaf (.scalar (.string text))

/-- The value of the SDK for a value of the application. -/
def leafValue : Bowfolio.FieldValue → LeafValue
  | .string text => .scalar (.string text)
  | .array elements => .array (elements.map stringValue)

/-- A text that the application passes. -/
def userString (text : String) : UserData := .leaf (.scalar (.string text))

/-- What the application passes for a value. -/
def userLeaf : Bowfolio.FieldValue → UserLeaf
  | .string text => .scalar (.string text)
  | .array elements => .array (elements.map userString)

/-- The dictionary of an encoded record. -/
def userDictionary (fields : List (String × Bowfolio.FieldValue)) : List (String × UserData) :=
  fields.map fun field => (field.1, .leaf (userLeaf field.2))

/-- What `updateData` gets for a field. -/
def changeData : FieldChange → UserData
  | .value replacement => .leaf (userLeaf replacement)
  | .arrayUnion elements => .leaf (.arrayUnion (elements.map userString))

/-- A write request with the fields in the order of the dictionary. -/
inductive DocumentRequest where
  | setData (fields : List (String × Bowfolio.FieldValue))
  | mergeData (fields : List (String × Bowfolio.FieldValue))
  | updateData (name : String) (change : FieldChange)

namespace DocumentRequest

/-- The mutations of `FIRDocumentReference`; only an update requires the document. -/
def mutations (key : DocumentKey) : DocumentRequest → Option (List Mutation)
  | .setData fields =>
      (parsedSetData (userDictionary fields)).map fun parsed => parsed.toMutations key .none
  | .mergeData fields =>
      (parsedMergeData (userDictionary fields)).map fun parsed => parsed.toMutations key .none
  | .updateData name change =>
      (parsedUpdateData [(name, changeData change)]).map fun parsed =>
        parsed.toMutations key (.isPresent true)

/-- The request on the documents of the application. -/
def operation : DocumentRequest → DocumentWrite
  | .setData fields => .setData (Document.ofFields fields)
  | .mergeData fields => .mergeData (Document.ofFields fields)
  | .updateData name change => .updateData name change

/-- Names are valid and not repeated; one that is updated has no special characters. -/
def WellNamed : DocumentRequest → Prop
  | .setData fields | .mergeData fields =>
      (fields.map Prod.fst).Nodup ∧ ∀ field ∈ fields, validatePathSegment true field.1
  | .updateData name _ =>
      validatePathSegment true name ∧ FieldPath.fromDotSeparatedString name = some [name]

instance : (request : DocumentRequest) → Decidable request.WellNamed
  | .setData _ | .mergeData _ => inferInstanceAs (Decidable (_ ∧ ∀ field ∈ _, _))
  | .updateData .. => inferInstanceAs (Decidable (_ ∧ _))

end DocumentRequest

/-- A stored object holds the fields of a document and no other. -/
structure Represents (object : ObjectValue) (doc : Document) : Prop where
  sorted : ObjectValue.Sorted object
  fields : ∀ name,
    ObjectValue.get object [name] = (doc name).map fun value => .leaf (leafValue value)

/-! ## Dictionaries of the application -/

section Dictionaries

variable {fields : List (String × Bowfolio.FieldValue)} {object old : ObjectValue}
  {doc : Document} {name : String}

/-- The texts of an array are stored as they are. -/
theorem storedValues_userStrings (elements : List String) :
    storedValues (elements.map userString) = elements.map stringValue := by
  induction elements with
  | nil => rfl
  | cons text elements ih =>
      rw [List.map_cons, storedValues, ih]
      rfl

theorem storedValue_userLeaf (value : Bowfolio.FieldValue) :
    storedValue (.leaf (userLeaf value)) = .leaf (leafValue value) := by
  cases value with
  | string text => rfl
  | array elements =>
      rw [userLeaf, storedValue, storedLeaf, storedValues_userStrings]
      rfl

theorem isMasked_userLeaf (value : Bowfolio.FieldValue) : isMasked (.leaf (userLeaf value)) := by
  cases value <;> rfl

theorem sentinelOperation_userLeaf (value : Bowfolio.FieldValue) :
    sentinelOperation (.leaf (userLeaf value)) = none := by
  cases value <;> rfl

theorem userLeaf_ne_delete (value : Bowfolio.FieldValue) :
    FieldTree.leaf (userLeaf value) ≠ (.leaf .delete : UserData) := by
  cases value <;> exact fun same => UserLeaf.noConfusion (FieldTree.leaf.inj same)

/-- A value of the application is accepted by every write. -/
theorem accepted_userLeaf {source : UserDataSource} (value : Bowfolio.FieldValue) :
    WellFormed source (.leaf (userLeaf value)) := by
  cases value with
  | string text => exact .scalar _
  | array elements =>
      refine .array (.inl rfl) fun entry member => ?_
      obtain ⟨text, _, rfl⟩ := List.mem_map.mp member
      exact .scalar _

/-- The dictionary has the fields of the document. -/
theorem findEntry_userDictionary (fields : List (String × Bowfolio.FieldValue)) (name : String) :
    Collection.findEntry (userDictionary fields) name =
      (Document.ofFields fields name).map fun value => .leaf (userLeaf value) := by
  induction fields with
  | nil => rfl
  | cons field fields ih =>
      rw [userDictionary] at ih ⊢
      rw [List.map_cons, Collection.findEntry_cons, ih, Document.ofFields, Document.ofFields,
        List.lookup_cons]
      by_cases same : name = field.1
      · simp [same]
      · rw [if_neg (Ne.symm same), beq_false_of_ne same]

theorem get_userDictionary (fields : List (String × Bowfolio.FieldValue)) (name : String) :
    (FieldTree.node (userDictionary fields)).get [name] =
      (Document.ofFields fields name).map fun value => .leaf (userLeaf value) := by
  rw [FieldTree.get_node_cons, ← findEntry_userDictionary]
  simp only [FieldTree.get_nil]
  exact Option.bind_fun_some _

/-- A path into such a dictionary has one segment and leads to a value. -/
theorem get_userDictionary_inv {path : FieldPath} {reached : UserData} (nonempty : path ≠ [])
    (found : (FieldTree.node (userDictionary fields)).get path = some reached) :
    ∃ name value, path = [name] ∧ Document.ofFields fields name = some value ∧
      reached = .leaf (userLeaf value) := by
  cases path with
  | nil => exact absurd rfl nonempty
  | cons name below =>
      rw [FieldTree.get_node_cons, findEntry_userDictionary] at found
      obtain ⟨data, there, rest⟩ := Option.bind_eq_some_iff.mp found
      obtain ⟨value, listed, rfl⟩ := Option.map_eq_some_iff.mp there
      cases below with
      | nil => exact ⟨name, value, rfl, listed, (Option.some.inj rest).symm⟩
      | cons => cases rest

/-- Dictionaries with distinct valid names are accepted. -/
theorem wellFormed_userDictionary {source : UserDataSource} (write : source.write)
    (distinct : (fields.map Prod.fst).Nodup)
    (valid : ∀ field ∈ fields, validatePathSegment true field.1) :
    WellFormed source (.node (userDictionary fields)) := by
  refine .dictionary ?_ (fun entry member => ?_) fun entry member => ?_
  · rwa [userDictionary, List.map_map]
  · obtain ⟨field, listed, rfl⟩ := List.mem_map.mp member
    rw [write]
    exact valid field listed
  · obtain ⟨field, _, rfl⟩ := List.mem_map.mp member
    exact accepted_userLeaf field.2

theorem unrelated_singleton {first second : String} (apart : first ≠ second) :
    Mutation.Unrelated [first] [second] := by
  constructor <;> simp [apart, Ne.symm apart]

/-- `setData` stores the fields of the document. -/
theorem represents_setData (distinct : (fields.map Prod.fst).Nodup)
    (valid : ∀ field ∈ fields, validatePathSegment true field.1) (key : DocumentKey) :
    ∃ object, (parsedSetData (userDictionary fields)).map
        (fun parsed => parsed.toMutations key .none) = some [.set key object .none] ∧
      Represents object (Document.ofFields fields) := by
  have wellFormed : WellFormed .set (.node (userDictionary fields)) :=
    wellFormed_userDictionary rfl distinct valid
  obtain ⟨object, after, parsing, sorted, labels, _, transforms⟩ :=
    parseRoot_of_wellFormed wellFormed
  have none : after.fieldTransforms = [] := by
    refine List.eq_nil_iff_forall_not_mem.mpr fun fieldTransform listed => ?_
    obtain ⟨reached, found, operates⟩ :=
      Option.bind_eq_some_iff.mp ((transforms fieldTransform).mp listed)
    by_cases bare : fieldTransform.path = []
    · rw [bare, FieldTree.get_nil] at found
      cases found
      cases operates
    · obtain ⟨_, value, _, _, rfl⟩ := get_userDictionary_inv bare found
      cases (sentinelOperation_userLeaf value).symm.trans operates
  refine ⟨object, ?_, sorted, fun name => ?_⟩
  · rw [parsedSetData, parsing, Option.map_some, Option.map_some, ParsedSetData.toMutations, none]
    rfl
  · have reading := get_userDictionary fields name
    cases stored : Document.ofFields fields name with
    | none =>
        have here := labels [name]
        rw [reading, stored] at here
        exact Option.map_eq_none_iff.mp here
    | some value =>
        rw [stored] at reading
        rw [Option.map_some, ← storedValue_userLeaf]
        exact (get_of_labels sorted labels reading).1 (isMasked_userLeaf value)
          (userLeaf_ne_delete value)

/-- `setData` with merge overlays the fields. -/
theorem represents_mergeData (distinct : (fields.map Prod.fst).Nodup)
    (valid : ∀ field ∈ fields, validatePathSegment true field.1) (key : DocumentKey) :
    ∃ mutations, (parsedMergeData (userDictionary fields)).map
        (fun parsed => parsed.toMutations key .none) = some mutations ∧
      Mutation.Undisturbed mutations ∧
      (∀ mutation ∈ mutations, mutation.key = key ∧ mutation.Sorted) ∧
      ∀ current, (∀ object, current = some object → ObjectValue.Sorted object) →
        ∃ object, Mutation.runAll mutations key current = some object ∧
          ObjectValue.Sorted object ∧
          ∀ name, ObjectValue.get object [name] =
            ((Document.ofFields fields name).map fun value => .leaf (leafValue value)).or
              (ObjectValue.get (current.getD []) [name]) := by
  obtain ⟨parsed, parse, shape⟩ :=
    mergeShape_of_wellFormed (wellFormed_userDictionary rfl distinct valid)
  have issued : ∀ mutation ∈ parsed.toMutations key .none,
      mutation.key = key ∧ mutation.Sorted := by
    intro mutation member
    rw [ParsedSetData.toMutations, if_pos shape.patch, transformMutations] at member
    rcases List.mem_cons.mp member with rfl | transform
    · exact ⟨rfl, shape.sorted⟩
    · split_ifs at transform with bare
      · exact absurd transform List.not_mem_nil
      · cases List.mem_singleton.mp transform
        exact ⟨rfl, trivial⟩
  have mutationsSorted := fun mutation member => (issued mutation member).2
  refine ⟨_, by rw [parse, Option.map_some], shape.undisturbed key .none, issued,
    fun current sorted => ?_⟩
  have oldSorted : ObjectValue.Sorted (current.getD []) := by
    cases current with
    | none => exact ObjectValue.sorted_nil
    | some object => exact sorted object rfl
  have merged := shape.merged ⟨_, rfl⟩ oldSorted
  have run := shape.runAll_toMutations key current
  refine ⟨_, run, Mutation.sorted_runAll mutationsSorted sorted key _ run, fun name => ?_⟩
  have reading := get_userDictionary fields name
  cases stored : Document.ofFields fields name with
  | none =>
      refine merged.rest [name] fun other reached nonempty found _ => ?_
      obtain ⟨otherName, value, rfl, listed, _⟩ := get_userDictionary_inv nonempty found
      refine unrelated_singleton fun same => ?_
      rw [same, stored] at listed
      cases listed
  | some value =>
      rw [stored] at reading
      rw [Option.map_some, Option.some_or, ← storedValue_userLeaf]
      exact merged.value [name] _ (List.cons_ne_nil _ _) reading (isMasked_userLeaf value)
        (userLeaf_ne_delete value)

end Dictionaries

/-! ## Updates -/

section Updates

variable {object : ObjectValue} {doc : Document} {name : String}

/-- Different texts are different values. -/
theorem stringValue_injective : Function.Injective stringValue := by
  intro first second same
  exact Scalar.string.inj (LeafValue.scalar.inj (FieldTree.leaf.inj same))

/-- The SDK unites arrays of texts as the application's model does. -/
theorem applyTo_arrayUnion (represents : Represents object doc) (elements : List String) :
    (TransformOperation.arrayUnion (elements.map stringValue)).applyTo
        (ObjectValue.get object [name]) =
      .leaf (leafValue (.array (arrayUnion (doc.elements name) elements))) := by
  have coerced : TransformOperation.coercedFieldValuesArray (ObjectValue.get object [name]) =
      (doc.elements name).map stringValue := by
    rw [represents.fields, Document.elements]
    rcases doc name with _ | (_ | _) <;> rfl
  rw [TransformOperation.applyTo, coerced, leafValue, arrayUnion_eq_collect,
    ← collect_map stringValue_injective]
  rfl

/-- Writing one field of an object is writing it in the document. -/
theorem represents_update {updated : ObjectValue} (represents : Represents object doc)
    (sorted : ObjectValue.Sorted updated) {value : Bowfolio.FieldValue}
    (written : ObjectValue.get updated [name] = some (.leaf (leafValue value)))
    (others : ∀ other, other ≠ name →
      ObjectValue.get updated [other] = ObjectValue.get object [other]) :
    Represents updated (Function.update doc name (some value)) := by
  refine ⟨sorted, fun other => ?_⟩
  by_cases same : other = name
  · rw [same, written, Function.update_self]
    rfl
  · rw [others other same, represents.fields, Function.update_of_ne same]

/-- The mutations of an update of one field. -/
def updateMutations (key : DocumentKey) (name : String) : FieldChange → List Mutation
  | .value replacement =>
      [.patch key [(name, .leaf (leafValue replacement))] [[name], [name]] (.isPresent true)]
  | .arrayUnion elements =>
      [.patch key [] [] (.isPresent true),
        .transform key [⟨[name], .arrayUnion (elements.map stringValue)⟩]]

/-- The texts of an array are parsed as they are. -/
theorem parseArray_userStrings (context : ParseContext) (elements : List String)
    (accumulator : ParseAccumulator) :
    parseArray context (elements.map userString) accumulator =
      some (elements.map stringValue, accumulator) := by
  induction elements with
  | nil => rfl
  | cons text elements ih =>
      have parsed : parseData context.childElement (userString text) accumulator =
          some (some (stringValue text), accumulator) := rfl
      rw [List.map_cons, parseArray, parsed, Option.bind_some, ih]
      rfl

/-- The texts of a transformation are parsed as they are. -/
theorem parseArrayTransformElements_userStrings (elements : List String) :
    parseArrayTransformElements (elements.map userString) .empty =
      some (elements.map stringValue) := by
  induction elements with
  | nil => rfl
  | cons text elements ih =>
      have parsed : parseData (ParseContext.root .argument).childElement (userString text) .empty =
          some (some (stringValue text), .empty) := rfl
      have bare : ParseAccumulator.empty.fieldTransforms.isEmpty = true := rfl
      rw [List.map_cons, parseArrayTransformElements, parsed, Option.bind_some, Option.bind_some,
        if_pos bare, ih]
      rfl

/-- A value outside of arrays is parsed as it is and goes to the mask. -/
theorem parseData_userLeaf {context : ParseContext} (outside : context.arrayElement = false)
    (value : Bowfolio.FieldValue) (accumulator : ParseAccumulator) :
    parseData context (.leaf (userLeaf value)) accumulator =
      some (some (.leaf (leafValue value)), context.addToFieldMask accumulator) := by
  cases value with
  | string text => rfl
  | array elements =>
      rw [parseData, userLeaf, parseLeaf, outside, Bool.false_and, if_neg Bool.false_ne_true,
        parseArray_userStrings]
      rfl

/-- A well-named update is turned into its mutations. -/
theorem mutations_updateData {change : FieldChange}
    (wellNamed : (DocumentRequest.updateData name change).WellNamed) (key : DocumentKey) :
    (DocumentRequest.updateData name change).mutations key =
      some (updateMutations key name change) := by
  obtain ⟨valid, single⟩ := wellNamed
  have all : [name].all (validatePathSegment true) = true := by simpa using valid
  have child : (ParseContext.root .update).childPath [name] = ⟨.update, some [name], false⟩ := rfl
  cases change with
  | value replacement =>
      have parsed := @parseData_userLeaf ⟨.update, some [name], false⟩ rfl replacement .empty
      rw [DocumentRequest.mutations, parsedUpdateData, changeData, parseUpdates, single,
        Option.bind_some]
      cases replacement <;>
        simp only [userLeaf, all, ↓reduceIte, child] at parsed ⊢ <;>
        rw [parsed] <;> rfl
  | arrayUnion elements =>
      have parsed : parseData ⟨.update, some [name], false⟩
          (.leaf (.arrayUnion (elements.map userString))) .empty =
          some (none, ParseAccumulator.empty.addToFieldTransforms [name]
            (.arrayUnion (elements.map stringValue))) := by
        rw [parseData, parseLeaf, parseArrayTransformElements_userStrings]
        rfl
      rw [DocumentRequest.mutations, parsedUpdateData, changeData, parseUpdates, single,
        Option.bind_some]
      simp only [all, ↓reduceIte, child]
      rw [parsed]
      rfl

theorem sorted_single (name : String) (leaf : LeafValue) :
    ObjectValue.Sorted [(name, .leaf leaf)] :=
  ObjectValue.sorted_nil.set [name] (.atLeaf leaf)

/-- An update leaves the field it transforms to the transformation. -/
theorem undisturbed_updateMutations (key : DocumentKey) (name : String) (change : FieldChange) :
    Mutation.Undisturbed (updateMutations key name change) := by
  cases change with
  | value => exact List.pairwise_singleton _ _
  | arrayUnion elements =>
      refine List.pairwise_cons.mpr ⟨fun later _ _ path _ masked member => ?_,
        List.pairwise_singleton _ _⟩
      exact absurd member List.not_mem_nil

/-- What an update makes of an existing object. -/
def updateObject (name : String) (change : FieldChange) (object : ObjectValue) : ObjectValue :=
  match change with
  | .value replacement =>
      Mutation.patchObject [(name, .leaf (leafValue replacement))] [[name], [name]] object
  | .arrayUnion elements =>
      Mutation.localTransforms [⟨[name], .arrayUnion (elements.map stringValue)⟩] object
        (some object)

/-- The mutations of an update change a present document only. -/
theorem runAll_updateMutations (key : DocumentKey) (name : String) (change : FieldChange)
    (current : Option ObjectValue) :
    Mutation.runAll (updateMutations key name change) key current =
      current.map (updateObject name change) := by
  cases change with
  | value replacement =>
      rw [updateMutations, Mutation.runAll_cons_self (by rfl)]
      cases current <;> rfl
  | arrayUnion elements =>
      rw [updateMutations, Mutation.runAll_cons_self (by rfl), Mutation.runAll_cons_self (by rfl)]
      cases current <;> rfl

/-- An update of an existing document changes its field. -/
theorem represents_updateObject (represents : Represents object doc) (name : String)
    (change : FieldChange) :
    Represents (updateObject name change object)
      (Function.update doc name (some (change.apply doc name))) := by
  cases change with
  | value replacement =>
      have valueSorted := sorted_single name (leafValue replacement)
      refine represents_update represents (represents.sorted.patch valueSorted _) ?_
        fun other apart => ?_
      · refine (FieldTree.get_patch_covered represents.sorted valueSorted
          (.inl ⟨[name], List.mem_cons_self, List.cons_ne_nil _ _, List.prefix_refl _⟩)).trans ?_
        simp [FieldTree.get_node_cons, Collection.findEntry_cons, FieldChange.apply]
      · refine FieldTree.get_patch_of_apart (fun masked member => ?_) _ _
        simp only [List.mem_cons, List.not_mem_nil, or_false, or_self] at member
        exact member ▸ unrelated_singleton (Ne.symm apart)
  | arrayUnion elements =>
      have single : ∀ other ∈ [FieldTransform.mk [name] (.arrayUnion (elements.map stringValue))],
          other = ⟨[name], .arrayUnion (elements.map stringValue)⟩ ∨
            Mutation.Unrelated other.path [name] :=
        fun other member => .inl (List.mem_singleton.mp member)
      refine represents_update represents (Mutation.sorted_localTransforms represents.sorted _ _)
        ?_ fun other apart => ?_
      · refine (Mutation.get_localTransforms_of_mem (List.cons_ne_nil _ _) single
          List.mem_cons_self).trans ?_
        exact congrArg some (applyTo_arrayUnion represents elements)
      · refine Mutation.get_localTransforms_of_unrelated (fun fieldTransform member => ?_) _
        cases List.mem_singleton.mp member
        exact unrelated_singleton (Ne.symm apart)

/-- The mutations of an update are sorted and of its document. -/
theorem mem_updateMutations {key : DocumentKey} {change : FieldChange} {mutation : Mutation}
    (member : mutation ∈ updateMutations key name change) :
    mutation.key = key ∧ mutation.Sorted := by
  cases change with
  | value replacement =>
      cases List.mem_singleton.mp member
      exact ⟨rfl, sorted_single name _⟩
  | arrayUnion elements =>
      rcases List.mem_cons.mp member with rfl | transform
      · exact ⟨rfl, ObjectValue.sorted_nil⟩
      · cases List.mem_singleton.mp transform
        exact ⟨rfl, trivial⟩

end Updates

/-! ## Requests and sequences of requests -/

/-- **One request.** The mutations of a request do to the stored object what the request
does to the document. -/
theorem represents_request {request : DocumentRequest} (wellNamed : request.WellNamed)
    (key : DocumentKey) :
    ∃ mutations, request.mutations key = some mutations ∧ Mutation.Undisturbed mutations ∧
      (∀ mutation ∈ mutations, mutation.key = key ∧ mutation.Sorted) ∧
      ∀ current doc, Option.Rel Represents current doc →
        Option.Rel Represents (Mutation.runAll mutations key current)
          ((request.operation.apply doc).or doc) := by
  cases request with
  | setData fields =>
      obtain ⟨object, parse, represents⟩ := represents_setData wellNamed.1 wellNamed.2 key
      refine ⟨_, parse, List.pairwise_singleton _ _, fun mutation member => ?_,
        fun current doc _ => ?_⟩
      · cases List.mem_singleton.mp member
        exact ⟨rfl, represents.sorted⟩
      · rw [Mutation.runAll_cons_self (by rfl)]
        exact .some represents
  | mergeData fields =>
      obtain ⟨mutations, parse, undisturbed, shape, outcome⟩ :=
        represents_mergeData wellNamed.1 wellNamed.2 key
      refine ⟨mutations, parse, undisturbed, shape, fun current doc represents => ?_⟩
      cases represents with
      | none =>
          obtain ⟨object, run, sorted, reading⟩ := outcome none nofun
          rw [run]
          refine .some ⟨sorted, fun name => ?_⟩
          rw [reading]
          exact Option.or_none
      | @some old doc represents =>
          obtain ⟨object, run, sorted, reading⟩ := outcome (some old) fun object same =>
            Option.some.inj same ▸ represents.sorted
          rw [run]
          refine .some ⟨sorted, fun name => ?_⟩
          rw [reading, Option.getD_some, represents.fields, Document.overlay]
          cases Document.ofFields fields name <;> rfl
  | updateData name change =>
      refine ⟨_, mutations_updateData wellNamed key, undisturbed_updateMutations key name change,
        fun mutation => mem_updateMutations, fun current doc represents => ?_⟩
      rw [runAll_updateMutations]
      cases represents with
      | none => exact .none
      | some represents => exact .some (represents_updateObject represents name change)

/-- A request on a document of a collection. -/
structure AddressedRequest where
  collection : CollectionName
  document : String
  request : DocumentRequest

namespace AddressedRequest

/-- The mutations of the request, when the text names a document. -/
def mutations (addressed : AddressedRequest) : Option (List Mutation) :=
  (CollectionReference.document (collectionPath addressed.collection) addressed.document).bind
    fun key => addressed.request.mutations key

/-- The write request of the application's model. -/
def write (addressed : AddressedRequest) : Write :=
  ⟨addressed.collection, addressed.document, addressed.request.operation⟩

/-- The text is a segment and the names are well-formed. -/
def Valid (addressed : AddressedRequest) : Prop :=
  ResourcePath.Segment addressed.document ∧ addressed.request.WellNamed

end AddressedRequest

/-- Every document of the database is stored under its key. -/
def Stores (stored : DocumentKey → Option ObjectValue) (db : Database) : Prop :=
  ∀ name document key, ResourcePath.Segment document →
    CollectionReference.document (collectionPath name) document = some key →
    Option.Rel Represents (stored key) (db.content name document)

/-- Documents named by segments are the same only for one collection and text. -/
theorem document_unique {name other : CollectionName} {text otherText : String}
    {key : DocumentKey} (segment : ResourcePath.Segment text)
    (otherSegment : ResourcePath.Segment otherText)
    (named : CollectionReference.document (collectionPath name) text = some key)
    (otherNamed : CollectionReference.document (collectionPath other) otherText = some key) :
    other = name ∧ otherText = text := by
  obtain ⟨_, same, path⟩ := document_of_segment name segment
  obtain ⟨_, otherSame, otherPath⟩ := document_of_segment other otherSegment
  cases same.symm.trans named
  cases otherSame.symm.trans otherNamed
  have lengths : (collectionPath other).length = (collectionPath name).length := by
    rw [length_collectionPath, length_collectionPath]
  obtain ⟨sameCollection, sameText⟩ := List.append_inj (otherPath.symm.trans path) lengths
  exact ⟨collectionPath_injective sameCollection, List.singleton_inj.mp sameText⟩

/-- A write that fails leaves the document. -/
theorem content_commit (db : Database) (write : Write) :
    (db.commit write).content write.collection write.document =
      (write.operation.apply (db.content write.collection write.document)).or
        (db.content write.collection write.document) := by
  cases applied : write.operation.apply (db.content write.collection write.document) with
  | none => rw [db.commit_of_failed write applied, Option.none_or]
  | some doc => rw [db.content_commit_self write applied, Option.some_or]

/-- One request of the application, on all documents. -/
theorem stores_request {addressed : AddressedRequest} (valid : addressed.Valid) :
    ∃ mutations, addressed.mutations = some mutations ∧ Mutation.Undisturbed mutations ∧
      (∀ mutation ∈ mutations, mutation.Sorted) ∧
      ∀ stored db, Stores stored db →
        Stores (fun key => Mutation.runAll mutations key (stored key))
          (db.commit addressed.write) := by
  obtain ⟨segment, wellNamed⟩ := valid
  obtain ⟨key, named, _⟩ := document_of_segment addressed.collection segment
  obtain ⟨mutations, issued, undisturbed, shape, outcome⟩ := represents_request wellNamed key
  refine ⟨mutations, by rw [AddressedRequest.mutations, named, Option.bind_some, issued],
    undisturbed, fun mutation member => (shape mutation member).2, fun stored db stores => ?_⟩
  intro name document other otherSegment otherNamed
  by_cases same : other = key
  · subst same
    obtain ⟨rfl, rfl⟩ := document_unique segment otherSegment named otherNamed
    have step := content_commit db addressed.write
    rw [AddressedRequest.write] at step ⊢
    dsimp only at step
    rw [step]
    exact outcome _ _ (stores _ _ _ otherSegment otherNamed)
  · have foreign : ∀ mutation ∈ mutations, mutation.key ≠ other := fun mutation member own =>
      same (own.symm.trans (shape mutation member).1)
    have apart : name ≠ addressed.collection ∨ document ≠ addressed.document := by
      by_contra both
      obtain ⟨sameName, sameText⟩ := not_or.mp both
      rw [not_not.mp sameName, not_not.mp sameText, named] at otherNamed
      exact same (Option.some.inj otherNamed).symm
    dsimp only
    rw [Mutation.runAll_of_foreign foreign, db.content_commit_of_ne addressed.write apart]
    exact stores name document other otherSegment otherNamed

end Bowfolio.Firestore
