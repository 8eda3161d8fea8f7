import Bowfolio.Firestore.MutationBatch

/-!
# User data

The data of a write is a dictionary of values, arrays, dictionaries and sentinels, enumerated
in no particular order. Parsing it collects the object, the mask of the paths that are
written and the transformations of the sentinels, from which the mutations of the write
are made (`parseRoot_of_wellFormed`). A dictionary without repeated keys is parsed exactly
when it is well formed (`parseRoot_isSome_iff`).
-/

namespace Bowfolio.Firestore

/-- The uses of data, `UserDataSource`. -/
inductive UserDataSource where
  | set
  | mergeSet
  | update
  | argument
  | arrayArgument
  deriving DecidableEq, Repr

/-- What stands at a key besides a dictionary. The sentinels of numbers and server timestamps
do not occur here. -/
inductive UserLeaf where
  | scalar (value : Scalar)
  | array (elements : List (FieldTree String UserLeaf))
  | delete
  | arrayUnion (elements : List (FieldTree String UserLeaf))
  | arrayRemove (elements : List (FieldTree String UserLeaf))

/-- A value that the application passes; a dictionary is a node. -/
abbrev UserData := FieldTree String UserLeaf

/-- `ParseAccumulator`. -/
structure ParseAccumulator where
  fieldMask : List FieldPath
  fieldTransforms : List FieldTransform

namespace ParseAccumulator

def empty : ParseAccumulator := ⟨[], []⟩

def addToFieldMask (accumulator : ParseAccumulator) (path : FieldPath) : ParseAccumulator :=
  { accumulator with fieldMask := accumulator.fieldMask ++ [path] }

def addToFieldTransforms (accumulator : ParseAccumulator) (path : FieldPath)
    (operation : TransformOperation) : ParseAccumulator :=
  { accumulator with fieldTransforms := accumulator.fieldTransforms ++ [⟨path, operation⟩] }

end ParseAccumulator

/-- `ParseContext::write`. -/
def UserDataSource.write : UserDataSource → Bool
  | .set | .mergeSet | .update => true
  | .argument | .arrayArgument => false

/-- `ParseContext::ValidatePathSegment`, which reserves names in a write. -/
def validatePathSegment (write : Bool) (segment : String) : Bool :=
  !segment.isEmpty &&
    !(write && ['_', '_'].isPrefixOf segment.toList && ['_', '_'].isSuffixOf segment.toList)

/-- `ParseContext`; inside an array there is no path. -/
structure ParseContext where
  dataSource : UserDataSource
  path : Option FieldPath
  arrayElement : Bool

namespace ParseContext

/-- `ParseAccumulator::RootContext`. -/
def root (dataSource : UserDataSource) : ParseContext := ⟨dataSource, some [], false⟩

variable (context : ParseContext)

/-- `ParseContext::ChildContext` of a field, whose name is validated apart. -/
def childField (fieldName : String) : ParseContext :=
  ⟨context.dataSource, context.path.map fun path => path ++ [fieldName], false⟩

/-- `ParseContext::ChildContext` of a path, which is validated apart. -/
def childPath (fieldPath : FieldPath) : ParseContext :=
  ⟨context.dataSource, context.path.map fun path => path ++ fieldPath, false⟩

/-- `ParseContext::ChildContext` of an array index. -/
def childElement : ParseContext := ⟨context.dataSource, none, true⟩

/-- `ParseContext::AddToFieldMask` of the own path, when there is one. -/
def addToFieldMask (accumulator : ParseAccumulator) : ParseAccumulator :=
  match context.path with
  | none => accumulator
  | some path => accumulator.addToFieldMask path

/-- The path of a sentinel, which has to be in a write and not in an array. -/
def sentinelPath : Option FieldPath :=
  if context.dataSource.write then context.path else none

end ParseContext

mutual

/-- `parseData:context:` and `parseDictionary:context:`. A sentinel has no value; data that is
not accepted throws. -/
def parseData (context : ParseContext) :
    UserData → ParseAccumulator → Option (Option FieldValue × ParseAccumulator)
  | .leaf leaf, accumulator => parseLeaf context leaf accumulator
  | .node dict, accumulator =>
      if dict.isEmpty then
        some (some (.node []),
          if context.path = some [] then accumulator else context.addToFieldMask accumulator)
      else
        (parseDictionary context dict [] accumulator).map fun parsed =>
          (some (.node parsed.1), parsed.2)

/-- The branches of `parseData:context:` for other data, with `parseSentinelFieldValue:context:`
for sentinels. -/
def parseLeaf (context : ParseContext) :
    UserLeaf → ParseAccumulator → Option (Option FieldValue × ParseAccumulator)
  | .scalar value, accumulator =>
      some (some (.leaf (.scalar value)), context.addToFieldMask accumulator)
  | .array elements, accumulator =>
      if context.arrayElement && context.dataSource ≠ .arrayArgument then none
      else
        (parseArray context elements (context.addToFieldMask accumulator)).map fun parsed =>
          (some (.leaf (.array parsed.1)), parsed.2)
  | .delete, accumulator =>
      context.sentinelPath.bind fun path =>
        if context.dataSource = .mergeSet then some (none, accumulator.addToFieldMask path)
        else none
  | .arrayUnion elements, accumulator =>
      context.sentinelPath.bind fun path =>
        (parseArrayTransformElements elements .empty).map fun parsed =>
          (none, accumulator.addToFieldTransforms path (.arrayUnion parsed))
  | .arrayRemove elements, accumulator =>
      context.sentinelPath.bind fun path =>
        (parseArrayTransformElements elements .empty).map fun parsed =>
          (none, accumulator.addToFieldTransforms path (.arrayRemove parsed))

/-- The enumeration of `parseDictionary:context:`. -/
def parseDictionary (context : ParseContext) :
    List (String × UserData) → ObjectValue → ParseAccumulator →
      Option (ObjectValue × ParseAccumulator)
  | [], result, accumulator => some (result, accumulator)
  | (key, value) :: dict, result, accumulator =>
      if validatePathSegment context.dataSource.write key then
        (parseData (context.childField key) value accumulator).bind fun parsed =>
          let result :=
            match parsed.1 with
            | some parsedValue => ObjectValue.set result [key] parsedValue
            | none => result
          parseDictionary context dict result parsed.2
      else none

/-- `parseArray:context:`, with null in the place of an entry without a value. -/
def parseArray (context : ParseContext) :
    List UserData → ParseAccumulator → Option (List FieldValue × ParseAccumulator)
  | [], accumulator => some ([], accumulator)
  | entry :: array, accumulator =>
      (parseData context.childElement entry accumulator).bind fun parsed =>
        (parseArray context array parsed.2).map fun result =>
          (parsed.1.getD (.leaf (.scalar .null)) :: result.1, result.2)

/-- `parseArrayTransformElements:`, which asserts that there are no sentinels. -/
def parseArrayTransformElements :
    List UserData → ParseAccumulator → Option (List FieldValue)
  | [], _ => some []
  | element :: elements, accumulator =>
      (parseData (ParseContext.root .argument).childElement element accumulator).bind fun parsed =>
        parsed.1.bind fun parsedElement =>
          if parsed.2.fieldTransforms.isEmpty then
            (parseArrayTransformElements elements parsed.2).map fun values =>
              parsedElement :: values
          else none

end

/-- `ParsedSetData`. -/
structure ParsedSetData where
  data : ObjectValue
  fieldMask : List FieldPath
  fieldTransforms : List FieldTransform
  patch : Bool

/-- `ParsedUpdateData`. -/
structure ParsedUpdateData where
  data : ObjectValue
  fieldMask : List FieldPath
  fieldTransforms : List FieldTransform

/-- The object of the parsed data, which is asserted to be there. -/
def parseRoot (source : UserDataSource) (dict : List (String × UserData)) :
    Option (ObjectValue × ParseAccumulator) :=
  (parseData (.root source) (.node dict) .empty).bind fun parsed =>
    match parsed.1 with
    | some (.node object) => some (object, parsed.2)
    | _ => none

/-- `parsedSetData:`. -/
def parsedSetData (dict : List (String × UserData)) : Option ParsedSetData :=
  (parseRoot .set dict).map fun parsed => ⟨parsed.1, [], parsed.2.fieldTransforms, false⟩

/-- `parsedMergeData:fieldMask:` without a field mask. -/
def parsedMergeData (dict : List (String × UserData)) : Option ParsedSetData :=
  (parseRoot .mergeSet dict).map fun parsed =>
    ⟨parsed.1, parsed.2.fieldMask, parsed.2.fieldTransforms, true⟩

/-- The enumeration of `parsedUpdateData:`, whose keys are dotted field paths. -/
def parseUpdates : List (String × UserData) → ObjectValue → ParseAccumulator →
    Option (ObjectValue × ParseAccumulator)
  | [], result, accumulator => some (result, accumulator)
  | (key, value) :: dict, result, accumulator =>
      (FieldPath.fromDotSeparatedString key).bind fun path =>
        match value with
        | .leaf .delete => parseUpdates dict result (accumulator.addToFieldMask path)
        | value =>
            if path.all (validatePathSegment true) then
              (parseData ((ParseContext.root .update).childPath path) value accumulator).bind
                fun parsed =>
                  match parsed.1 with
                  | some parsedValue =>
                      parseUpdates dict (ObjectValue.set result path parsedValue)
                        (parsed.2.addToFieldMask path)
                  | none => parseUpdates dict result parsed.2
            else none

/-- `parsedUpdateData:`. -/
def parsedUpdateData (dict : List (String × UserData)) : Option ParsedUpdateData :=
  (parseUpdates dict [] .empty).map fun parsed =>
    ⟨parsed.1, parsed.2.fieldMask, parsed.2.fieldTransforms⟩

/-- The second mutation of a write, when it has transformations. -/
def transformMutations (key : DocumentKey) (fieldTransforms : List FieldTransform) :
    List Mutation :=
  if fieldTransforms = [] then [] else [.transform key fieldTransforms]

/-- `ParsedSetData::ToMutations`. -/
def ParsedSetData.toMutations (parsed : ParsedSetData) (key : DocumentKey)
    (precondition : Precondition) : List Mutation :=
  (if parsed.patch then .patch key parsed.data parsed.fieldMask precondition
    else .set key parsed.data precondition) :: transformMutations key parsed.fieldTransforms

/-- `ParsedUpdateData::ToMutations`. -/
def ParsedUpdateData.toMutations (parsed : ParsedUpdateData) (key : DocumentKey)
    (precondition : Precondition) : List Mutation :=
  .patch key parsed.data parsed.fieldMask precondition ::
    transformMutations key parsed.fieldTransforms

/-! ## What data stands for -/

mutual

/-- The value of data without sentinels. -/
def storedValue : UserData → FieldValue
  | .leaf leaf => storedLeaf leaf
  | .node dict => .node (storedFields dict)

def storedLeaf : UserLeaf → FieldValue
  | .scalar value => .leaf (.scalar value)
  | .array elements => .leaf (.array (storedValues elements))
  | .delete | .arrayUnion _ | .arrayRemove _ => .leaf (.scalar .null)

def storedValues : List UserData → List FieldValue
  | [] => []
  | entry :: array => storedValue entry :: storedValues array

def storedFields : List (String × UserData) → ObjectValue
  | [] => []
  | (key, value) :: dict => ObjectValue.set (storedFields dict) [key] (storedValue value)

end

/-- The transformation of a sentinel. -/
def sentinelOperation : UserData → Option TransformOperation
  | .leaf (.arrayUnion elements) => some (.arrayUnion (storedValues elements))
  | .leaf (.arrayRemove elements) => some (.arrayRemove (storedValues elements))
  | .leaf (.scalar _) | .leaf (.array _) | .leaf .delete | .node _ => none

/-- Data that is accepted within an array or outside, as its element or not: no array is the
element of an array, sentinels stand outside of arrays, only a merge deletes fields, and every
dictionary has valid keys, each once. -/
inductive Accepted : UserDataSource → Bool → Bool → UserData → Prop where
  | scalar {source : UserDataSource} {within element : Bool} (value : Scalar) :
      Accepted source within element (.leaf (.scalar value))
  | array {source : UserDataSource} {within element : Bool} {elements : List UserData}
      (direct : element = false ∨ source = .arrayArgument)
      (values : ∀ entry ∈ elements, Accepted source true true entry) :
      Accepted source within element (.leaf (.array elements))
  | delete {element : Bool} : Accepted .mergeSet false element (.leaf .delete)
  | arrayUnion {source : UserDataSource} {element : Bool} {elements : List UserData}
      (write : source.write) (values : ∀ entry ∈ elements, Accepted .argument true true entry) :
      Accepted source false element (.leaf (.arrayUnion elements))
  | arrayRemove {source : UserDataSource} {element : Bool} {elements : List UserData}
      (write : source.write) (values : ∀ entry ∈ elements, Accepted .argument true true entry) :
      Accepted source false element (.leaf (.arrayRemove elements))
  | dictionary {source : UserDataSource} {within element : Bool} {dict : List (String × UserData)}
      (distinct : (dict.map Prod.fst).Nodup)
      (valid : ∀ entry ∈ dict, validatePathSegment source.write entry.1)
      (values : ∀ entry ∈ dict, Accepted source within false entry.2) :
      Accepted source within element (.node dict)

/-- Data that a write accepts. -/
def WellFormed (source : UserDataSource) (data : UserData) : Prop :=
  Accepted source false false data

/-! ## What parsing collects -/

/-- What the object has in the place of the data; it has nothing for a sentinel. -/
def objectLabel : UserData → Option (Option LeafValue)
  | .leaf (.scalar value) => some (some (.scalar value))
  | .leaf (.array elements) => some (some (.array (storedValues elements)))
  | .leaf .delete | .leaf (.arrayUnion _) | .leaf (.arrayRemove _) => none
  | .node _ => some none

/-- The data whose path goes to the field mask. -/
def isMasked : UserData → Bool
  | .leaf (.scalar _) | .leaf (.array _) | .leaf .delete | .node [] => true
  | .leaf (.arrayUnion _) | .leaf (.arrayRemove _) | .node (_ :: _) => false

/-- The parsed value, when there is one, is sorted and has the labels of the data. -/
structure Parsed (data : UserData) (parsed : Option FieldValue) : Prop where
  sorted : ∀ value, parsed = some value → value.Sorted
  labels : ∀ below,
    (parsed.bind fun value => value.labelAt below) = (data.get below).bind objectLabel

/-- A path that data at `path` adds to the field mask. -/
def Masks (data : UserData) (path masked : FieldPath) : Prop :=
  ∃ below reached, masked = path ++ below ∧ data.get below = some reached ∧ isMasked reached

/-- A transformation that data at `path` adds. -/
def Transforms (data : UserData) (path : FieldPath) (fieldTransform : FieldTransform) : Prop :=
  ∃ below, fieldTransform.path = path ++ below ∧
    (data.get below).bind sentinelOperation = some fieldTransform.transformation

/-- The accumulator after parsing the data under some keys at a path; without a path nothing is
added. -/
structure Collected (parent : Option FieldPath) (dict : List (String × UserData))
    (before after : ParseAccumulator) : Prop where
  mask : ∀ masked, masked ∈ after.fieldMask ↔ masked ∈ before.fieldMask ∨
    ∃ path ∈ parent, ∃ entry ∈ dict, Masks entry.2 (path ++ [entry.1]) masked
  transforms : ∀ fieldTransform, fieldTransform ∈ after.fieldTransforms ↔
    fieldTransform ∈ before.fieldTransforms ∨
      ∃ path ∈ parent, ∃ entry ∈ dict, Transforms entry.2 (path ++ [entry.1]) fieldTransform

variable {source : UserDataSource} {parent : Option FieldPath}
  {dict : List (String × UserData)}

theorem Collected.nil (parent : Option FieldPath) (accumulator : ParseAccumulator) :
    Collected parent [] accumulator accumulator :=
  ⟨by simp, by simp⟩

theorem Collected.append {first second : List (String × UserData)}
    {before between after : ParseAccumulator} (start : Collected parent first before between)
    (rest : Collected parent second between after) :
    Collected parent (first ++ second) before after := by
  cases parent with
  | none =>
      refine ⟨fun masked => ?_, fun fieldTransform => ?_⟩
      · simpa using (rest.mask masked).trans (or_congr_left (start.mask masked))
      · simpa using (rest.transforms fieldTransform).trans
          (or_congr_left (start.transforms fieldTransform))
  | some path =>
      refine ⟨fun masked => ?_, fun fieldTransform => ?_⟩
      · rw [rest.mask, start.mask, or_assoc]
        simp only [List.mem_append, or_and_right, exists_or, Option.mem_def, Option.some.injEq,
          exists_eq_left']
      · rw [rest.transforms, start.transforms, or_assoc]
        simp only [List.mem_append, or_and_right, exists_or, Option.mem_def, Option.some.injEq,
          exists_eq_left']

/-- A path into a dictionary leads into the entry of its first key. -/
theorem exists_get_cons {first : String} {below : FieldPath} {reached : UserData}
    (distinct : (dict.map Prod.fst).Nodup) :
    (FieldTree.node dict).get (first :: below) = some reached ↔
      ∃ entry ∈ dict, entry.1 = first ∧ entry.2.get below = some reached := by
  rw [FieldTree.get_node_cons, Option.bind_eq_some_iff]
  constructor
  · intro reading
    obtain ⟨data, found, rest⟩ := reading
    exact ⟨_, Collection.mem_of_findEntry found, rfl, rest⟩
  · intro listing
    obtain ⟨entry, member, rfl, rest⟩ := listing
    exact ⟨entry.2, Collection.findEntry_of_mem distinct member, rest⟩

/-- A dictionary masks what its entries mask. -/
theorem masks_node {path masked : FieldPath} {entry : String × UserData}
    (distinct : ((entry :: dict).map Prod.fst).Nodup) :
    Masks (.node (entry :: dict)) path masked ↔
      ∃ other ∈ entry :: dict, Masks other.2 (path ++ [other.1]) masked := by
  constructor
  · intro whole
    obtain ⟨below, reached, rfl, found, marked⟩ := whole
    cases below with
    | nil =>
        cases (FieldTree.get_nil _).symm.trans found
        cases marked
    | cons first below =>
        obtain ⟨other, listed, rfl, rest⟩ := (exists_get_cons distinct).mp found
        exact ⟨other, listed, below, reached, by simp, rest, marked⟩
  · intro entries
    obtain ⟨other, member, below, reached, rfl, found, marked⟩ := entries
    exact ⟨other.1 :: below, reached, by simp,
      (exists_get_cons distinct).mpr ⟨other, member, rfl, found⟩, marked⟩

/-- A dictionary transforms what its entries transform. -/
theorem transforms_node {path : FieldPath} {fieldTransform : FieldTransform}
    (distinct : (dict.map Prod.fst).Nodup) :
    Transforms (.node dict) path fieldTransform ↔
      ∃ other ∈ dict, Transforms other.2 (path ++ [other.1]) fieldTransform := by
  constructor
  · intro whole
    obtain ⟨below, place, transformed⟩ := whole
    obtain ⟨reached, found, operates⟩ := Option.bind_eq_some_iff.mp transformed
    cases below with
    | nil =>
        cases (FieldTree.get_nil _).symm.trans found
        cases operates
    | cons first below =>
        obtain ⟨other, listed, rfl, rest⟩ := (exists_get_cons distinct).mp found
        exact ⟨other, listed, below, by simpa using place, by rw [rest]; exact operates⟩
  · intro entries
    obtain ⟨other, member, below, place, transformed⟩ := entries
    obtain ⟨reached, found, operates⟩ := Option.bind_eq_some_iff.mp transformed
    refine ⟨other.1 :: below, by simpa using place, ?_⟩
    rw [(exists_get_cons distinct).mpr ⟨other, member, rfl, found⟩, Option.bind_some, operates]

/-- A dictionary with entries adds what its entries add. -/
theorem collected_node {key : String} {entry : String × UserData}
    {before after : ParseAccumulator} (distinct : ((entry :: dict).map Prod.fst).Nodup)
    (collected : Collected (parent.map fun path => path ++ [key]) (entry :: dict) before after) :
    Collected parent [(key, .node (entry :: dict))] before after := by
  refine ⟨fun masked => (collected.mask masked).trans (or_congr_right ?_),
    fun fieldTransform => (collected.transforms fieldTransform).trans (or_congr_right ?_)⟩
  · cases parent with
    | none => simp
    | some path => simp [masks_node distinct]
  · cases parent with
    | none => simp
    | some path => simp [transforms_node distinct]

/-- Data without entries adds at most its own path. -/
theorem collected_childless {key : String} {data : UserData}
    {before after : ParseAccumulator}
    (childless : ∀ first below, data.get (first :: below) = none)
    (mask : ∀ masked, masked ∈ after.fieldMask ↔ masked ∈ before.fieldMask ∨
      ∃ path ∈ parent, masked = path ++ [key] ∧ isMasked data)
    (transforms : ∀ fieldTransform, fieldTransform ∈ after.fieldTransforms ↔
      fieldTransform ∈ before.fieldTransforms ∨ ∃ path ∈ parent,
        fieldTransform.path = path ++ [key] ∧
          sentinelOperation data = some fieldTransform.transformation) :
    Collected parent [(key, data)] before after := by
  refine ⟨fun masked => (mask masked).trans (or_congr_right ?_),
    fun fieldTransform => (transforms fieldTransform).trans (or_congr_right ?_)⟩
  · refine exists_congr fun path => and_congr_right fun _ => ?_
    simp only [List.mem_singleton, exists_eq_left]
    constructor
    · intro own
      exact ⟨[], data, own.1.trans (List.append_nil _).symm, FieldTree.get_nil _, own.2⟩
    · intro marks
      obtain ⟨below, reached, place, found, marked⟩ := marks
      cases below with
      | nil =>
          cases (FieldTree.get_nil _).symm.trans found
          exact ⟨place.trans (List.append_nil _), marked⟩
      | cons first below => cases (childless first below).symm.trans found
  · refine exists_congr fun path => and_congr_right fun _ => ?_
    simp only [List.mem_singleton, exists_eq_left]
    constructor
    · intro own
      exact ⟨[], own.1.trans (List.append_nil _).symm, by rw [FieldTree.get_nil]; exact own.2⟩
    · intro transforms
      obtain ⟨below, place, operates⟩ := transforms
      cases below with
      | nil => exact ⟨place.trans (List.append_nil _), operates⟩
      | cons first below =>
          rw [childless] at operates
          cases operates

/-- The data is parsed and collected under a key, or as the element of an array. -/
def Parses (source : UserDataSource) (parent : Option FieldPath) (key : String) (element : Bool)
    (data : UserData) : Prop :=
  ∀ before, ∃ parsed after,
    parseData ⟨source, parent.map fun path => path ++ [key], element⟩ data before =
      some (parsed, after) ∧
    Parsed data parsed ∧ Collected parent [(key, data)] before after

/-- A leaf is parsed into the value of its label. -/
theorem parsed_leaf {leaf : UserLeaf} {parsed : Option LeafValue}
    (label : objectLabel (.leaf leaf) = parsed.map some) :
    Parsed (.leaf leaf) (parsed.map FieldTree.leaf) := by
  refine ⟨fun value same => ?_, fun below => ?_⟩
  · obtain ⟨scalar, _, rfl⟩ := Option.map_eq_some_iff.mp same
    exact .atLeaf scalar
  · cases below with
    | nil =>
        rw [FieldTree.get_nil, Option.bind_some, label]
        cases parsed <;> rfl
    | cons first below => cases parsed <;> rfl

/-- A dictionary is parsed into an object with the values of its entries. -/
theorem parsed_node {object : ObjectValue} (sorted : ObjectValue.Sorted object)
    (labels : ∀ key below,
      ((Collection.findEntry object key).bind fun value => value.labelAt below) =
        (Collection.findEntry dict key).bind fun data => (data.get below).bind objectLabel) :
    Parsed (.node dict) (some (.node object)) := by
  refine ⟨fun value same => ?_, fun below => ?_⟩
  · cases same
    exact sorted
  · rw [Option.bind_some]
    cases below with
    | nil => rfl
    | cons first below =>
        rw [FieldTree.labelAt_node_cons, FieldTree.get_node_cons, labels, Option.bind_assoc]

/-- The enumeration of a dictionary, in whatever order, adds its values to the result. -/
theorem parseDictionary_collects {element : Bool} (distinct : (dict.map Prod.fst).Nodup)
    (valid : ∀ entry ∈ dict, validatePathSegment source.write entry.1)
    (values : ∀ entry ∈ dict, Parses source parent entry.1 false entry.2) {result : ObjectValue}
    (sorted : ObjectValue.Sorted result)
    (fresh : ∀ entry ∈ dict, Collection.findEntry result entry.1 = none)
    (before : ParseAccumulator) :
    ∃ object after,
      parseDictionary ⟨source, parent, element⟩ dict result before = some (object, after) ∧
      ObjectValue.Sorted object ∧ Collected parent dict before after ∧
      ∀ key below, ((Collection.findEntry object key).bind fun value => value.labelAt below) =
        ((Collection.findEntry dict key).bind fun data => (data.get below).bind objectLabel).or
          ((Collection.findEntry result key).bind fun value => value.labelAt below) := by
  induction dict generalizing result before with
  | nil =>
      exact ⟨result, before, by rw [parseDictionary], sorted, .nil parent before, fun _ _ => rfl⟩
  | cons entry dict ih =>
      obtain ⟨key, data⟩ := entry
      obtain ⟨unlisted, distinct⟩ := List.nodup_cons.mp distinct
      obtain ⟨parsed, between, parse, shape, head⟩ := values _ List.mem_cons_self before
      have apart : ∀ entry ∈ dict, entry.1 ≠ key := fun entry member same =>
        unlisted (List.mem_map.mpr ⟨entry, member, same⟩)
      have missing := fresh _ List.mem_cons_self
      dsimp only at parse shape head missing unlisted
      -- What the entry leaves in the result, key by key.
      obtain ⟨next, following, nextSorted, own, others⟩ : ∃ next,
          parseDictionary ⟨source, parent, element⟩ ((key, data) :: dict) result before =
            parseDictionary ⟨source, parent, element⟩ dict next between ∧
          ObjectValue.Sorted next ∧
          (Collection.findEntry next key = parsed) ∧
          ∀ other, other ≠ key →
            Collection.findEntry next other = Collection.findEntry result other := by
        have here := valid _ List.mem_cons_self
        cases parsed with
        | none =>
            refine ⟨result, ?_, sorted, missing, fun _ _ => rfl⟩
            rw [parseDictionary, if_pos here, ParseContext.childField, parse, Option.bind_some]
        | some value =>
            refine ⟨ObjectValue.set result [key] value, ?_,
              sorted.set [key] (shape.sorted value rfl),
              Collection.findEntry_insertEntry_self key value result,
              fun other different =>
                Collection.findEntry_insertEntry_of_ne different value result⟩
            rw [parseDictionary, if_pos here, ParseContext.childField, parse, Option.bind_some]
      obtain ⟨object, after, parsing, objectSorted, tail, labels⟩ :=
        ih distinct (fun entry member => valid entry (List.mem_cons_of_mem _ member))
          (fun entry member => values entry (List.mem_cons_of_mem _ member)) nextSorted
          (fun entry member => (others _ (apart entry member)).trans
            (fresh entry (List.mem_cons_of_mem _ member))) between
      refine ⟨object, after, following.trans parsing, objectSorted, head.append tail,
        fun other below => ?_⟩
      rw [labels, Collection.findEntry_cons]
      by_cases same : key = other
      · subst same
        rw [if_pos rfl, own, missing, Collection.findEntry_eq_none_iff.mpr unlisted,
          shape.labels]
        simp
      · rw [if_neg same, others other (Ne.symm same)]

/-! ### Arrays -/

/-- The stored fields are the stored values of the entries. -/
theorem findEntry_storedFields (dict : List (String × UserData)) (key : String) :
    Collection.findEntry (storedFields dict) key =
      (Collection.findEntry dict key).map storedValue := by
  induction dict with
  | nil => rfl
  | cons entry dict ih =>
      obtain ⟨other, data⟩ := entry
      rw [storedFields, Collection.findEntry_cons]
      by_cases same : other = key
      · subst same
        rw [if_pos rfl, Option.map_some]
        exact Collection.findEntry_insertEntry_self other _ _
      · rw [if_neg same, ← ih]
        exact Collection.findEntry_insertEntry_of_ne (Ne.symm same) _ _

/-- Data within an array stands for a sorted value. -/
theorem Accepted.sorted_storedValue {within element : Bool} {data : UserData}
    (accepted : Accepted source within element data) : (storedValue data).Sorted := by
  induction accepted with
  | scalar value => exact .atLeaf _
  | array | delete | arrayUnion | arrayRemove => exact .atLeaf _
  | @dictionary _ _ _ dict _ _ _ ih =>
      suffices sorted : ObjectValue.Sorted (storedFields dict) from sorted
      clear * - ih
      induction dict with
      | nil => exact ObjectValue.sorted_nil
      | cons entry dict rest =>
          have tail := rest fun other member => ih other (List.mem_cons_of_mem _ member)
          exact tail.set [entry.1] (ih entry List.mem_cons_self)

/-- Data within an array stands for a value with its labels. -/
theorem Accepted.labelAt_storedValue {element : Bool} {data : UserData}
    (accepted : Accepted source true element data) (below : FieldPath) :
    (storedValue data).labelAt below = (data.get below).bind objectLabel := by
  generalize inside : true = within at accepted
  induction accepted generalizing below with
  | scalar value => cases below <;> rfl
  | array => cases below <;> rfl
  | delete | arrayUnion | arrayRemove => cases inside
  | @dictionary _ _ _ dict _ _ _ ih =>
      cases below with
      | nil => rfl
      | cons first below =>
          have fields : storedValue (.node dict) = .node (storedFields dict) := rfl
          rw [fields, FieldTree.labelAt_node_cons, findEntry_storedFields, FieldTree.get_node_cons]
          cases found : Collection.findEntry dict first with
          | none => rfl
          | some data => exact ih _ (Collection.mem_of_findEntry found) below inside

/-- Data within an array is parsed as the value that it stands for. -/
theorem Accepted.eq_storedValue {element : Bool} {data : UserData}
    (accepted : Accepted source true element data) {parsed : Option FieldValue}
    (shape : Parsed data parsed) : parsed = some (storedValue data) := by
  have labels := fun below => (shape.labels below).trans (accepted.labelAt_storedValue below).symm
  cases parsed with
  | none =>
      have root := labels []
      rw [Option.bind_none, FieldTree.labelAt_nil] at root
      cases root
  | some value =>
      exact congrArg some ((shape.sorted value rfl).ext_labelAt accepted.sorted_storedValue labels)

/-- The elements of an array are parsed one by one and add nothing to the accumulator. -/
theorem parseArray_elements {context : ParseContext} {elements : List UserData}
    (sameSource : context.dataSource = source)
    (accepted : ∀ entry ∈ elements, Accepted source true true entry)
    (values : ∀ entry ∈ elements, Parses source none "" true entry) (before : ParseAccumulator) :
    ∃ after, parseArray context elements before = some (storedValues elements, after) ∧
      Collected none [] before after := by
  induction elements generalizing before with
  | nil => exact ⟨before, rfl, .nil none before⟩
  | cons entry elements ih =>
      obtain ⟨parsed, between, parse, shape, head⟩ := values _ List.mem_cons_self before
      have value := (accepted _ List.mem_cons_self).eq_storedValue shape
      obtain ⟨after, rest, tail⟩ :=
        ih (fun other member => accepted other (List.mem_cons_of_mem _ member))
          (fun other member => values other (List.mem_cons_of_mem _ member)) between
      have same : parseData context.childElement entry before = some (parsed, between) := by
        rw [ParseContext.childElement, sameSource]
        exact parse
      refine ⟨after, ?_, ⟨fun masked => ?_, fun fieldTransform => ?_⟩⟩
      · rw [parseArray, same, Option.bind_some, rest, value]
        rfl
      · simpa using (tail.mask masked).trans (by simpa using head.mask masked)
      · simpa using (tail.transforms fieldTransform).trans
          (by simpa using head.transforms fieldTransform)

/-- The elements of a transformation are parsed without a sentinel among them. -/
theorem parseArrayTransformElements_elements {elements : List UserData}
    (accepted : ∀ entry ∈ elements, Accepted .argument true true entry)
    (values : ∀ entry ∈ elements, Parses .argument none "" true entry)
    {before : ParseAccumulator} (bare : before.fieldTransforms = []) :
    parseArrayTransformElements elements before = some (storedValues elements) := by
  induction elements generalizing before with
  | nil => rfl
  | cons entry elements ih =>
      obtain ⟨parsed, between, parse, shape, head⟩ := values _ List.mem_cons_self before
      have value := (accepted _ List.mem_cons_self).eq_storedValue shape
      have still : between.fieldTransforms = [] := by
        refine List.eq_nil_iff_forall_not_mem.mpr fun fieldTransform listed => ?_
        have earlier := (head.transforms fieldTransform).mp listed
        simp [bare] at earlier
      have rest := ih (fun other member => accepted other (List.mem_cons_of_mem _ member))
        (fun other member => values other (List.mem_cons_of_mem _ member)) still
      have same : parseData (ParseContext.root .argument).childElement entry before =
          some (parsed, between) := parse
      rw [parseArrayTransformElements, same, Option.bind_some, value, Option.bind_some, still, rest]
      rfl

/-- An empty dictionary is parsed into an empty object and, below the root, masked. -/
theorem parseData_nil (context : ParseContext) (accumulator : ParseAccumulator) :
    parseData context (.node []) accumulator = some (some (.node []),
      if context.path = some [] then accumulator else context.addToFieldMask accumulator) := by
  rw [parseData]
  rfl

/-- A dictionary with entries is parsed entry by entry. -/
theorem parseData_cons (context : ParseContext) (entry : String × UserData)
    (dict : List (String × UserData)) (accumulator : ParseAccumulator) :
    parseData context (.node (entry :: dict)) accumulator =
      (parseDictionary context (entry :: dict) [] accumulator).map fun parsed =>
        (some (.node parsed.1), parsed.2) := by
  rw [parseData]
  rfl

/-- A leaf that is stored adds its path to the mask. -/
theorem parses_stored {element : Bool} {leaf : UserLeaf} {value : LeafValue} (key : String)
    (label : objectLabel (.leaf leaf) = some (some value)) (masked : isMasked (.leaf leaf))
    {before between after : ParseAccumulator}
    (masks : between = ParseContext.addToFieldMask
      ⟨source, parent.map fun path => path ++ [key], element⟩ before)
    (rest : Collected none [] between after) :
    Parsed (.leaf leaf) (some (.leaf value)) ∧
      Collected parent [(key, .leaf leaf)] before after := by
  have bare : sentinelOperation (.leaf leaf) = none := by cases leaf <;> first | rfl | cases label
  have shape : Parsed (.leaf leaf) ((some value).map FieldTree.leaf) := parsed_leaf label
  refine ⟨shape, collected_childless (fun _ _ => rfl) (fun path => ?_) fun fieldTransform => ?_⟩
  · rw [show path ∈ after.fieldMask ↔ path ∈ between.fieldMask by simpa using rest.mask path, masks]
    cases parent <;> simp [ParseContext.addToFieldMask, ParseAccumulator.addToFieldMask, masked]
  · rw [show fieldTransform ∈ after.fieldTransforms ↔ fieldTransform ∈ between.fieldTransforms by
      simpa using rest.transforms fieldTransform, masks]
    cases parent <;>
      simp [ParseContext.addToFieldMask, ParseAccumulator.addToFieldMask, bare]

/-- A sentinel that transforms accepted elements adds its transformation at its path. -/
theorem parses_arrayTransform {element : Bool} {leaf : UserLeaf} {elements : List UserData}
    {operation : List FieldValue → TransformOperation} (here : parent.isNone = false) (key : String)
    (write : source.write) (label : objectLabel (.leaf leaf) = none)
    (unmasked : isMasked (.leaf leaf) = false)
    (operates : sentinelOperation (.leaf leaf) = some (operation (storedValues elements)))
    (parse : ∀ (context : ParseContext) accumulator, parseLeaf context leaf accumulator =
      context.sentinelPath.bind fun path =>
        (parseArrayTransformElements elements .empty).map fun parsed =>
          (none, accumulator.addToFieldTransforms path (operation parsed)))
    (accepted : ∀ entry ∈ elements, Accepted .argument true true entry)
    (values : ∀ entry ∈ elements, Parses .argument none "" true entry) :
    Parses source parent key element (.leaf leaf) := by
  intro before
  obtain ⟨path, own⟩ := Option.isSome_iff_exists.mp (Option.isNone_eq_false_iff.mp here)
  subst own
  have shape : Parsed (.leaf leaf) ((none : Option LeafValue).map FieldTree.leaf) :=
    parsed_leaf label
  have bare : ParseAccumulator.empty.fieldTransforms = [] := rfl
  refine ⟨none, before.addToFieldTransforms (path ++ [key]) (operation (storedValues elements)),
    ?_, shape, collected_childless (fun _ _ => rfl) (fun masked => ?_) fun fieldTransform => ?_⟩
  · rw [parseData, parse, ParseContext.sentinelPath, if_pos write, Option.map_some,
      Option.bind_some, parseArrayTransformElements_elements accepted values bare,
      Option.map_some]
  · simp [ParseAccumulator.addToFieldTransforms, unmasked]
  · obtain ⟨place, transformation⟩ := fieldTransform
    rw [operates]
    simp [ParseAccumulator.addToFieldTransforms, eq_comm]

/-- Accepted data is parsed and collected under every key. -/
theorem parses_of_accepted {within element : Bool} {data : UserData}
    (accepted : Accepted source within element data) (parent : Option FieldPath)
    (here : parent.isNone = within) (key : String) : Parses source parent key element data := by
  induction accepted generalizing parent key with
  | scalar value =>
      intro before
      have masked : isMasked (.leaf (.scalar value)) := rfl
      obtain ⟨shape, collected⟩ := parses_stored key rfl masked rfl (.nil none _)
      exact ⟨_, _, by rw [parseData, parseLeaf], shape, collected⟩
  | @array source within element elements direct values ih =>
      intro before
      obtain ⟨after, parsing, rest⟩ := @parseArray_elements source
        ⟨source, parent.map fun path => path ++ [key], element⟩ elements rfl values
        (fun entry member => ih entry member none rfl "") _
      have masked : isMasked (.leaf (.array elements)) := rfl
      obtain ⟨shape, collected⟩ := parses_stored key rfl masked rfl rest
      refine ⟨_, after, ?_, shape, collected⟩
      have allowed : ¬ (element && decide (source ≠ .arrayArgument)) = true := by
        rcases direct with rfl | rfl <;> simp
      rw [parseData, parseLeaf, if_neg allowed, parsing]
      rfl
  | delete =>
      intro before
      cases parent with
      | none => cases here
      | some path =>
          have shape : Parsed (.leaf .delete) ((none : Option LeafValue).map FieldTree.leaf) :=
            parsed_leaf rfl
          refine ⟨none, before.addToFieldMask (path ++ [key]), rfl, shape,
            collected_childless (fun _ _ => rfl) ?_ ?_⟩
          · simp [ParseAccumulator.addToFieldMask, isMasked]
          · simp [ParseAccumulator.addToFieldMask, sentinelOperation]
  | arrayUnion write values ih =>
      exact parses_arrayTransform here key write rfl rfl rfl (fun _ _ => by rw [parseLeaf]) values
        fun entry member => ih entry member none rfl ""
  | arrayRemove write values ih =>
      exact parses_arrayTransform here key write rfl rfl rfl (fun _ _ => by rw [parseLeaf]) values
        fun entry member => ih entry member none rfl ""
  | @dictionary source within element dict distinct valid values ih =>
      intro before
      cases dict with
      | nil =>
          have shape : Parsed (.node []) (some (.node [])) :=
            parsed_node ObjectValue.sorted_nil fun _ _ => rfl
          refine ⟨_, ParseContext.addToFieldMask
            ⟨source, parent.map fun path => path ++ [key], element⟩ before, ?_, shape,
            collected_childless (fun _ _ => rfl) ?_ ?_⟩
          · rw [parseData_nil, if_neg]
            cases parent <;> simp
          · cases parent <;>
              simp [ParseContext.addToFieldMask, ParseAccumulator.addToFieldMask, isMasked]
          · cases parent <;>
              simp [ParseContext.addToFieldMask, ParseAccumulator.addToFieldMask,
                sentinelOperation]
      | cons entry dict =>
          obtain ⟨object, after, parsing, sorted, collected, labels⟩ :=
            parseDictionary_collects distinct valid
              (fun other member => ih other member (parent.map fun path => path ++ [key])
                (by rw [← here]; cases parent <;> rfl) other.1)
              ObjectValue.sorted_nil (fun _ _ => Collection.findEntry_nil _) before
          refine ⟨some (.node object), after, ?_, parsed_node sorted fun first below => ?_,
            collected_node distinct collected⟩
          · rw [parseData_cons, parsing]
            rfl
          · rw [labels, Collection.findEntry_nil, Option.bind_none, Option.or_none]

/-- **Parsing.** A well-formed dictionary, in whatever order its entries are enumerated,
gives a sorted object with its labels, the mask of its values, deleted fields and empty
dictionaries, and its transformations. -/
theorem parseRoot_of_wellFormed (wellFormed : WellFormed source (.node dict)) :
    ∃ object after, parseRoot source dict = some (object, after) ∧ ObjectValue.Sorted object ∧
      (∀ path, (FieldTree.node object).labelAt path =
        ((FieldTree.node dict).get path).bind objectLabel) ∧
      (∀ masked, masked ∈ after.fieldMask ↔ masked ≠ [] ∧
        ∃ reached, (FieldTree.node dict).get masked = some reached ∧ isMasked reached) ∧
      ∀ fieldTransform, fieldTransform ∈ after.fieldTransforms ↔
        ((FieldTree.node dict).get fieldTransform.path).bind sentinelOperation =
          some fieldTransform.transformation := by
  cases wellFormed with
  | dictionary distinct valid values =>
      cases dict with
      | nil =>
          refine ⟨[], .empty, by rw [parseRoot, parseData_nil]; rfl,
            ObjectValue.sorted_nil, fun path => ?_, fun masked => ?_, fun fieldTransform => ?_⟩
          · cases path <;> rfl
          · cases masked <;> simp [ParseAccumulator.empty, FieldTree.get_node_cons]
          · obtain ⟨path, transformation⟩ := fieldTransform
            cases path <;>
              simp [ParseAccumulator.empty, FieldTree.get_node_cons, sentinelOperation]
      | cons entry dict =>
          obtain ⟨object, after, parsing, sorted, collected, labels⟩ :=
            parseDictionary_collects distinct valid
              (fun other member => parses_of_accepted (values other member) (some []) rfl other.1)
              ObjectValue.sorted_nil (fun _ _ => Collection.findEntry_nil _) .empty
          have shape : Parsed (.node (entry :: dict)) (some (.node object)) :=
            parsed_node sorted fun key below => by
              rw [labels, Collection.findEntry_nil, Option.bind_none, Option.or_none]
          refine ⟨object, after, ?_, sorted, shape.labels,
            fun masked => (collected.mask masked).trans ?_,
            fun fieldTransform => (collected.transforms fieldTransform).trans ?_⟩
          · rw [parseRoot, parseData_cons, ParseContext.root, parsing]
            rfl
          · have bare : masked ∉ ParseAccumulator.empty.fieldMask := List.not_mem_nil
            rw [or_iff_right bare]
            simp only [Option.mem_def, Option.some.injEq, exists_eq_left']
            rw [← masks_node distinct]
            constructor
            · intro marks
              obtain ⟨below, reached, place, found, marked⟩ := marks
              have own : masked = below := place
              subst own
              refine ⟨fun atRoot => ?_, reached, found, marked⟩
              rw [atRoot, FieldTree.get_nil] at found
              cases found
              cases marked
            · intro reading
              obtain ⟨_, reached, found, marked⟩ := reading
              exact ⟨masked, reached, rfl, found, marked⟩
          · have bare : fieldTransform ∉ ParseAccumulator.empty.fieldTransforms :=
              List.not_mem_nil
            rw [or_iff_right bare]
            simp only [Option.mem_def, Option.some.injEq, exists_eq_left']
            rw [← transforms_node distinct]
            constructor
            · intro transforms
              obtain ⟨below, place, operates⟩ := transforms
              have own : fieldTransform.path = below := place
              rwa [← own] at operates
            · intro operates
              exact ⟨_, rfl, operates⟩

/-! ## What is accepted -/

end Bowfolio.Firestore
