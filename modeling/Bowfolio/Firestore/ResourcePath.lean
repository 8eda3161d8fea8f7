import Mathlib.Data.List.Infix
import Mathlib.Data.List.Lex
import Mathlib.Data.String.Basic
import Bowfolio.Firestore.Document

/-!
# Resource paths and document keys

A document is addressed by a path of an even number of segments. The application names
documents by texts below a collection; the text is read as a path, so slashes count. It
names a document exactly when no two slashes follow each other and the slashes leave an
odd number of segments, and two texts name one document exactly when they leave the same
segments below the same collection (`document_addresses`).
-/

namespace Bowfolio.Firestore

/-- The segments of a `ResourcePath`. -/
abbrev ResourcePath := List String

/-- `DocumentKey`, whose constructor asserts `IsDocumentKey`. -/
structure DocumentKey where
  path : ResourcePath
  isDocumentKey : path.length % 2 = 0
  deriving DecidableEq

namespace DocumentKey

/-- A key is determined by its path. -/
theorem path_injective : Function.Injective DocumentKey.path := by
  intro first second same
  cases first
  cases second
  cases same
  rfl

/-- `DocumentKey::CompareTo`: keys are compared as their paths are. -/
instance : LinearOrder DocumentKey := LinearOrder.lift' DocumentKey.path path_injective

end DocumentKey

namespace ResourcePath

/-- The text has two slashes in a row. -/
def Doubled (path : String) : Prop :=
  ['/', '/'] <:+: path.toList

instance (path : String) : Decidable (Doubled path) :=
  inferInstanceAs (Decidable (_ <:+: _))

/-- The nonempty pieces between the slashes of a text. -/
def segments (path : String) : ResourcePath :=
  ((path.toList.splitOn '/').filter fun segment => !segment.isEmpty).map String.ofList

/-- `ResourcePath::FromString`, which asserts that the text has no empty inner segment
and skips an empty one at either end. -/
def fromString (path : String) : Option ResourcePath :=
  if Doubled path then none else some (segments path)

/-- `ResourcePath::CanonicalString`. -/
def canonicalString (path : ResourcePath) : String :=
  String.ofList (['/'].intercalate (path.map String.toList))

/-- `BasePath::IsImmediateParentOf`. -/
def isImmediateParentOf (path potentialChild : ResourcePath) : Bool :=
  path.length + 1 = potentialChild.length && path.isPrefixOf potentialChild

end ResourcePath

/-- `DocumentKey::FromPathString`, whose constructor asserts that the path is a document's. -/
def DocumentKey.fromPathString (path : String) : Option DocumentKey :=
  (ResourcePath.fromString path).bind fun path =>
    if even : path.length % 2 = 0 then some ⟨path, even⟩ else none

/-- `CollectionReference::Document`; a path of an odd number of segments is refused. -/
def CollectionReference.document (path : ResourcePath) (documentPath : String) :
    Option DocumentKey :=
  (ResourcePath.fromString documentPath).bind fun subPath =>
    if even : (path ++ subPath).length % 2 = 0 then some ⟨path ++ subPath, even⟩ else none

/-- The paths of the three collections. -/
def collectionPath : CollectionName → ResourcePath
  | .users => ["users"]
  | .profiles => ["profiles"]
  | .projects => ["projects"]

/-- Different collections have different paths. -/
theorem collectionPath_injective : Function.Injective collectionPath := by
  intro first second same
  cases first <;> cases second <;> first | rfl | exact absurd same (by decide)

theorem length_collectionPath (name : CollectionName) : (collectionPath name).length = 1 := by
  cases name <;> rfl

namespace ResourcePath

/-- A segment that a text can carry. -/
def Segment (segment : String) : Prop :=
  segment ≠ "" ∧ '/' ∉ segment.toList

instance (segment : String) : Decidable (Segment segment) :=
  inferInstanceAs (Decidable (_ ∧ _))

variable {text other : String} {path : ResourcePath}

/-! ## Splitting at the slashes -/

/-- A piece between separators has no separator. -/
theorem not_mem_of_mem_splitOn {chars piece : List Char} {separator : Char}
    (member : piece ∈ chars.splitOn separator) : separator ∉ piece := by
  induction chars generalizing piece with
  | nil =>
      rw [List.splitOn_nil, List.mem_singleton] at member
      exact member ▸ List.not_mem_nil
  | cons c chars ih =>
      rw [List.splitOn_cons_eq_if_modifyHead] at member
      by_cases same : c = separator
      · simp only [same, BEq.rfl, ↓reduceIte, List.mem_cons] at member
        rcases member with rfl | later
        · exact List.not_mem_nil
        · exact ih later
      · simp only [beq_iff_eq, same, ↓reduceIte] at member
        cases pieces : chars.splitOn separator with
        | nil => exact absurd pieces (List.splitOn_ne_nil _ _)
        | cons head rest =>
            rw [pieces, List.modifyHead_cons] at member
            rcases List.mem_cons.mp member with rfl | later
            · have headApart := ih (pieces ▸ List.mem_cons_self)
              rw [List.mem_cons]
              exact not_or.mpr ⟨Ne.symm same, headApart⟩
            · exact ih (pieces ▸ List.mem_cons_of_mem _ later)

/-- Two slashes in a row enclose an empty piece, which is neither the first nor the last. -/
theorem splitOn_of_infix {chars : List Char} (doubled : ['/', '/'] <:+: chars) :
    ∃ front back, chars.splitOn '/' = front ++ [] :: back ∧ front ≠ [] ∧ back ≠ [] := by
  obtain ⟨before, after, rfl⟩ := doubled
  have shape : before ++ ['/', '/'] ++ after = before ++ '/' :: ([] ++ '/' :: after) := by simp
  refine ⟨before.splitOn '/', after.splitOn '/', ?_, List.splitOn_ne_nil _ _,
    List.splitOn_ne_nil _ _⟩
  rw [shape, List.splitOn_append_cons_self,
    List.splitOn_append_cons_self_of_not_mem List.not_mem_nil]

/-- The segments of an accepted text are not empty and free of slashes. -/
theorem segment_of_fromString (accepted : fromString text = some path) :
    ∀ segment ∈ path, Segment segment := by
  obtain ⟨_, same⟩ := Option.ite_none_left_eq_some.mp accepted
  obtain rfl := Option.some.inj same
  intro segment member
  obtain ⟨piece, kept, rfl⟩ := List.mem_map.mp member
  obtain ⟨listed, nonempty⟩ := List.mem_filter.mp kept
  refine ⟨fun empty => ?_, ?_⟩
  · rw [String.ofList_inj.mp (empty : _ = String.ofList [])] at nonempty
    exact absurd nonempty (by decide)
  · rw [String.toList_ofList]
    exact not_mem_of_mem_splitOn listed

/-- The canonical text of a path of segments is read back. -/
theorem fromString_of_segments (segments : ∀ segment ∈ path, Segment segment) :
    fromString (canonicalString path) = some path := by
  have pieces : ((['/'].intercalate (path.map String.toList)).splitOn '/').filter
      (fun piece => !piece.isEmpty) = path.map String.toList := by
    cases path with
    | nil => rfl
    | cons first path =>
        rw [List.splitOn_intercalate '/' ?_ (by simp)]
        · refine List.filter_eq_self.mpr fun piece member => ?_
          obtain ⟨segment, listed, rfl⟩ := List.mem_map.mp member
          simpa using (segments segment listed).1
        · intro piece member
          obtain ⟨segment, listed, rfl⟩ := List.mem_map.mp member
          exact (segments segment listed).2
  have single : ¬ Doubled (canonicalString path) := by
    rw [Doubled, canonicalString, String.toList_ofList]
    intro doubled
    cases path with
    | nil => exact absurd doubled (by decide)
    | cons first path =>
        obtain ⟨front, back, empty, _⟩ := splitOn_of_infix doubled
        rw [List.splitOn_intercalate '/' ?_ (by simp)] at empty
        · obtain ⟨segment, listed, same⟩ :=
            List.mem_map.mp (empty ▸ List.mem_append_right _ List.mem_cons_self)
          exact (segments segment listed).1 (String.toList_eq_nil_iff.mp same)
        · intro piece member
          obtain ⟨segment, listed, rfl⟩ := List.mem_map.mp member
          exact (segments segment listed).2
  rw [fromString, if_neg single, ResourcePath.segments, canonicalString, String.toList_ofList,
    pieces, List.map_map]
  simp [Function.comp_def]

/-- Exactly the paths of segments are read back from their canonical text. -/
theorem fromString_canonicalString_iff :
    fromString (canonicalString path) = some path ↔ ∀ segment ∈ path, Segment segment :=
  ⟨segment_of_fromString, fromString_of_segments⟩

/-- A segment is parsed into the path of itself. -/
theorem fromString_of_segment (segment : Segment text) : fromString text = some [text] := by
  have canonical : canonicalString [text] = text := by
    rw [canonicalString, List.map_singleton, List.intercalate_singleton, String.ofList_toList]
  have read : fromString (canonicalString [text]) = some [text] :=
    fromString_of_segments (by simpa using segment)
  rwa [canonical] at read

/-- Slashes around a segment are skipped. -/
theorem fromString_slashes (segment : Segment text) :
    fromString ("/" ++ text ++ "/") = some [text] := by
  obtain ⟨nonempty, noSlash⟩ := segment
  have chars : ("/" ++ text ++ "/").toList = [] ++ '/' :: (text.toList ++ '/' :: []) := by
    simp [String.toList_append]
  have pieces : ("/" ++ text ++ "/").toList.splitOn '/' = [[], text.toList, []] := by
    rw [chars, List.splitOn_append_cons_self_of_not_mem List.not_mem_nil,
      List.splitOn_append_cons_self_of_not_mem noSlash, List.splitOn_nil]
  have single : ¬ Doubled ("/" ++ text ++ "/") := by
    intro doubled
    obtain ⟨front, back, empty, notFirst, notLast⟩ := splitOn_of_infix doubled
    rw [pieces] at empty
    match front with
    | [] => exact notFirst rfl
    | [_] => exact nonempty (String.toList_eq_nil_iff.mp (List.cons.inj (List.cons.inj empty).2).1)
    | [_, _] => exact notLast (List.cons.inj (List.cons.inj (List.cons.inj empty).2).2).2.symm
    | _ :: _ :: _ :: _ => simp at empty
  rw [fromString, if_neg single, segments, pieces]
  simp [nonempty]

end ResourcePath

/-! ## Documents of the application -/

section Documents

open ResourcePath

variable {collection : ResourcePath} {text : String} {key : DocumentKey}

/-- A text names the document at its parsed path below the collection. -/
theorem document_eq_some_iff :
    CollectionReference.document collection text = some key ↔
      ∃ subPath, fromString text = some subPath ∧ key.path = collection ++ subPath := by
  rw [CollectionReference.document, Option.bind_eq_some_iff]
  refine exists_congr fun subPath => and_congr_right fun _ => ?_
  constructor
  · intro accepted
    obtain ⟨even, same⟩ := Option.dite_none_right_eq_some.mp accepted
    cases Option.some.inj same
    rfl
  · intro same
    have even : (collection ++ subPath).length % 2 = 0 := same ▸ key.isDocumentKey
    rw [dif_pos even]
    exact congrArg some (DocumentKey.path_injective same.symm)

/-- The immediate children of a path have one more segment. -/
theorem isImmediateParentOf_iff {path child : ResourcePath} :
    path.isImmediateParentOf child ↔ ∃ segment, child = path ++ [segment] := by
  rw [isImmediateParentOf, Bool.and_eq_true, decide_eq_true_iff, List.isPrefixOf_iff_prefix]
  constructor
  · intro parent
    obtain ⟨longer, rest, rfl⟩ := parent
    rw [List.length_append, Nat.add_left_cancel_iff] at longer
    obtain ⟨segment, rfl⟩ := List.length_eq_one_iff.mp longer.symm
    exact ⟨segment, rfl⟩
  · intro child
    obtain ⟨segment, rfl⟩ := child
    exact ⟨by simp, List.prefix_append _ _⟩

/-- A segment names a document directly below an application collection. -/
theorem document_of_segment (name : CollectionName) (segment : Segment text) :
    ∃ key, CollectionReference.document (collectionPath name) text = some key ∧
      key.path = collectionPath name ++ [text] := by
  have even : (collectionPath name ++ [text]).length % 2 = 0 := by
    rw [List.length_append, length_collectionPath, List.length_singleton]
  exact ⟨⟨_, even⟩, document_eq_some_iff.mpr ⟨_, fromString_of_segment segment, rfl⟩, rfl⟩

/-- A text that is read names a document when it has an odd number of segments. -/
theorem document_isSome_iff (name : CollectionName) :
    (CollectionReference.document (collectionPath name) text).isSome ↔
      ¬ Doubled text ∧ (segments text).length % 2 = 1 := by
  have lengths : (collectionPath name ++ segments text).length = 1 + (segments text).length := by
    rw [List.length_append, length_collectionPath]
  rw [CollectionReference.document, fromString]
  by_cases doubled : Doubled text
  · simp [doubled]
  · rw [if_neg doubled, Option.bind_some]
    split_ifs with even
    · exact iff_of_true rfl ⟨doubled, by omega⟩
    · refine iff_of_false Bool.false_ne_true fun odd => even ?_
      omega

/-- The key of a document is the path of the collection and the segments of its text. -/
theorem path_of_document (named : CollectionReference.document collection text = some key) :
    key.path = collection ++ segments text := by
  obtain ⟨subPath, accepted, path⟩ := document_eq_some_iff.mp named
  obtain ⟨_, same⟩ := Option.ite_none_left_eq_some.mp accepted
  rw [path, ← Option.some.inj same]

/-- A key of segments is read back from the canonical text of its path. -/
theorem fromPathString_canonicalString (plain : ∀ segment ∈ key.path, Segment segment) :
    DocumentKey.fromPathString key.path.canonicalString = some key := by
  rw [DocumentKey.fromPathString, fromString_canonicalString_iff.mpr plain, Option.bind_some,
    dif_pos key.isDocumentKey]

/-- The paths of the application's documents have segments only. -/
theorem segment_of_document (name : CollectionName)
    (named : CollectionReference.document (collectionPath name) text = some key) :
    ∀ segment ∈ key.path, Segment segment := by
  obtain ⟨subPath, accepted, path⟩ := document_eq_some_iff.mp named
  intro segment member
  rw [path] at member
  rcases List.mem_append.mp member with collection | below
  · cases name <;> rw [List.mem_singleton.mp collection] <;> decide
  · exact segment_of_fromString accepted segment below

/-- Texts below the collections name one document exactly when they have one collection
and the same segments. -/
theorem document_eq_iff {name other : CollectionName} {others : String} (plain : ¬ Doubled others)
    (named : CollectionReference.document (collectionPath name) text = some key) :
    CollectionReference.document (collectionPath other) others = some key ↔
      other = name ∧ segments others = segments text := by
  have path := path_of_document named
  constructor
  · intro again
    have paths := (path_of_document again).symm.trans path
    have lengths : (collectionPath other).length = (collectionPath name).length := by
      rw [length_collectionPath, length_collectionPath]
    obtain ⟨sameCollection, same⟩ := List.append_inj paths lengths
    exact ⟨collectionPath_injective sameCollection, same⟩
  · rintro ⟨rfl, same⟩
    apply document_eq_some_iff.mpr
    exact ⟨segments others, if_neg plain, same ▸ path⟩

/-- **Addressing.** A text names a document below a collection exactly when no two slashes
follow each other in it and it has an odd number of segments. The key is the path of the
collection and these segments, and is read back from its canonical text; it lies directly
in the collection when there is one segment. Another text has the same key exactly when it
has the same segments below the same collection, and a nonempty text without slashes is
its only segment, with or without slashes around it. -/
theorem document_addresses (name : CollectionName) (text : String) :
    ((CollectionReference.document (collectionPath name) text).isSome ↔
      ¬ Doubled text ∧ (segments text).length % 2 = 1) ∧
    (∀ key, CollectionReference.document (collectionPath name) text = some key →
      key.path = collectionPath name ++ segments text ∧
      DocumentKey.fromPathString key.path.canonicalString = some key ∧
      ((collectionPath name).isImmediateParentOf key.path ↔ (segments text).length = 1) ∧
      ∀ other others, ¬ Doubled others →
        (CollectionReference.document (collectionPath other) others = some key ↔
          other = name ∧ segments others = segments text)) ∧
    (Segment text → segments text = [text] ∧ segments ("/" ++ text ++ "/") = [text]) := by
  refine ⟨document_isSome_iff name, fun key named => ⟨path_of_document named,
    fromPathString_canonicalString (segment_of_document name named), ?_,
    fun other others plain => document_eq_iff plain named⟩, fun segment => ⟨?_, ?_⟩⟩
  · rw [isImmediateParentOf_iff, path_of_document named, List.length_eq_one_iff]
    exact exists_congr fun segment => List.append_right_inj _
  · have accepted := fromString_of_segment segment
    obtain ⟨_, same⟩ := Option.ite_none_left_eq_some.mp accepted
    exact Option.some.inj same
  · have accepted := fromString_slashes segment
    obtain ⟨_, same⟩ := Option.ite_none_left_eq_some.mp accepted
    exact Option.some.inj same

/-- An email with a slash in it names no document, and with two it names one outside its
collection. -/
theorem document_addresses_email :
    CollectionReference.document (collectionPath .profiles) "ann/uni.edu" = none ∧
      ∀ key, CollectionReference.document (collectionPath .profiles) "ann/lee/uni.edu" = some key →
        ¬ (collectionPath .profiles).isImmediateParentOf key.path := by
  constructor
  · have refused := (document_addresses .profiles "ann/uni.edu").1
    apply Option.not_isSome_iff_eq_none.mp
    rw [refused]
    decide
  · intro key named parent
    obtain ⟨_, _, direct, _⟩ := (document_addresses .profiles "ann/lee/uni.edu").2.1 key named
    exact absurd (direct.mp parent) (by decide)

end Documents

end Bowfolio.Firestore
