import Bowfolio.Firestore.FieldPath
import Bowfolio.Foundation.FieldTree

/-!
# Field values

The values of the SDK: a document is an `ObjectValue`, a map of values that may be maps
again. Maps keep their keys in order. Server timestamps, references and geographical
points do not occur here; a double is known by its bits, by which it is compared.
-/

namespace Bowfolio.Firestore

/-- A value without parts. -/
inductive Scalar where
  | null
  | boolean (value : Bool)
  | integer (value : Int)
  | double (bits : UInt64)
  | timestamp (seconds : Int) (nanoseconds : Nat)
  | string (text : String)
  | blob (bytes : List UInt8)
  deriving DecidableEq, Repr

/-- A value that is not a map. -/
inductive LeafValue where
  | scalar (value : Scalar)
  | array (elements : List (FieldTree String LeafValue))

/-- `FieldValue`: a map is a node. -/
abbrev FieldValue := FieldTree String LeafValue

/-- The entries of `ObjectValue`. -/
abbrev ObjectValue := Fields String LeafValue

/-! ## Equality -/

mutual

def decEqValue : (first second : FieldValue) → Decidable (first = second)
  | .leaf first, .leaf second =>
      match decEqLeaf first second with
      | isTrue same => isTrue (congrArg _ same)
      | isFalse apart => isFalse fun same => apart (FieldTree.leaf.inj same)
  | .node first, .node second =>
      match decEqFields first second with
      | isTrue same => isTrue (congrArg _ same)
      | isFalse apart => isFalse fun same => apart (FieldTree.node.inj same)
  | .leaf _, .node _ => isFalse nofun
  | .node _, .leaf _ => isFalse nofun
termination_by structural first => first

def decEqLeaf : (first second : LeafValue) → Decidable (first = second)
  | .scalar first, .scalar second => decidable_of_iff (first = second) (by simp)
  | .array first, .array second =>
      match decEqElements first second with
      | isTrue same => isTrue (congrArg _ same)
      | isFalse apart => isFalse fun same => apart (LeafValue.array.inj same)
  | .scalar _, .array _ => isFalse nofun
  | .array _, .scalar _ => isFalse nofun

def decEqElements : (first second : List FieldValue) → Decidable (first = second)
  | [], [] => isTrue rfl
  | [], _ :: _ => isFalse nofun
  | _ :: _, [] => isFalse nofun
  | first :: firsts, second :: seconds =>
      match decEqValue first second, decEqElements firsts seconds with
      | isTrue same, isTrue rest => isTrue (congrArg₂ _ same rest)
      | isFalse apart, _ => isFalse fun same => apart (List.cons.inj same).1
      | _, isFalse apart => isFalse fun same => apart (List.cons.inj same).2

def decEqFields : (first second : List (String × FieldValue)) → Decidable (first = second)
  | [], [] => isTrue rfl
  | [], _ :: _ => isFalse nofun
  | _ :: _, [] => isFalse nofun
  | (key, first) :: firsts, (other, second) :: seconds =>
      match decEq key other, decEqValue first second, decEqFields firsts seconds with
      | isTrue sameKey, isTrue same, isTrue rest => isTrue (by rw [sameKey, same, rest])
      | isFalse apart, _, _ => isFalse fun same => apart (Prod.ext_iff.mp (List.cons.inj same).1).1
      | _, isFalse apart, _ => isFalse fun same => apart (Prod.ext_iff.mp (List.cons.inj same).1).2
      | _, _, isFalse apart => isFalse fun same => apart (List.cons.inj same).2

end

instance : DecidableEq FieldValue := decEqValue

/-! ## Objects -/

namespace ObjectValue

/-- `ObjectValue::Get`. -/
def get (object : ObjectValue) (path : FieldPath) : Option FieldValue :=
  (FieldTree.node object).get path

/-- `ObjectValue::Set`, which asserts that the path is not empty. -/
def set (object : ObjectValue) (path : FieldPath) (value : FieldValue) : ObjectValue :=
  match path with
  | [] => object
  | first :: rest => FieldTree.set object first rest value

/-- Every map in the object lists its keys in order. -/
def Sorted (object : ObjectValue) : Prop :=
  (FieldTree.node object).Sorted

theorem sorted_nil : Sorted [] :=
  .atNode List.Pairwise.nil fun _ member => absurd member List.not_mem_nil

/-- Writing a sorted value keeps an object sorted. -/
theorem Sorted.set {object : ObjectValue} (sorted : Sorted object) (path : FieldPath)
    {value : FieldValue} (valueSorted : value.Sorted) :
    Sorted (ObjectValue.set object path value) := by
  cases path with
  | nil => exact sorted
  | cons first rest => exact FieldTree.Sorted.set sorted first rest valueSorted

end ObjectValue

end Bowfolio.Firestore
