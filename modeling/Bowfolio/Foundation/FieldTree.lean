import Mathlib.Data.List.Infix
import Bowfolio.Foundation.Collection

/-!
# Trees of fields

A tree whose inner nodes map keys to subtrees, read and written along paths. A write
creates the nodes it needs and replaces leaves that stand in its way; a deletion
removes at most the end of its path. A patch applies one write or deletion for each
path of a mask: at and below those paths the tree then reads as the patch does
(`get_patch_covered`), and at paths apart from all of them as before
(`get_patch_of_apart`). A sorted tree is determined by what its paths lead to
(`Sorted.ext_labelAt`).
-/

namespace Bowfolio

/-- A leaf, or a node whose fields are trees. -/
inductive FieldTree (Key Leaf : Type) where
  | leaf (value : Leaf)
  | node (fields : List (Key × FieldTree Key Leaf))

/-- The fields of a node. -/
abbrev Fields (Key Leaf : Type) := List (Key × FieldTree Key Leaf)

namespace FieldTree

open Collection (findEntry insertEntry eraseEntry)

variable {Key Leaf : Type}

/-- Induction over a tree: a node holds when the trees of its fields do. -/
@[elab_as_elim]
theorem induction {motive : FieldTree Key Leaf → Prop} (leaf : ∀ value, motive (.leaf value))
    (node : ∀ fields, (∀ entry ∈ fields, motive entry.2) → motive (.node fields)) :
    ∀ tree, motive tree
  | .leaf value => leaf value
  | .node fields => node fields fun entry _ => induction leaf node entry.2
termination_by tree => sizeOf tree
decreasing_by
  have smaller := List.sizeOf_lt_of_mem ‹_ ∈ fields›
  obtain ⟨key, child⟩ := entry
  simp only [Prod.mk.sizeOf_spec, FieldTree.node.sizeOf_spec] at *
  omega

/-- The fields of a node; a leaf has none. -/
def fields : FieldTree Key Leaf → Fields Key Leaf
  | .leaf _ => []
  | .node fields => fields

/-- The value of a leaf; a node has none. -/
def label : FieldTree Key Leaf → Option Leaf
  | .leaf value => some value
  | .node _ => none

/-- A path that leads here goes no further. -/
def isEnd : FieldTree Key Leaf → Bool
  | .leaf _ | .node [] => true
  | .node (_ :: _) => false

variable [LinearOrder Key]

/-- The tree at the end of a path. -/
def get : FieldTree Key Leaf → List Key → Option (FieldTree Key Leaf)
  | tree, [] => some tree
  | .leaf _, _ :: _ => none
  | .node fields, key :: path => (findEntry fields key).bind fun child => child.get path

/-- What a path leads to: nothing, a node or the value of a leaf. -/
def labelAt (tree : FieldTree Key Leaf) (path : List Key) : Option (Option Leaf) :=
  (tree.get path).map label

/-- Write a tree at the end of a path of at least one key. -/
def set (fields : Fields Key Leaf) (key : Key) :
    List Key → FieldTree Key Leaf → Fields Key Leaf
  | [], value => insertEntry key value fields
  | next :: path, value =>
      let child := ((findEntry fields key).map FieldTree.fields).getD []
      insertEntry key (.node (set child next path value)) fields

/-- Remove what stands at the end of a path of at least one key. -/
def delete (fields : Fields Key Leaf) (key : Key) : List Key → Fields Key Leaf
  | [] => eraseEntry fields key
  | next :: path =>
      match findEntry fields key with
      | some (.node child) => insertEntry key (.node (delete child next path)) fields
      | _ => fields

/-- Give one path the value it has in `value`, which may be none. -/
def patchPath (value fields : Fields Key Leaf) : List Key → Fields Key Leaf
  | [] => fields
  | key :: path =>
      match (node value).get (key :: path) with
      | none => delete fields key path
      | some tree => set fields key path tree

/-- Give each path of the mask the value it has in `value`. -/
def patch (value : Fields Key Leaf) (mask : List (List Key)) (fields : Fields Key Leaf) :
    Fields Key Leaf :=
  mask.foldl (patchPath value) fields

/-- Every node lists its fields in strictly increasing order. -/
inductive Sorted : FieldTree Key Leaf → Prop where
  | atLeaf (value : Leaf) : Sorted (.leaf value)
  | atNode {fields : Fields Key Leaf}
      (sorted : fields.Pairwise fun first second => first.1 < second.1)
      (children : ∀ entry ∈ fields, Sorted entry.2) : Sorted (.node fields)

variable {fields value : Fields Key Leaf} {key : Key} {path other : List Key}
  {tree : FieldTree Key Leaf}

/-! ## Reading -/

@[simp] theorem get_nil (tree : FieldTree Key Leaf) : tree.get [] = some tree := by
  cases tree <;> rfl

theorem get_node_cons (fields : Fields Key Leaf) (key : Key) (path : List Key) :
    (node fields).get (key :: path) = (findEntry fields key).bind fun child => child.get path :=
  rfl

@[simp] theorem labelAt_nil (tree : FieldTree Key Leaf) :
    tree.labelAt [] = some tree.label := by
  rw [labelAt, get_nil, Option.map_some]

theorem labelAt_node_cons (fields : Fields Key Leaf) (key : Key) (path : List Key) :
    (node fields).labelAt (key :: path) =
      (findEntry fields key).bind fun child => child.labelAt path := by
  rw [labelAt, get_node_cons, Option.map_bind]
  rfl

/-- A path of two parts is followed one part after the other. -/
theorem get_append (tree : FieldTree Key Leaf) (path other : List Key) :
    tree.get (path ++ other) = (tree.get path).bind fun child => child.get other := by
  induction path generalizing tree with
  | nil => simp
  | cons key path ih =>
      cases tree with
      | leaf leaf => rfl
      | node fields =>
          rw [List.cons_append, get_node_cons, get_node_cons, Option.bind_assoc]
          exact congrArg _ (funext fun child => ih child)

theorem labelAt_append (tree : FieldTree Key Leaf) (path other : List Key) :
    tree.labelAt (path ++ other) = (tree.get path).bind fun child => child.labelAt other := by
  rw [labelAt, get_append, Option.map_bind]
  rfl

/-- Nothing lies below a leaf or a node without fields. -/
theorem get_cons_of_isEnd (ends : tree.isEnd) (key : Key) (path : List Key) :
    tree.get (key :: path) = none := by
  match tree with
  | .leaf _ => rfl
  | .node [] => rfl
  | .node (_ :: _) => cases ends

/-- Nothing is read past an end. -/
theorem eq_of_isEnd {child : FieldTree Key Leaf} (found : tree.get path = some child)
    (ends : child.isEnd) (below : path <+: other) (reached : (tree.get other).isSome) :
    path = other := by
  obtain ⟨rest, rfl⟩ := below
  cases rest with
  | nil => exact (List.append_nil path).symm
  | cons key rest =>
      rw [get_append, found, Option.bind_some, get_cons_of_isEnd ends] at reached
      cases reached

/-- The subtrees of a sorted tree are sorted. -/
theorem Sorted.get (sorted : tree.Sorted) {child : FieldTree Key Leaf}
    (found : tree.get path = some child) : child.Sorted := by
  induction path generalizing tree with
  | nil =>
      cases (get_nil tree).symm.trans found
      exact sorted
  | cons key path ih =>
      cases sorted with
      | atLeaf => cases found
      | atNode ordered children =>
          obtain ⟨next, entry, rest⟩ := Option.bind_eq_some_iff.mp found
          exact ih (children _ (Collection.mem_of_findEntry entry)) rest

/-! ## Writing and deleting -/

/-- A write is read back. -/
theorem get_set_append (fields : Fields Key Leaf) (key : Key) (path other : List Key)
    (tree : FieldTree Key Leaf) :
    (node (set fields key path tree)).get (key :: path ++ other) = tree.get other := by
  induction path generalizing fields key with
  | nil => simp [set, get_node_cons]
  | cons next path ih =>
      rw [set, List.cons_append, get_node_cons, Collection.findEntry_insertEntry_self]
      exact ih _ next

/-- A write leaves the paths that part from it. -/
theorem get_set_of_apart (unrelated : ¬ key :: path <+: other ∧ ¬ other <+: key :: path)
    (fields : Fields Key Leaf) (tree : FieldTree Key Leaf) :
    (node (set fields key path tree)).get other = (node fields).get other := by
  induction path generalizing fields key other with
  | nil =>
      cases other with
      | nil => exact absurd List.nil_prefix unrelated.2
      | cons head other =>
          have apart : head ≠ key := by
            intro same
            exact unrelated.1 (same ▸ List.prefix_append [key] other)
          rw [set, get_node_cons, Collection.findEntry_insertEntry_of_ne apart, get_node_cons]
  | cons next path ih =>
      cases other with
      | nil => exact absurd List.nil_prefix unrelated.2
      | cons head other =>
          rw [set, get_node_cons, get_node_cons]
          by_cases same : head = key
          · subst same
            simp only [List.prefix_cons_inj] at unrelated
            rw [Collection.findEntry_insertEntry_self, Option.bind_some, ih unrelated]
            -- Below a missing field or a leaf there was nothing to read.
            cases entry : findEntry fields head with
            | none =>
                cases other with
                | nil => exact absurd List.nil_prefix unrelated.2
                | cons => rfl
            | some child =>
                cases child with
                | leaf =>
                    cases other with
                    | nil => exact absurd List.nil_prefix unrelated.2
                    | cons => rfl
                | node => rfl
          · rw [Collection.findEntry_insertEntry_of_ne same]

/-- Writing what is there already changes nothing. -/
theorem set_of_get (sorted : (node fields).Sorted)
    (found : (node fields).get (key :: path) = some tree) : set fields key path tree = fields := by
  induction path generalizing fields key with
  | nil =>
      cases sorted with
      | atNode ordered children =>
          obtain ⟨child, entry, last⟩ := Option.bind_eq_some_iff.mp found
          cases (get_nil child).symm.trans last
          exact Collection.insertEntry_of_findEntry ordered entry
  | cons next path ih =>
      cases sorted with
      | atNode ordered children =>
          obtain ⟨child, entry, rest⟩ := Option.bind_eq_some_iff.mp found
          cases child with
          | leaf => cases rest
          | node child =>
              have childSorted := children _ (Collection.mem_of_findEntry entry)
              rw [set, entry, Option.map_some, Option.getD_some, FieldTree.fields,
                ih childSorted rest]
              exact Collection.insertEntry_of_findEntry ordered entry

/-- A deleted path leads nowhere. -/
theorem get_delete_append (fields : Fields Key Leaf) (key : Key) (path other : List Key) :
    (node (delete fields key path)).get (key :: path ++ other) = none := by
  induction path generalizing fields key with
  | nil => simp [delete, get_node_cons]
  | cons next path ih =>
      rw [delete, List.cons_append, get_node_cons]
      split
      · rw [Collection.findEntry_insertEntry_self]
        exact ih _ next
      · cases entry : findEntry fields key with
        | none => rfl
        | some child =>
            cases child with
            | leaf => rfl
            | node child => exact absurd entry (by simp_all)

/-- A deletion leaves the paths that part from it. -/
theorem get_delete_of_apart (unrelated : ¬ key :: path <+: other ∧ ¬ other <+: key :: path)
    (fields : Fields Key Leaf) :
    (node (delete fields key path)).get other = (node fields).get other := by
  induction path generalizing fields key other with
  | nil =>
      cases other with
      | nil => exact absurd List.nil_prefix unrelated.2
      | cons head other =>
          have apart : head ≠ key := by
            intro same
            exact unrelated.1 (same ▸ List.prefix_append [key] other)
          rw [delete, get_node_cons, Collection.findEntry_eraseEntry_of_ne apart, get_node_cons]
  | cons next path ih =>
      cases other with
      | nil => exact absurd List.nil_prefix unrelated.2
      | cons head other =>
          rw [delete]
          split
          · next child entry =>
              rw [get_node_cons, get_node_cons]
              by_cases same : head = key
              · subst same
                simp only [List.prefix_cons_inj] at unrelated
                rw [Collection.findEntry_insertEntry_self, entry]
                exact ih unrelated child
              · rw [Collection.findEntry_insertEntry_of_ne same]
          · rfl

/-- Deleting what is not there changes nothing. -/
theorem delete_of_get (sorted : (node fields).Sorted)
    (missing : (node fields).get (key :: path) = none) : delete fields key path = fields := by
  induction path generalizing fields key with
  | nil =>
      refine Collection.eraseEntry_of_missing ?_
      cases entry : findEntry fields key with
      | none => rfl
      | some child => simp [get_node_cons, entry] at missing
  | cons next path ih =>
      cases sorted with
      | atNode ordered children =>
          rw [delete]
          split
          · next child entry =>
              rw [get_node_cons, entry, Option.bind_some] at missing
              rw [ih (children _ (Collection.mem_of_findEntry entry)) missing]
              exact Collection.insertEntry_of_findEntry ordered entry
          · rfl

/-! ## Sorted nodes -/

/-- Inserting a sorted child keeps a node sorted. -/
theorem Sorted.insertEntry (sorted : (node fields).Sorted) (key : Key) (treeSorted : tree.Sorted) :
    (node (Collection.insertEntry key tree fields)).Sorted := by
  cases sorted with
  | atNode ordered children =>
      refine .atNode (Collection.insertEntry_sorted key tree ordered) fun entry member => ?_
      rcases (Collection.mem_insertEntry ordered entry).mp member with rfl | ⟨old, _⟩
      · exact treeSorted
      · exact children entry old

/-- The fields below a key of a sorted node are sorted. -/
theorem Sorted.child (sorted : (node fields).Sorted) (key : Key) :
    (node (((findEntry fields key).map FieldTree.fields).getD [])).Sorted := by
  have bare : (node ([] : Fields Key Leaf)).Sorted :=
    .atNode List.Pairwise.nil fun _ member => absurd member List.not_mem_nil
  cases entry : findEntry fields key with
  | none => exact bare
  | some child =>
      cases sorted with
      | atNode _ children =>
          have childSorted := children _ (Collection.mem_of_findEntry entry)
          cases child with
          | leaf => exact bare
          | node => exact childSorted

/-- Writing a sorted tree keeps the fields sorted. -/
theorem Sorted.set (sorted : (node fields).Sorted) (key : Key) (path : List Key)
    (treeSorted : tree.Sorted) : (node (set fields key path tree)).Sorted := by
  induction path generalizing fields key with
  | nil => exact sorted.insertEntry key treeSorted
  | cons next path ih => exact sorted.insertEntry key (ih (sorted.child key) next)

theorem Sorted.delete (sorted : (node fields).Sorted) (key : Key) (path : List Key) :
    (node (delete fields key path)).Sorted := by
  induction path generalizing fields key with
  | nil =>
      cases sorted with
      | atNode ordered children =>
          exact .atNode (Collection.eraseEntry_sorted ordered key) fun entry member =>
            children entry (List.mem_filter.mp member).1
  | cons next path ih =>
      rw [FieldTree.delete]
      split
      · next child entry =>
          refine sorted.insertEntry key (ih ?_ next)
          cases sorted with
          | atNode _ children => exact children _ (Collection.mem_of_findEntry entry)
      · exact sorted

theorem Sorted.patchPath (sorted : (node fields).Sorted) (valueSorted : (node value).Sorted)
    (path : List Key) : (node (patchPath value fields path)).Sorted := by
  cases path with
  | nil => exact sorted
  | cons key path =>
      rw [FieldTree.patchPath]
      cases found : (node value).get (key :: path) with
      | none => exact sorted.delete key path
      | some tree => exact sorted.set key path (valueSorted.get found)

theorem Sorted.patch (sorted : (node fields).Sorted) (valueSorted : (node value).Sorted)
    (mask : List (List Key)) : (node (patch value mask fields)).Sorted := by
  induction mask generalizing fields with
  | nil => exact sorted
  | cons path mask ih => exact ih (sorted.patchPath valueSorted path)

/-! ## Patches -/

/-- A path at which both trees agree is patched without a change. -/
theorem patchPath_of_get (sorted : (node fields).Sorted)
    (same : (node fields).get path = (node value).get path) :
    patchPath value fields path = fields := by
  cases path with
  | nil => rfl
  | cons key path =>
      rw [patchPath]
      cases found : (node value).get (key :: path) with
      | none => exact delete_of_get sorted (same.trans found)
      | some tree => exact set_of_get sorted (same.trans found)

/-- A step of a patch gives its path, and what lies below, the values of the patch. -/
theorem get_patchPath_below (nonempty : path ≠ []) (below : path <+: other)
    (value fields : Fields Key Leaf) :
    (node (patchPath value fields path)).get other = (node value).get other := by
  obtain ⟨rest, rfl⟩ := below
  cases path with
  | nil => exact absurd rfl nonempty
  | cons key path =>
      rw [patchPath, get_append (node value)]
      cases found : (node value).get (key :: path) with
      | none => exact get_delete_append fields key path rest
      | some tree => exact get_set_append fields key path rest tree

/-- A patched path does not disturb the paths apart from it. -/
theorem get_patchPath_of_apart (unrelated : ¬ path <+: other ∧ ¬ other <+: path)
    (value fields : Fields Key Leaf) :
    (node (patchPath value fields path)).get other = (node fields).get other := by
  cases path with
  | nil => rfl
  | cons key path =>
      rw [patchPath]
      cases (node value).get (key :: path) with
      | none => exact get_delete_of_apart unrelated fields
      | some tree => exact get_set_of_apart unrelated fields tree

/-- A path that has the value of the patch keeps it. -/
theorem get_patchPath_of_get (sorted : (node fields).Sorted)
    (same : (node fields).get other = (node value).get other) (path : List Key) :
    (node (patchPath value fields path)).get other = (node value).get other := by
  by_cases bare : path = []
  · subst bare
    exact same
  · by_cases below : path <+: other
    · exact get_patchPath_below bare below value fields
    · by_cases above : other <+: path
      · obtain ⟨rest, rfl⟩ := above
        rw [patchPath_of_get sorted, same]
        rw [get_append, same, ← get_append]
      · rw [get_patchPath_of_apart ⟨below, above⟩, same]

/-- **Covered paths.** Below the paths of the mask, a patch leaves exactly what its value
has there, in whatever order the mask lists its paths. -/
theorem get_patch_covered (sorted : (node fields).Sorted) (valueSorted : (node value).Sorted)
    {mask : List (List Key)}
    (covered : (∃ path ∈ mask, path ≠ [] ∧ path <+: other) ∨
      (node fields).get other = (node value).get other) :
    (node (patch value mask fields)).get other = (node value).get other := by
  induction mask generalizing fields with
  | nil => exact covered.resolve_left nofun
  | cons path mask ih =>
      refine ih (sorted.patchPath valueSorted path) ?_
      rcases covered with ⟨covering, member, nonempty, below⟩ | same
      · rcases List.mem_cons.mp member with rfl | later
        · exact .inr (get_patchPath_below nonempty below value fields)
        · exact .inl ⟨covering, later, nonempty, below⟩
      · exact .inr (get_patchPath_of_get sorted same path)

/-- **Other paths.** A patch leaves the paths that are unrelated to those of its mask. -/
theorem get_patch_of_apart {mask : List (List Key)}
    (unrelated : ∀ path ∈ mask, ¬ path <+: other ∧ ¬ other <+: path)
    (value fields : Fields Key Leaf) :
    (node (patch value mask fields)).get other = (node fields).get other := by
  induction mask generalizing fields with
  | nil => rfl
  | cons path mask ih =>
      refine (ih (fun path member => unrelated path (List.mem_cons_of_mem _ member)) _).trans ?_
      exact get_patchPath_of_apart (unrelated path List.mem_cons_self) value fields

/-! ## Trees with the same labels -/

/-- Sorted trees with the same labels are the same. -/
theorem Sorted.ext_labelAt {second : FieldTree Key Leaf} (sorted : tree.Sorted)
    (secondSorted : second.Sorted) (same : ∀ path, tree.labelAt path = second.labelAt path) :
    tree = second := by
  induction tree using FieldTree.induction generalizing second with
  | leaf value =>
      have root := Option.some.inj ((labelAt_nil _).symm.trans ((same []).trans (labelAt_nil _)))
      cases second with
      | leaf => rw [Option.some.inj root]
      | node => cases root
  | node fields ih =>
      have root := Option.some.inj ((labelAt_nil _).symm.trans ((same []).trans (labelAt_nil _)))
      cases second with
      | leaf => cases root
      | node others =>
          cases sorted with
          | atNode ordered children =>
              cases secondSorted with
              | atNode secondOrdered secondChildren =>
                  have equal : (⟨fields, ordered⟩ : Collection Key (FieldTree Key Leaf)) =
                      ⟨others, secondOrdered⟩ := by
                    refine Collection.ext_get? fun key => ?_
                    change findEntry fields key = findEntry others key
                    have below := fun path => same (key :: path)
                    simp only [labelAt_node_cons] at below
                    cases found : findEntry fields key with
                    | none =>
                        cases secondFound : findEntry others key with
                        | none => rfl
                        | some child => simpa [found, secondFound] using below []
                    | some child =>
                        cases secondFound : findEntry others key with
                        | none => simpa [found, secondFound] using below []
                        | some second =>
                            have member := Collection.mem_of_findEntry found
                            have secondMember := Collection.mem_of_findEntry secondFound
                            refine congrArg some (ih _ member (children _ member)
                              (secondChildren _ secondMember) fun path => ?_)
                            simpa only [found, secondFound, Option.bind_some] using below path
                  exact congrArg (fun collection => node (Collection.entries collection)) equal

end FieldTree

end Bowfolio
