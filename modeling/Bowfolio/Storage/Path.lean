import Bowfolio.ViewModel.Writes

/-!
# Storage paths

`FIRStoragePath` standardizes the path of a reference: it splits at the slashes, drops
the empty components and joins the rest. A path without empty components is left as it
is, so project names without slashes keep their images apart; names that differ in
repeated slashes do not.
-/

namespace Bowfolio

/-- `-[FIRStoragePath standardizedPathForString:]`. -/
def standardizedPathForString (text : String) : String :=
  String.ofList (['/'].intercalate
    ((text.toList.splitOn '/').filter fun component => !component.isEmpty))

/-- `-[FIRStoragePath child:]` of the root reference, and the path under which the image
of a project is stored and looked up. -/
def objectPath (name : String) : String :=
  standardizedPathForString (ProjectViewModel.imagePath name)

/-- A path without empty components is standardized already. -/
theorem standardizedPathForString_of_canonical {text : String}
    (canonical : ∀ component ∈ text.toList.splitOn '/', component ≠ []) :
    standardizedPathForString text = text := by
  have kept : (text.toList.splitOn '/').filter (fun component => !component.isEmpty) =
      text.toList.splitOn '/' := by
    refine List.filter_eq_self.mpr fun component member => ?_
    rw [Bool.not_eq_true', List.isEmpty_eq_false_iff]
    exact canonical component member
  rw [standardizedPathForString, kept, List.intercalate_splitOn, String.ofList_toList]

/-- A name without a slash gives a path of two components. -/
theorem objectPath_of_no_slash {name : String} (plain : '/' ∉ name.toList) :
    objectPath name = ProjectViewModel.imagePath name := by
  refine standardizedPathForString_of_canonical fun component member => ?_
  have path : (ProjectViewModel.imagePath name).toList =
      "projectImages".toList ++ '/' :: (name.toList ++ ".jpg".toList) := by
    rw [ProjectViewModel.imagePath, String.toList_append, String.toList_append]
    rfl
  have noSlash : '/' ∉ name.toList ++ ".jpg".toList := by
    rw [List.mem_append]
    exact not_or.mpr ⟨plain, by decide⟩
  rw [path, List.splitOn_append_cons_self_of_not_mem (by decide),
    List.splitOn_eq_singleton noSlash] at member
  rintro rfl
  rcases List.mem_cons.mp member with same | rest
  · exact absurd same (by decide)
  · have empty := List.mem_singleton.mp rest
    exact absurd (List.append_eq_nil_iff.mp empty.symm).2 (by decide)

/-- Names without slashes have the same path only when they are the same. -/
theorem objectPath_inj_of_no_slash {first second : String} (plainFirst : '/' ∉ first.toList)
    (plainSecond : '/' ∉ second.toList) :
    objectPath first = objectPath second ↔ first = second := by
  rw [objectPath_of_no_slash plainFirst, objectPath_of_no_slash plainSecond]
  unfold ProjectViewModel.imagePath
  constructor
  · intro same
    have lists := congrArg String.toList same
    simp only [String.toList_append, List.append_assoc, List.append_cancel_left_eq,
      List.append_cancel_right_eq] at lists
    exact String.toList_inj.mp lists
  · rintro rfl
    rfl

example : objectPath "a//b" = objectPath "/a/b" := by decide

end Bowfolio
