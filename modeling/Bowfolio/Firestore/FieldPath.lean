import Mathlib.Data.List.Infix
import Mathlib.Data.String.Basic

/-!
# Field paths

`FieldPath` names a field of a document by the segments on the way to it. The canonical
text of a path quotes the segments that are not identifiers, and the server format is
read back by one scan with an escape and a quotation state. The two fit together
exactly on the paths of nonempty segments without the character NUL (`fieldPath_texts`):
the scan stops at a NUL, but takes an escaped one into the segment.
-/

namespace Bowfolio.Firestore

/-- The segments of a `FieldPath`. -/
abbrev FieldPath := List String

/-- The characters that the server format treats in a special way. -/
def backtick : Char := '\x60'

def nul : Char := '\x00'

/-- `IsValidIdentifier`: the expression `[a-zA-Z_][a-zA-Z0-9_]*`. -/
def isValidIdentifier : List Char → Bool
  | [] => false
  | first :: rest =>
      (first = '_' || ('a' ≤ first && first ≤ 'z') || ('A' ≤ first && first ≤ 'Z')) &&
        rest.all fun c => c = '_' || ('a' ≤ c && c ≤ 'z') || ('A' ≤ c && c ≤ 'Z') ||
          ('0' ≤ c && c ≤ '9')

/-- The replacements of `JoinEscaped::escaped_segment`. -/
def escapeChar (c : Char) : List Char :=
  if c = '\\' then ['\\', '\\'] else if c = backtick then ['\\', backtick] else [c]

/-- `JoinEscaped::escaped_segment`. -/
def escapedSegment (segment : String) : List Char :=
  let escaped := segment.toList.flatMap escapeChar
  if isValidIdentifier escaped then escaped else backtick :: escaped ++ [backtick]

namespace FieldPath

/-- `FieldPath::CanonicalString`. -/
def canonicalString (path : FieldPath) : String :=
  String.ofList (['.'].intercalate (path.map escapedSegment))

/-- The lambda `finish_segment`; its assertion fails on an empty segment. -/
def finishSegment (segments : List String) (segment : List Char) : Option (List String) :=
  if segment = [] then none else some (segments ++ [String.ofList segment])

/-- The loop of `FieldPath::FromServerFormatView` and the two steps after it, over the
rest of the text, the finished segments, the current one and `inside_backticks`. A
failed assertion has no result. -/
def scan : List Char → List String → List Char → Bool → Option FieldPath
  | [], segments, segment, insideBackticks =>
      if insideBackticks then none else finishSegment segments segment
  | c :: rest, segments, segment, insideBackticks =>
      if c = nul then if insideBackticks then none else finishSegment segments segment
      else if c = '.' then
        if insideBackticks then scan rest segments (segment ++ [c]) insideBackticks
        else (finishSegment segments segment).bind fun segments =>
          scan rest segments [] insideBackticks
      else if c = backtick then scan rest segments segment (!insideBackticks)
      else if c = '\\' then
        match rest with
        | [] => none
        | next :: rest => scan rest segments (segment ++ [next]) insideBackticks
      else scan rest segments (segment ++ [c]) insideBackticks

/-- `FieldPath::FromServerFormat`. -/
def fromServerFormat (path : String) : Option FieldPath :=
  scan path.toList [] [] false

/-- `FieldPath::FromDotSeparatedString`, which throws on some characters and on empty
segments. -/
def fromDotSeparatedString (path : String) : Option FieldPath :=
  let segments := (path.toList.splitOn '.').map String.ofList
  if path.toList.any (fun c => "~*/[]".toList.contains c) then none
  else if segments.any String.isEmpty then none
  else some segments

/-- A segment that the text format can carry. -/
def Storable (segment : String) : Prop :=
  segment ≠ "" ∧ nul ∉ segment.toList

instance (segment : String) : Decidable (Storable segment) :=
  inferInstanceAs (Decidable (_ ∧ _))

/-- A character that the scan reads as itself. -/
def Plain (c : Char) : Prop :=
  c ≠ nul ∧ c ≠ '.' ∧ c ≠ backtick ∧ c ≠ '\\'

/-! ## Scanning one segment -/

section Scan

variable {segments : List String} {segment rest chars : List Char} {insideBackticks : Bool}

/-- A plain character joins the open segment. -/
theorem scan_plain {c : Char} (plain : Plain c) :
    scan (c :: rest) segments segment insideBackticks =
      scan rest segments (segment ++ [c]) insideBackticks := by
  obtain ⟨notNul, notDot, notBacktick, notBackslash⟩ := plain
  rw [scan.eq_def]
  simp only [notNul, notDot, notBacktick, notBackslash, ↓reduceIte]

theorem scan_plain_append (plain : ∀ c ∈ chars, Plain c) :
    scan (chars ++ rest) segments segment insideBackticks =
      scan rest segments (segment ++ chars) insideBackticks := by
  induction chars generalizing segment with
  | nil => rw [List.nil_append, List.append_nil]
  | cons c chars ih =>
      rw [List.cons_append, scan_plain (plain c List.mem_cons_self),
        ih fun other member => plain other (List.mem_cons_of_mem _ member), List.append_assoc,
        List.singleton_append]

/-- A backtick opens or closes the quotes and belongs to no segment. -/
theorem scan_backtick :
    scan (backtick :: rest) segments segment insideBackticks =
      scan rest segments segment (!insideBackticks) := by
  rw [scan.eq_def]
  simp only [show backtick ≠ nul by decide, show backtick ≠ '.' by decide, ↓reduceIte]

/-- A backslash takes the next character as it is. -/
theorem scan_backslash {c : Char} :
    scan ('\\' :: c :: rest) segments segment insideBackticks =
      scan rest segments (segment ++ [c]) insideBackticks := by
  rw [scan.eq_def]
  simp only [show '\\' ≠ nul by decide, show '\\' ≠ '.' by decide,
    show '\\' ≠ backtick by decide, ↓reduceIte]

theorem scan_dot_inside :
    scan ('.' :: rest) segments segment true = scan rest segments (segment ++ ['.']) true := by
  rw [scan.eq_def]
  simp only [show '.' ≠ nul by decide, ↓reduceIte]

/-- A dot closes a nonempty segment. -/
theorem scan_dot (nonempty : segment ≠ []) :
    scan ('.' :: rest) segments segment false =
      scan rest (segments ++ [String.ofList segment]) [] false := by
  rw [scan.eq_def]
  simp only [show '.' ≠ nul by decide, finishSegment, nonempty, Bool.false_eq_true, ↓reduceIte,
    Option.bind_some]

/-- A dot after an empty segment is refused. -/
theorem scan_dot_nil : scan ('.' :: rest) segments [] false = none := by
  rw [scan.eq_def]
  simp [show '.' ≠ nul by decide, finishSegment]

/-- A NUL inside of quotes is refused. -/
theorem scan_nul_inside : scan (nul :: rest) segments segment true = none := by
  rw [scan.eq_def]
  simp only [↓reduceIte]

/-- Between backticks, escaped characters without NUL are read as themselves. -/
theorem scan_escaped (noNul : nul ∉ chars) :
    scan (chars.flatMap escapeChar ++ rest) segments segment true =
      scan rest segments (segment ++ chars) true := by
  induction chars generalizing segment with
  | nil => rw [List.flatMap_nil, List.nil_append, List.append_nil]
  | cons c chars ih =>
      obtain ⟨notNul, noNul⟩ := not_or.mp (List.mem_cons.not.mp noNul)
      have read : scan (escapeChar c ++ (chars.flatMap escapeChar ++ rest)) segments segment true =
          scan (chars.flatMap escapeChar ++ rest) segments (segment ++ [c]) true := by
        rw [escapeChar]
        split_ifs with isBackslash isBacktick
        · rw [List.cons_append, List.singleton_append, scan_backslash, isBackslash]
        · rw [List.cons_append, List.singleton_append, scan_backslash, isBacktick]
        · rw [List.singleton_append]
          by_cases isDot : c = '.'
          · rw [isDot, scan_dot_inside]
          · exact scan_plain ⟨Ne.symm notNul, isDot, isBacktick, isBackslash⟩
      rw [List.flatMap_cons, List.append_assoc, read, ih noNul, List.append_assoc,
        List.singleton_append]

/-- An identifier needs no escaping. -/
theorem plain_of_isValidIdentifier (valid : isValidIdentifier chars) : ∀ c ∈ chars, Plain c := by
  cases chars with
  | nil => exact fun c member => absurd member List.not_mem_nil
  | cons first rest =>
      obtain ⟨start, others⟩ := Bool.and_eq_true_iff.mp valid
      have letters {c : Char} (accepted : (c = '_' || ('a' ≤ c && c ≤ 'z') ||
          ('A' ≤ c && c ≤ 'Z') || ('0' ≤ c && c ≤ '9')) = true) : Plain c := by
        refine ⟨?_, ?_, ?_, ?_⟩ <;> intro same <;> rw [same] at accepted <;>
          exact absurd accepted (by decide)
      intro c member
      rcases List.mem_cons.mp member with rfl | later
      · exact letters (by rw [start, Bool.true_or])
      · exact letters (List.all_eq_true.mp others c later)

/-- Characters whose escapes are plain are not escaped. -/
theorem flatMap_escapeChar_of_plain (plain : ∀ c ∈ chars.flatMap escapeChar, Plain c) :
    chars.flatMap escapeChar = chars := by
  induction chars with
  | nil => rfl
  | cons c chars ih =>
      rw [List.flatMap_cons] at plain ⊢
      have own : escapeChar c = [c] := by
        rw [escapeChar] at plain ⊢
        split_ifs at plain ⊢ with isBackslash isBacktick
        · exact absurd rfl (plain '\\' List.mem_cons_self).2.2.2
        · exact absurd rfl (plain '\\' List.mem_cons_self).2.2.2
        · rfl
      rw [own, ih fun other member => plain other (List.mem_append_right _ member),
        List.singleton_append]

/-- The scan reads the canonical text of a segment. -/
theorem scan_escapedSegment {text : String} (noNul : nul ∉ text.toList) :
    scan (escapedSegment text ++ rest) segments [] false =
      scan rest segments text.toList false := by
  rw [escapedSegment]
  split_ifs with valid
  · have plain := plain_of_isValidIdentifier valid
    rw [scan_plain_append plain, flatMap_escapeChar_of_plain plain, List.nil_append]
  · simp only [List.cons_append, List.append_assoc, List.nil_append]
    rw [scan_backtick, Bool.not_false, scan_escaped noNul, scan_backtick, List.nil_append,
      Bool.not_true]

/-- At a segment with NUL the scan stops inside the quotation. -/
theorem scan_escapedSegment_nul {text : String} (hasNul : nul ∈ text.toList) :
    scan (escapedSegment text ++ rest) segments [] false = none := by
  obtain ⟨before, after, same, first⟩ := List.eq_append_cons_of_mem hasNul
  have escaped : text.toList.flatMap escapeChar =
      before.flatMap escapeChar ++ nul :: after.flatMap escapeChar := by
    rw [same, List.flatMap_append, List.flatMap_cons]
    rfl
  have quoted : isValidIdentifier (text.toList.flatMap escapeChar) = false := by
    by_contra valid
    have plain := plain_of_isValidIdentifier (Bool.not_eq_false _ ▸ valid)
    rw [escaped] at plain
    exact (plain nul (List.mem_append_right _ List.mem_cons_self)).1 rfl
  rw [escapedSegment, quoted, escaped]
  simp only [Bool.false_eq_true, ↓reduceIte, List.cons_append, List.append_assoc]
  rw [scan_backtick, Bool.not_false, scan_escaped first, scan_nul_inside]

end Scan

/-! ## Round trips -/

/-- The escaped segments of a path are scanned back when all of them can be stored. -/
theorem scan_intercalate (path : FieldPath) (segments : List String) :
    scan (['.'].intercalate (path.map escapedSegment)) segments [] false =
      if path ≠ [] ∧ ∀ segment ∈ path, Storable segment then some (segments ++ path) else none := by
  induction path generalizing segments with
  | nil => rfl
  | cons text path ih =>
      by_cases hasNul : nul ∈ text.toList
      · have unstorable : ¬ ∀ segment ∈ text :: path, Storable segment :=
          fun storable => (storable text List.mem_cons_self).2 hasNul
        rw [if_neg fun both => unstorable both.2, List.map_cons]
        cases path with
        | nil =>
            rw [List.map_nil, List.intercalate_singleton, ← List.append_nil (escapedSegment text)]
            exact scan_escapedSegment_nul hasNul
        | cons next path =>
            rw [List.map_cons, List.intercalate_cons_cons, List.append_assoc]
            exact scan_escapedSegment_nul hasNul
      · have storable : Storable text ↔ text.toList ≠ [] := by
          simp [Storable, hasNul]
        cases path with
        | nil =>
            rw [List.map_cons, List.map_nil, List.intercalate_singleton,
              ← List.append_nil (escapedSegment text), scan_escapedSegment hasNul, scan.eq_def]
            simp only [Bool.false_eq_true, ↓reduceIte, finishSegment, String.ofList_toList, ne_eq,
              List.cons_ne_nil, not_false_eq_true, List.mem_singleton, forall_eq, true_and,
              storable, ite_not]
        | cons next path =>
            rw [List.map_cons, List.map_cons, List.intercalate_cons_cons, ← List.map_cons,
              List.append_assoc, scan_escapedSegment hasNul, List.singleton_append]
            by_cases empty : text.toList = []
            · rw [empty, scan_dot_nil, if_neg fun both =>
                storable.mp (both.2 text List.mem_cons_self) empty]
            · rw [scan_dot empty, ih, String.ofList_toList, List.append_assoc,
                List.singleton_append]
              simp only [ne_eq, List.cons_ne_nil, not_false_eq_true, true_and,
                List.forall_mem_cons (a := text), storable.mpr empty]

/-- A finished segment is not empty, and has no NUL unless one was read. -/
theorem segments_of_finishSegment {path segments : List String} {segment : List Char}
    {unescaped : Prop} (noNulHere : unescaped → nul ∉ segment)
    (earlier : ∀ text ∈ segments, text ≠ "" ∧ (unescaped → nul ∉ text.toList))
    (finished : finishSegment segments segment = some path) :
    path ≠ [] ∧ ∀ text ∈ path, text ≠ "" ∧ (unescaped → nul ∉ text.toList) := by
  obtain ⟨nonempty, same⟩ := Option.ite_none_left_eq_some.mp finished
  obtain rfl := Option.some.inj same
  refine ⟨List.append_ne_nil_of_right_ne_nil _ (List.cons_ne_nil _ _), fun text member => ?_⟩
  rcases List.mem_append.mp member with before | last
  · exact earlier text before
  · rw [List.mem_singleton.mp last]
    refine ⟨fun empty => nonempty (String.ofList_inj.mp empty), fun plain => ?_⟩
    rw [String.toList_ofList]
    exact noNulHere plain

/-- A finished scan has segments, none empty, and none with NUL unless one is escaped. -/
theorem segments_of_scan {chars segment : List Char} {segments : List String}
    {insideBackticks : Bool} {path : FieldPath} {unescaped : Prop}
    (escapes : unescaped → ¬ ['\\', nul] <:+: chars) (noNulHere : unescaped → nul ∉ segment)
    (earlier : ∀ text ∈ segments, text ≠ "" ∧ (unescaped → nul ∉ text.toList))
    (scanned : scan chars segments segment insideBackticks = some path) :
    path ≠ [] ∧ ∀ text ∈ path, text ≠ "" ∧ (unescaped → nul ∉ text.toList) := by
  have extend {segment : List Char} {c : Char} (notNul : unescaped → c ≠ nul)
      (noNulHere : unescaped → nul ∉ segment) : unescaped → nul ∉ segment ++ [c] := by
    intro plain
    rw [List.mem_append, List.mem_singleton]
    exact not_or.mpr ⟨noNulHere plain, (notNul plain).symm⟩
  have tail {c : Char} {rest : List Char} (escapes : unescaped → ¬ ['\\', nul] <:+: c :: rest) :
      unescaped → ¬ ['\\', nul] <:+: rest :=
    fun plain escaped => escapes plain (escaped.trans (List.suffix_cons c rest).isInfix)
  fun_induction scan chars segments segment insideBackticks with
  | case1 => cases scanned
  | case2 => exact segments_of_finishSegment noNulHere earlier scanned
  | case3 => cases scanned
  | case4 => exact segments_of_finishSegment noNulHere earlier scanned
  | case5 rest segments segment notNul ih =>
      exact ih (tail escapes) (extend (fun _ => notNul) noNulHere) earlier scanned
  | case6 rest segments segment insideBackticks _ _ ih =>
      obtain ⟨finished, isFinished, rest⟩ := Option.bind_eq_some_iff.mp scanned
      exact ih finished (tail escapes) (fun _ => List.not_mem_nil)
        (segments_of_finishSegment noNulHere earlier isFinished).2 rest
  | case7 rest segments segment insideBackticks _ _ ih =>
      exact ih (tail escapes) noNulHere earlier scanned
  | case8 => cases scanned
  | case9 segments segment insideBackticks next rest _ _ _ ih =>
      have notNul (plain : unescaped) : next ≠ nul := by
        rintro rfl
        exact escapes plain (List.prefix_append ['\\', nul] rest).isInfix
      exact ih (tail (tail escapes)) (extend notNul noNulHere) earlier scanned
  | case10 c rest segments segment insideBackticks notNul _ _ _ ih =>
      exact ih (tail escapes) (extend (fun _ => notNul) noNulHere) earlier scanned

theorem modifyHead_self (pieces : List (List Char)) :
    pieces.modifyHead (fun piece => piece) = pieces := by
  cases pieces <;> rfl

/-- Without the special characters a scan splits at the dots. -/
theorem scan_eq_splitOn {chars : List Char} (segments : List String) (segment : List Char)
    (plain : ∀ c ∈ chars, c ≠ '.' → Plain c) :
    scan chars segments segment false =
      let pieces := (chars.splitOn '.').modifyHead (segment ++ ·)
      if pieces.any List.isEmpty then none else some (segments ++ pieces.map String.ofList) := by
  induction chars generalizing segments segment with
  | nil => cases segment <;> simp [scan, finishSegment]
  | cons c chars ih =>
      have later : ∀ other ∈ chars, other ≠ '.' → Plain other := fun other member =>
        plain other (List.mem_cons_of_mem _ member)
      rw [List.splitOn_cons_eq_if_modifyHead]
      by_cases isDot : c = '.'
      · subst isDot
        cases segment with
        | nil => simp [scan_dot_nil]
        | cons first segment =>
            rw [scan_dot (List.cons_ne_nil _ _), ih _ _ later]
            simp [modifyHead_self]
      · rw [scan_plain (plain c List.mem_cons_self isDot), ih _ _ later]
        simp [isDot, List.modifyHead_modifyHead, Function.comp_def]

/-- **Field path texts.** Reading the canonical text of a path gives the path back, if it
has segments and none is empty or contains NUL, and fails otherwise. A path read from any
text has segments and none is empty; none contains NUL either, unless the text escapes
one. The dotted keys of `updateData` are read as the server format reads them, as long as
no character is special to either. -/
theorem fieldPath_texts :
    (∀ path, fromServerFormat (canonicalString path) =
      if path ≠ [] ∧ ∀ segment ∈ path, Storable segment then some path else none) ∧
    (∀ text path, fromServerFormat text = some path →
      path ≠ [] ∧ (∀ segment ∈ path, segment ≠ "") ∧
        (¬ ['\\', nul] <:+: text.toList → ∀ segment ∈ path, Storable segment)) ∧
    ∀ text, (∀ c ∈ text.toList, c ≠ nul ∧ c ≠ backtick ∧ c ≠ '\\' ∧ c ∉ "~*/[]".toList) →
      fromDotSeparatedString text = fromServerFormat text := by
  have format (path : FieldPath) := scan_intercalate path []
  simp only [List.nil_append] at format
  refine ⟨fun path => ?_, fun text path accepted => ?_, fun text regular => ?_⟩
  · rw [fromServerFormat, canonicalString, String.toList_ofList, format]
  · obtain ⟨nonempty, texts⟩ := segments_of_scan id (fun _ => List.not_mem_nil)
      (fun _ member => absurd member List.not_mem_nil) accepted
    refine ⟨nonempty, fun segment member => (texts segment member).1, ?_⟩
    exact fun unescaped segment member =>
      ⟨(texts segment member).1, (texts segment member).2 unescaped⟩
  · have plain : ∀ c ∈ text.toList, c ≠ '.' → Plain c := by
      intro c member notDot
      obtain ⟨notNul, notBacktick, notBackslash, _⟩ := regular c member
      exact ⟨notNul, notDot, notBacktick, notBackslash⟩
    have allowed : text.toList.any (fun c => "~*/[]".toList.contains c) = false := by
      rw [List.any_eq_false]
      intro c member
      simpa using (regular c member).2.2.2
    have empties (pieces : List (List Char)) :
        (pieces.map String.ofList).any String.isEmpty = pieces.any List.isEmpty := by
      rw [List.any_map]
      congr 1
      funext piece
      cases piece <;> simp [String.isEmpty_iff]
    rw [fromServerFormat, scan_eq_splitOn [] [] plain, fromDotSeparatedString, allowed]
    simp only [Bool.false_eq_true, ↓reduceIte, empties, List.nil_append, modifyHead_self]

/-- An escaped NUL becomes part of a segment, whose canonical text cannot be read. -/
example : fromServerFormat (String.ofList ['a', '\\', nul]) = some [String.ofList ['a', nul]] ∧
    fromServerFormat (canonicalString [String.ofList ['a', nul]]) = none := by
  decide

end FieldPath

end Bowfolio.Firestore
