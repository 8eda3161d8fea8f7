import Mathlib.Data.List.DropRight

/-!
# Swift texts

Swift compares texts up to canonical equivalence; a text of the model stands for its
canonical normal form, so that the comparison is equality. Unicode case mapping is a
parameter of the results that need it; `asciiLowercased` is what it does to ASCII.
-/

namespace Bowfolio

/-- `lowercased()` on a text of ASCII characters. -/
def asciiLowercased (text : String) : String :=
  String.ofList (text.toList.map Char.toLower)

/-- The members of `CharacterSet.whitespacesAndNewlines`: the category Z, the tab, the
line terminators U+000A to U+000D and U+0085. -/
def isWhitespaceOrNewline (c : Char) : Bool :=
  (0x09 ≤ c.val && c.val ≤ 0x0D) || c.val = 0x20 || c.val = 0x85 || c.val = 0xA0 ||
    c.val = 0x1680 || (0x2000 ≤ c.val && c.val ≤ 0x200A) || c.val = 0x2028 || c.val = 0x2029 ||
    c.val = 0x202F || c.val = 0x205F || c.val = 0x3000

/-- `trimmingCharacters(in: .whitespacesAndNewlines)`. -/
def trimmingCharacters (text : String) : String :=
  String.ofList ((text.toList.dropWhile isWhitespaceOrNewline).rdropWhile isWhitespaceOrNewline)

end Bowfolio
