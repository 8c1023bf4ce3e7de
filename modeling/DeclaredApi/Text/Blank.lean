/-!
# `DeclaredApi.Text.Blank`: blank characters and trimming

Names in a configuration, placeholders in a path template and bodies of a response are
compared after the blank characters at both ends are dropped. Blank means the Unicode
property `White_Space`, twenty-five code points that `isBlank` lists by range. Texts are
lists of characters here and in the modules that take texts apart; a `String` is turned
into one at the border.
-/

set_option autoImplicit false

namespace DeclaredApi.Text

/-- A character with the Unicode property `White_Space`. -/
def isBlank (c : Char) : Bool :=
  let n := c.toNat
  (0x9 ≤ n && n ≤ 0xD) || n == 0x20 || n == 0x85 || n == 0xA0 || n == 0x1680 ||
    (0x2000 ≤ n && n ≤ 0x200A) || n == 0x2028 || n == 0x2029 || n == 0x202F ||
    n == 0x205F || n == 0x3000

/-- The text without the blank characters it starts with. -/
def trimStart (text : List Char) : List Char :=
  text.dropWhile isBlank

/-- The text without the blank characters it ends with. -/
def trimEnd (text : List Char) : List Char :=
  (trimStart text.reverse).reverse

/-- The text without the blank characters at either end. -/
def trim (text : List Char) : List Char :=
  trimEnd (trimStart text)

/-- A string that holds nothing but blank characters. -/
def isBlankString (s : String) : Bool :=
  s.toList.all isBlank

/-- An ASCII capital as its small letter; every other character as it is. -/
def foldCase (s : String) : String :=
  s.map Char.toLower

theorem foldCase_eq_iff {s t : String} :
    foldCase s = t ↔ s.toList.map Char.toLower = t.toList := by
  rw [← String.toList_inj, foldCase, String.toList_map]

theorem foldCase_eq_foldCase_iff {s t : String} :
    foldCase s = foldCase t ↔ s.toList.map Char.toLower = t.toList.map Char.toLower := by
  rw [foldCase_eq_iff, foldCase, String.toList_map]

end DeclaredApi.Text
