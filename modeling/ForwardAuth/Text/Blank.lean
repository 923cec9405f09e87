/-!
# Blank characters

The characters with the property `White_Space`, and the removal of them from both ends of a text.
Header values and token files are trimmed before they are used, so that a trailing line break or a
padded header names the same user as the bare text.

## Main definitions

* `isBlank`: A character with the property `White_Space`.
* `trimChars`: A list of characters without the blanks at its ends.
* `trim`: A string without the blanks at its ends.
-/

namespace ForwardAuth.Text

/-- The character has the property `White_Space`. -/
def isBlank (c : Char) : Bool :=
  let n := c.toNat
  (0x09 ≤ n && n ≤ 0x0D) || n == 0x20 || n == 0x85 || n == 0xA0 || n == 0x1680 ||
    (0x2000 ≤ n && n ≤ 0x200A) || n == 0x2028 || n == 0x2029 || n == 0x202F || n == 0x205F ||
    n == 0x3000

/-- The list without the blanks it begins and ends with. -/
def trimChars (cs : List Char) : List Char :=
  ((cs.dropWhile isBlank).reverse.dropWhile isBlank).reverse

/-- The string without the blanks it begins and ends with. -/
def trim (s : String) : String :=
  String.ofList (trimChars s.toList)

end ForwardAuth.Text
