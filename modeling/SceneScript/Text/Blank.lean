/-!
# Blank characters

White space is the property `White_Space` of the Unicode standard, so the ideographic space and the
line separators count, and the zero-width joiners do not.  Text is handled as a list of characters.

* `trimStart`, `trimEnd`, `trim` take blanks off the ends;
* `splitOn p` cuts at every character with `p`, so that `n` such characters give `n + 1` pieces;
* `words` are the maximal runs without a blank.
-/

namespace SceneScript.Text

/-- White space of the Unicode standard. -/
def isBlank (c : Char) : Bool :=
  let n := c.toNat
  (0x09 ≤ n && n ≤ 0x0D) || n == 0x20 || n == 0x85 || n == 0xA0 || n == 0x1680 ||
    (0x2000 ≤ n && n ≤ 0x200A) || n == 0x2028 || n == 0x2029 || n == 0x202F || n == 0x205F ||
    n == 0x3000

/-- The text without its leading blanks. -/
def trimStart (cs : List Char) : List Char := cs.dropWhile isBlank

/-- The text without its trailing blanks. -/
def trimEnd (cs : List Char) : List Char := (cs.reverse.dropWhile isBlank).reverse

/-- The text without the blanks at either end. -/
def trim (cs : List Char) : List Char := trimEnd (trimStart cs)

/-- `c` put in front of the first piece. -/
def consHead (c : Char) : List (List Char) → List (List Char)
  | [] => [[c]]
  | w :: ws => (c :: w) :: ws

/-- The pieces between the characters that satisfy `p`. -/
def splitOn (p : Char → Bool) : List Char → List (List Char)
  | [] => [[]]
  | c :: cs => if p c then [] :: splitOn p cs else consHead c (splitOn p cs)

/-- The maximal runs without a blank. -/
def words (cs : List Char) : List (List Char) := (splitOn isBlank cs).filter (!·.isEmpty)

/-- What follows `head` in `cs`, if `cs` starts with it. -/
def dropPrefix? : List Char → List Char → Option (List Char)
  | [], cs => some cs
  | _ :: _, [] => none
  | h :: head, c :: cs => if h = c then dropPrefix? head cs else none

end SceneScript.Text

namespace SceneScript

/-- The text of `s` without the blanks at either end. -/
def trimmed (s : String) : String := String.ofList (Text.trim s.toList)

end SceneScript
