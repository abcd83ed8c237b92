import Esmify.Text.Basic

/-!
# White space

**Two kinds of empty characters.** `isBlank` is white space of any kind, line breaks, separators
and the no-break space included. `isIndent` is what a line is indented with: the space and the tab.
Trimming works on white space of any kind.
-/

namespace Esmify.Text

/-- White space of any kind, line breaks included. -/
def isBlank (c : Char) : Bool :=
  let n := c.toNat
  (9 ≤ n && n ≤ 13) || (28 ≤ n && n ≤ 32) || n == 0x85 || n == 0xa0 || n == 0x1680
    || (0x2000 ≤ n && n ≤ 0x200a) || n == 0x2028 || n == 0x2029 || n == 0x202f || n == 0x205f
    || n == 0x3000

/-- What a line is indented with. -/
def isIndent (c : Char) : Bool :=
  c == ' ' || c == '\t'

/-- The text without leading white space. -/
def trimStart (t : Text) : Text :=
  t.dropWhile isBlank

/-- The text without trailing white space. -/
def trimEnd (t : Text) : Text :=
  dropEndWhile isBlank t

/-- The text without white space at either end. -/
def trim (t : Text) : Text :=
  trimEnd (trimStart t)

/-- Whether the text holds nothing but white space. -/
def isBlankText (t : Text) : Bool :=
  t.all isBlank

/-- The blanks and tabs that a text begins with. -/
def indentation (t : Text) : Text :=
  t.takeWhile isIndent

/-- The maximal runs without white space, `current` being the run read so far, in reverse. -/
def wordsFrom (current : Text) : Text → List Text
  | [] => if current.isEmpty then [] else [current.reverse]
  | c :: cs =>
    if isBlank c then
      if current.isEmpty then wordsFrom [] cs else current.reverse :: wordsFrom [] cs
    else wordsFrom (c :: current) cs

/-- The maximal runs of characters that are not white space. -/
def words (t : Text) : List Text :=
  wordsFrom [] t

end Esmify.Text
