import Esmify.Source.Pattern
import Esmify.Text.Blank
import Esmify.Text.Word

/-!
# Names and spacing

The smallest things that the readers recognise: names, white space between words, and the tests on
the character before and after a place. **A name** begins with an ASCII letter, an underscore or a
dollar sign and goes on with word characters and dollar signs.
-/

namespace Esmify.Source

open Text

/-! ## Names -/

/-- What a name begins with. -/
def isNameStart (c : Char) : Bool :=
  c.isAlpha || c == '_' || c == '$'

/-- What a name goes on with. -/
def isNameChar (c : Char) : Bool :=
  isWord c || c == '$'

/-- The name that a text begins with, and what follows it. -/
def name? : Text → Option (Text × Text)
  | [] => none
  | c :: cs =>
    if isNameStart c then some (c :: cs.takeWhile isNameChar, cs.dropWhile isNameChar) else none

/-- Whether nothing follows, one last line break aside. -/
def atEnd (rest : Text) : Bool :=
  rest == [] || rest == ['\n']

/-- The name that a text consists of, one last line break aside. -/
def soleName? (t : Text) : Option Text :=
  match name? t with
  | some (name, rest) => if atEnd rest then some name else none
  | none => none

/-- Whether a text is a name, one last line break aside. -/
def isName (t : Text) : Bool :=
  (soleName? t).isSome

/-! ## Places -/

/-- Whether a line begins after the given character. -/
def beginsLine : Option Char → Bool
  | none => true
  | some c => c == '\n'

/-- Whether a statement can begin after the given character: on a new line or after a semicolon. -/
def beginsStatement : Option Char → Bool
  | none => true
  | some c => c == '\n' || c == ';'

/-- Whether a name read after the given character is a name of its own, neither the end of a longer
one nor a member of something. -/
def beginsName : Option Char → Bool
  | none => true
  | some c => !isNameChar c && c != '.'

/-- Whether the given character cannot be part of a name. -/
def outsideName : Option Char → Bool
  | none => true
  | some c => !isNameChar c

/-- Whether the given character is not a word character. -/
def outsideWord : Option Char → Bool
  | none => true
  | some c => !isWord c

/-- What follows a given name at the front that ends there. -/
def endedName? (name t : Text) : Option Text :=
  match after? name t with
  | some rest => if outsideName rest.head? then some rest else none
  | none => none

/-! ## Spacing -/

/-- What follows the white space at the front. -/
def skipBlanks (t : Text) : Text :=
  t.dropWhile isBlank

/-- What follows the blanks and tabs at the front. -/
def skipIndent (t : Text) : Text :=
  t.dropWhile isIndent

/-- What follows the white space at the front, when there is some. -/
def blanks? : Text → Option Text
  | [] => none
  | c :: cs => if isBlank c then some (skipBlanks cs) else none

/-- What follows a word and then any white space. -/
def wordThenBlanks? (word t : Text) : Option Text :=
  (after? word t).map skipBlanks

/-- What follows a word and then some white space. -/
def spacedWord? (word t : Text) : Option Text :=
  (after? word t).bind blanks?

/-- What follows the first of several words that the text begins with. -/
def oneOf? (words : List Text) (t : Text) : Option Text :=
  words.findSome? fun word => after? word t

/-- What follows a character that may or may not be there. -/
def skipOne (c : Char) (t : Text) : Text :=
  (after? [c] t).getD t

/-- What follows a name and the parenthesis after it. -/
def calledName? (name t : Text) : Option Text :=
  (wordThenBlanks? name t).bind (after? ['('])

/-- The keywords that declare a variable. -/
def variableKeywords : List Text :=
  ["const".toList, "let".toList, "var".toList]

/-! ## Searching in white space -/

/-- What `f` gives as far to the right as it gives something, at most `width` characters in. -/
def rightmost? {α : Type} (f : Text → Option α) : (width : Nat) → Text → Option α
  | 0, t => f t
  | _ + 1, [] => f []
  | n + 1, c :: cs => (rightmost? f n cs).or (f (c :: cs))

/-- What `f` gives after white space that may be missing. -/
def afterBlanks? {α : Type} (f : Text → Option α) (t : Text) : Option α :=
  rightmost? f (t.takeWhile isBlank).length t

/-- What `f` gives after some white space. -/
def afterSomeBlanks? {α : Type} (f : Text → Option α) : Text → Option α
  | [] => none
  | c :: cs => if isBlank c then afterBlanks? f cs else none

end Esmify.Source
