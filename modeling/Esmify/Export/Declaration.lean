import Esmify.Source.Lexeme

/-!
# Declarations and uses of a name

Where a name is declared, whether it is exported already, and whether it is used. Names are taken
literally, whatever characters they have; where white space of any length may stand before a name,
the name is read as far to the right as it can be.
-/

namespace Esmify

open Text Source

/-! ## Declarations -/

/-- How many characters of white space, with at most one star in it, a text begins with. -/
def starGap (t : Text) : Nat :=
  let blanks := t.takeWhile isBlank
  match t.dropWhile isBlank with
  | '*' :: rest => blanks.length + 1 + (rest.takeWhile isBlank).length
  | _ => blanks.length

/-- What follows a word that may or may not be there with white space behind it. -/
def skipSpacedWord (word t : Text) : Text :=
  (spacedWord? word t).getD t

/-- The declaration of a function at the start of a line. -/
def functionDeclaration (name : Text) : Pattern Unit := fun before t =>
  if beginsLine before then
    match after? "function".toList (skipSpacedWord "async".toList t) with
    | some rest => (rightmost? (calledName? name) (starGap rest) rest).map fun rest => ((), rest)
    | none => none
  else none

/-- The declaration of a variable at the start of a line. -/
def variableDeclaration (name : Text) : Pattern Unit := fun before t =>
  if beginsLine before then
    ((oneOf? variableKeywords t).bind (afterSomeBlanks? (endedName? name))).map fun rest =>
      ((), rest)
  else none

/-- The declaration of a class at the start of a line. -/
def classDeclaration (name : Text) : Pattern Unit := fun before t =>
  if beginsLine before then
    ((after? "class".toList t).bind (afterSomeBlanks? (endedName? name))).map fun rest => ((), rest)
  else none

/-- The declaration of a name: of a function if there is one, else of a variable, else of a
class. -/
def declaration? (content name : Text) : Option (Occurrence Unit) :=
  ((first? (functionDeclaration name) content).or
    (first? (variableDeclaration name) content)).or
    (first? (classDeclaration name) content)

/-- Whether a text begins with a function or a class. -/
def beginsDeclaration (t : Text) : Bool :=
  match oneOf? ["function".toList, "class".toList] (skipSpacedWord "async".toList t) with
  | some rest => outsideWord rest.head?
  | none => false

/-! ## Exports -/

/-- An exported declaration of a name. -/
def exportedDeclaration? (name t : Text) : Option Text :=
  match spacedWord? "export".toList t with
  | some rest =>
    let rest := skipSpacedWord "async".toList (skipSpacedWord "default".toList rest)
    match after? "function".toList rest with
    | some rest => rightmost? (endedName? name) (starGap rest) rest
    | none =>
      (oneOf? (variableKeywords ++ ["class".toList]) rest).bind
        (afterBlanks? (endedName? name))
  | none => none

/-- Whether a name is the end of an item in a list that ends at the first closing brace; `before` is
the character before the text. -/
def isListed (name : Text) : (before : Char) → Text → Bool
  | before, t =>
    let here :=
      match !isNameChar before, after? name t with
      | true, some rest =>
        match (skipBlanks rest).head? with
        | some c => c == ',' || c == '\x7d'
        | none => false
      | _, _ => false
    match t with
    | [] => here
    | c :: cs => here || (c != '\x7d' && isListed name c cs)

/-- Whether an export list that has the name begins here. -/
def isInList (name t : Text) : Bool :=
  match (wordThenBlanks? "export".toList t).bind (after? ['\x7b']) with
  | some inner => isListed name '\x7b' inner
  | none => false

/-- A module exported as a whole under the name. -/
def exportedNamespace? (name t : Text) : Option Text :=
  (((spacedWord? "export".toList t).bind (spacedWord? ['*'])).bind (after? "as".toList)).bind
    (afterSomeBlanks? (endedName? name))

/-- An export of a name at the start of a line. -/
def exportOfName (name : Text) : Pattern Unit := fun before t =>
  if beginsLine before &&
      ((exportedDeclaration? name t).isSome || isInList name t
        || (exportedNamespace? name t).isSome)
  then some ((), t) else none

/-- Whether a name is exported. -/
def isExported (content name : Text) : Bool :=
  holdsSomewhere (exportOfName name) content

/-! ## Uses -/

/-- A reference to a name, keys of objects and members aside. -/
def reference (name : Text) : Pattern Unit := fun before t =>
  if beginsName before then
    match endedName? name t with
    | some rest => if (skipBlanks rest).head? == some ':' then none else some ((), rest)
    | none => none
  else none

/-- Whether a name is referred to outside the given spans. -/
def isUsed (content name : Text) (spans : List (Nat × Nat)) : Bool :=
  (occurrences (reference name) content).any fun o =>
    !(spans.any fun s => s.1 ≤ o.start && o.start < s.2)

end Esmify
