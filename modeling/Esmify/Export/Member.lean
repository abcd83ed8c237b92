import Esmify.Export.Basic
import Esmify.Source.Bracket
import Esmify.Source.Lexeme
import Esmify.Warning

/-!
# Members of an exported object

`Member.parse` reads one member of an object literal, comments removed: a spread, a name, a key with
a value, or a method, which becomes a function with a name.
-/

namespace Esmify

open Text Source

/-! ## Methods -/

/-- The head of a method: its modifiers, its name and the text from the parameters on. -/
structure MethodHead where
  isAsync : Bool
  isGenerator : Bool
  name : Text
  fromParams : Text
  deriving Repr

/-- The head of a method without the word `async`. -/
def plainHead? (isAsync : Bool) (t : Text) : Option MethodHead :=
  let (star, t) := match t with
    | '*' :: cs => (true, skipBlanks cs)
    | _ => (false, t)
  match name? t with
  | some (name, rest) =>
    match skipBlanks rest with
    | '(' :: cs => some ⟨isAsync, star, name, '(' :: cs⟩
    | _ => none
  | none => none

/-- The head of a method at the front of a text; `async` may itself be the name. -/
def methodHead? (t : Text) : Option MethodHead :=
  ((spacedWord? "async".toList t).bind (plainHead? true)).or (plainHead? false t)

/-- The method as a function expression with a name, when a body follows the parameters. -/
def MethodHead.asFunction? (m : MethodHead) : Option Text :=
  match closing? m.fromParams 0 with
  | some close =>
    if (trimStart (m.fromParams.drop (close + 1))).head? == some '\x7b' then
      some ((if m.isAsync then "async ".toList else []) ++ "function".toList
        ++ (if m.isGenerator then ['*'] else []) ++ ' ' :: m.name ++ m.fromParams)
    else none
  | none => none

/-- A method at the front of a text as a function expression with a name. -/
def methodAsFunction? (t : Text) : Option Text :=
  (methodHead? t).bind MethodHead.asFunction?

/-! ## Members -/

/-- The name after three dots. -/
def spreadName? (t : Text) : Option Text :=
  match wordThenBlanks? "...".toList t with
  | some rest => soleName? rest
  | none => none

/-- The key before a colon and the value after it, trimmed; something has to follow the colon. -/
def keyValue? (t : Text) : Option (Text × Text) :=
  match name? t with
  | some (key, rest) =>
    match skipBlanks rest with
    | ':' :: c :: cs => some (key, trim (c :: cs))
    | _ => none
  | none => none

/-- The member for a key with a value; a value that is a name makes it a property. -/
def Member.ofKeyValue (key value : Text) : Member :=
  if value == key then .property key
  else if isName value then .property (key ++ ':' :: value)
  else .assignment key value

/-- Reads one member of an object literal, comments removed. -/
def Member.parse (t : Text) : Except Rejection Member :=
  match spreadName? t with
  | some name => .ok (.keySet name)
  | none =>
    match soleName? t with
    | some name => .ok (.property name)
    | none =>
      match keyValue? t with
      | some (key, value) => .ok (Member.ofKeyValue key value)
      | none =>
        match methodHead? t with
        | some m =>
          match m.asFunction? with
          | some value => .ok (.assignment m.name value)
          | none => .error ⟨.exportsInvalidMember, t⟩
        | none => .error ⟨.exportsInvalidMember, t⟩

end Esmify
