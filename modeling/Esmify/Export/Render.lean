import Esmify.Export.Basic
import Esmify.Import.Statement
import Esmify.Import.Writer
import Esmify.Source.Bracket

/-!
# Rendering exports

`exportFrom` re-exports names of an import statement, and `Assignment.render` turns a member of an
exported object into an export statement: a function keeps being a function, and anything else
becomes a constant.
-/

namespace Esmify

open Text Source

/-! ## Re-exports -/

/-- The item of an export list for an imported name; a module as a whole has none. -/
def exportItem? (n : ImportedName) : Option Text :=
  match n.kind with
  | .byDefault => some ("default as ".toList ++ n.localName)
  | .byName =>
    some (if n.imported == n.localName then n.imported
      else n.imported ++ " as ".toList ++ n.localName)
  | .asNamespace => none

/-- The line that re-exports a module as a whole under a name. -/
def namespaceLine? (written : Text) (n : ImportedName) : Option Text :=
  match n.kind with
  | .asNamespace =>
    some ("export * as ".toList ++ n.localName ++ " from ".toList ++ written ++ [';'])
  | _ => none

/-- The lines that re-export the given names of an import statement, the list of single names
first. -/
def exportFrom (s : ImportStatement) (names : List ImportedName) : Text :=
  let written := specifier [s.quote] s.target
  let items := names.filterMap exportItem?
  let wholes := names.filterMap (namespaceLine? written)
  unlines (if items.isEmpty then wholes
    else ("export \x7b ".toList ++ ", ".toList.intercalate items ++ " \x7d from ".toList
      ++ written ++ [';']) :: wholes)

/-! ## Values -/

/-- A function expression without a name: its head up to the parameters, and the rest. -/
def functionValue? (t : Text) : Option (Text × Text) :=
  match after? "function".toList ((spacedWord? "async".toList t).getD t) with
  | some rest =>
    let tail := (after? ['*'] (skipBlanks rest)).getD rest
    match skipBlanks tail with
    | '(' :: cs => some (t.take (t.length - tail.length), '(' :: cs)
    | _ => none
  | none => none

/-- The parameters of an arrow function, in parentheses or as a single name, and what follows
them. -/
def arrowParams? (t : Text) : Option (Text × Text) :=
  match t with
  | '(' :: cs =>
    match cs.dropWhile (· != ')') with
    | _ :: rest => some ('(' :: cs.takeWhile (· != ')') ++ [')'], rest)
    | [] => none
  | _ => name? t

/-- What follows the arrow of an arrow function, when it is a block. -/
def arrowBody? (t : Text) : Option Text :=
  match wordThenBlanks? "=>".toList (skipBlanks t) with
  | some ('\x7b' :: cs) => some ('\x7b' :: cs)
  | _ => none

/-- Parameters, and the body of an arrow function from its brace on. -/
def arrow? (t : Text) : Option (Text × Text) :=
  match arrowParams? t with
  | some (params, rest) => (arrowBody? rest).map fun body => (params, body)
  | none => none

/-- The parameters of an arrow function in parentheses. -/
def inParens (params : Text) : Text :=
  if params.head? == some '(' then params else '(' :: params ++ [')']

/-- An arrow function with a block at the front of a text: the word `async` with its white space if
it is there, the parameters, and the body from its brace on. -/
def blockArrow? (t : Text) : Option (Text × Text × Text) :=
  let plain := (arrow? t).map fun (params, body) => ([], params, body)
  match spacedWord? "async".toList t with
  | some rest =>
    match arrow? rest with
    | some (params, body) => some (t.take (t.length - rest.length), params, body)
    | none => plain
  | none => plain

/-- The export statement for a value, without its comment. -/
def renderValue (key value : Text) : Text :=
  let constant := "export const ".toList ++ key ++ " = ".toList ++ value ++ [';']
  if occursIn (' ' :: key ++ ['(']) (value.takeWhile (· != '\n')) then
    "export ".toList ++ value
  else
    match functionValue? value with
    | some (head, rest) => "export ".toList ++ head ++ ' ' :: key ++ rest
    | none =>
      match blockArrow? value with
      | some (isAsync, params, body) =>
        if closing? body 0 = some (body.length - 1) then
          "export ".toList ++ isAsync ++ "function ".toList ++ key ++ inParens params ++ ' ' :: body
        else constant
      | none => constant

/-- One member of an exported object as an export statement, below its comment. -/
def Assignment.render (a : Assignment) : Text :=
  match a.comment with
  | some (c :: cs) => (c :: cs) ++ '\n' :: renderValue a.key a.value
  | _ => renderValue a.key a.value

end Esmify
