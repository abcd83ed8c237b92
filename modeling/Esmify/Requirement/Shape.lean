import Esmify.Source.Lexeme

/-!
# The shapes of a `require` statement

Two recognisers at different grain. `requireLine` spots a line that holds a `require` call, alone or
after a left-hand side, and may run over several lines inside a brace group or the parentheses.
`statement?` then takes such a line apart: keyword, binding, quote, module, member path and comma.

**No choice is left open.** A left-hand side of `requireLine` has no equals sign in it, so it ends
at the first one; it has no parenthesis either, so a line that begins with the call has no left-hand
side. -/

namespace Esmify.Requirement

open Text Source

/-! ## Calls -/

/-- A call of `require` that is not a member of something. -/
def requireCall : Pattern Unit := fun before t =>
  if beginsName before then
    ((wordThenBlanks? "require".toList t).bind (after? ['('])).map fun rest => ((), rest)
  else none

/-! ## Lines -/

/-- What a left-hand side may hold outside braces. -/
def isPlain (c : Char) : Bool :=
  !(";=/*().\x7b\x7d\n".toList.contains c)

/-- What a left-hand side may hold inside braces. -/
def isGrouped (c : Char) : Bool :=
  !(";=/*().".toList.contains c)

/-- Whether the last brace of a text closes a group and only plain characters follow it. -/
def endsGroup (t : Text) : Bool :=
  (dropEndWhile isPlain t).getLast? == some '\x7d'

/-- What follows the equals sign of a left-hand side: plain characters, at most one brace group
among them. -/
def leftSide? (t : Text) : Option Text :=
  match t.dropWhile isPlain with
  | '=' :: rest => some rest
  | '\x7b' :: inner =>
    match inner.dropWhile isGrouped with
    | '=' :: rest => if endsGroup (inner.takeWhile isGrouped) then some rest else none
    | _ => none
  | _ => none

/-- The rest of the text after a call of `require` with some argument, up to the end of the line. -/
def callLine? (t : Text) : Option Text :=
  match (wordThenBlanks? "require".toList (skipIndent t)).bind (after? ['(']) with
  | some args =>
    match args.takeWhile (· != ')'), args.dropWhile (· != ')') with
    | _ :: _, _ :: rest => some (rest.dropWhile (· != '\n'))
    | _, _ => none
  | none => none

/-- A line that holds a call of `require`, alone or after a left-hand side. -/
def requireLine : Pattern Unit := fun before t =>
  if beginsLine before then
    (((leftSide? t).bind callLine?).or (callLine? t)).map fun rest => ((), rest)
  else none

/-! ## Statements -/

/-- A `require` statement taken apart. -/
structure Statement where
  /-- The keyword of the declaration. -/
  keyword : Option Text
  /-- The left-hand side, trimmed. -/
  binding : Option Text
  quote : Char
  target : Text
  /-- The member taken from the module in the same expression. -/
  path : Option Text
  /-- Whether a comma follows. -/
  comma : Bool
  /-- What follows the statement. -/
  rest : Text
  deriving Repr

/-- A keyword at the front that ends there as a word, and what follows it. -/
def keyword? (t : Text) : Option (Text × Text) :=
  variableKeywords.findSome? fun word =>
    match after? word t with
    | some rest => if outsideWord rest.head? then some (word, rest) else none
    | none => none

/-- The keyword, if any, and the binding of what stands before the equals sign. A keyword with
nothing behind it is itself the binding. -/
def declared? (front : Text) : Option (Option Text × Text) :=
  if front.isEmpty then none
  else
    match keyword? (trimStart front) with
    | some (word, c :: cs) => some (some word, trim (c :: cs))
    | _ => some (none, trim front)

/-- The quotes around a module. -/
def isTargetQuote (c : Char) : Bool :=
  c == '\'' || c == '"'

/-- What may stand in a member path. -/
def isPathChar (c : Char) : Bool :=
  !isBlank c && c != ';'

/-- A member path at the front, and what follows it. -/
def memberPath (t : Text) : Option Text × Text :=
  match t with
  | '.' :: cs =>
    match cs.takeWhile isPathChar with
    | [] => (none, t)
    | path => (some path, cs.dropWhile isPathChar)
  | _ => (none, t)

/-- The argument of a call of `require` at the front: quote, module, and what follows the closing
parenthesis. -/
def callArgument? (t : Text) : Option (Char × Text × Text) :=
  match (wordThenBlanks? "require".toList (skipBlanks t)).bind (wordThenBlanks? ['(']) with
  | some (quote :: cs) =>
    match isTargetQuote quote, cs.takeWhile (!isTargetQuote ·), cs.dropWhile (!isTargetQuote ·) with
    | true, c :: target, _ :: rest =>
      (after? [')'] (skipBlanks rest)).map fun rest' => (quote, c :: target, rest')
    | _, _, _ => none
  | _ => none

/-- A call of `require` at the front with what belongs to its statement, for a left-hand side that
has been read already. -/
def call? (keyword binding : Option Text) (t : Text) : Option Statement :=
  match callArgument? t with
  | some (quote, target, rest) =>
    let (path, rest) := memberPath rest
    let rest := skipOne ';' (skipBlanks rest)
    match after? [','] rest with
    | some rest' => some ⟨keyword, binding, quote, target, path, true, rest'⟩
    | none => some ⟨keyword, binding, quote, target, path, false, rest⟩
  | none => none

/-- The statement with a left-hand side that a text begins with. -/
def assigned? (t : Text) : Option Statement :=
  let front := t.takeWhile (· != '=')
  match t.dropWhile (· != '=') with
  | _ :: rest =>
    if front.contains '/' then none
    else
      match declared? front with
      | some (keyword, binding) => call? keyword (some binding) rest
      | none => none
  | [] => none

/-- The `require` statement that a text begins with. -/
def statement? (t : Text) : Option Statement :=
  (assigned? t).or (call? none none t)

/-! ## Use as a value -/

/-- What follows a name that is constructed or extended. -/
def builtName? (name t : Text) : Option Text :=
  ((spacedWord? "new".toList t).or (spacedWord? "extends".toList t)).bind (endedName? name)

/-- A name that is constructed, extended or called. -/
def valueUse (name : Text) : Pattern Unit := fun before t =>
  let built := if outsideWord before then builtName? name t else none
  let called := if beginsName before then calledName? name t else none
  (built.or called).map fun rest => ((), rest)

/-- Whether a name is constructed, extended or called somewhere in a text. -/
def isUsedAsValue (content name : Text) : Bool :=
  holdsSomewhere (valueUse name) content

/-! ## Whole-module exports of a call -/

/-- Whether a text is an assignment to the exports of the module with nothing on its right. -/
def opensExports (t : Text) : Bool :=
  match (wordThenBlanks? "module.exports".toList (skipIndent t)).bind (wordThenBlanks? ['=']) with
  | some [] => true
  | _ => false

/-- The end of a line front that assigns what follows it to the exports of the module. -/
def exportsAssigned : Pattern Unit := fun before t =>
  if before.isNone && opensExports t then some ((), [])
  else
    match after? [';'] t with
    | some rest => if opensExports rest then some ((), []) else none
    | none => none

end Esmify.Requirement
