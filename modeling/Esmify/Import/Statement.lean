import Esmify.Source.Lexeme

/-!
# Import statements

Import statements as the export writer needs them: where they stand, which module they name and
which local names they bind. `importStatements` finds them at the starts of lines; a clause may run
over several lines and ends at the first `from` that a quoted module follows.
-/

namespace Esmify

open Text Source

/-- How a local name is bound by an import. -/
inductive ImportKind
  /-- The default export of the module. -/
  | byDefault
  /-- The module as a whole. -/
  | asNamespace
  /-- One export of the module. -/
  | byName
  deriving DecidableEq, Repr

/-- A local name of an import statement, and what it stands for in the module. -/
structure ImportedName where
  kind : ImportKind
  localName : Text
  imported : Text
  deriving DecidableEq, Repr

/-- The names of an import clause, and whether it has braces. -/
structure ImportClause where
  names : List ImportedName
  braced : Bool
  deriving DecidableEq, Repr

/-- An import statement of a text. -/
structure ImportStatement where
  raw : Text
  start : Nat
  quote : Char
  target : Text
  clause : ImportClause
  deriving DecidableEq, Repr

namespace ImportStatement

/-- Where the statement ends. -/
def stop (s : ImportStatement) : Nat :=
  s.start + s.raw.length

/-- The names that the statement binds. -/
def names (s : ImportStatement) : List ImportedName :=
  s.clause.names

/-- What the statement binds a local name to. -/
def binding? (s : ImportStatement) (name : Text) : Option ImportedName :=
  s.names.find? fun n => n.localName == name

end ImportStatement

/-! ## Clauses -/

/-- The name in `* as name`. -/
def namespaceName? (t : Text) : Option Text :=
  match (wordThenBlanks? ['*'] t).bind (spacedWord? "as".toList) with
  | some rest => soleName? rest
  | none => none

/-- The name bound by one part of a clause outside braces. -/
def outerName? (part : Text) : Option ImportedName :=
  let part := trim part
  match namespaceName? part with
  | some name => some ⟨.asNamespace, name, ['*']⟩
  | none => if isName part then some ⟨.byDefault, part, "default".toList⟩ else none

/-- The parts of a text before and after the first ` as `. -/
def splitAs (t : Text) : Text × Text :=
  match indexOf? " as ".toList t with
  | some i => (t.take i, t.drop (i + 4))
  | none => (t, [])

/-- The name bound by one part of a clause inside braces. -/
def innerName? (part : Text) : Option ImportedName :=
  let (key, localName) := splitAs (trim part)
  let key := trim key
  let localName := trim localName
  if key.isEmpty then none
  else some ⟨.byName, if localName.isEmpty then key else localName, key⟩

/-- The offset of the last occurrence of a character. -/
def lastIndexOf? (c : Char) (t : Text) : Option Nat :=
  match dropEndWhile (· != c) t with
  | [] => none
  | front => some (front.length - 1)

/-- Reads the clause of an import statement: names outside braces, then those inside. -/
def ImportClause.parse (text : Text) : ImportClause :=
  let t := trim text
  let outer := t.takeWhile (· != '\x7b')
  match t.dropWhile (· != '\x7b') with
  | [] => ⟨(outer.splitOn ',').filterMap outerName?, false⟩
  | _ :: rest =>
    let inner := match lastIndexOf? '\x7d' t with
      | some stop => t.slice (outer.length + 1) stop
      | none => rest.dropLast
    ⟨(outer.splitOn ',').filterMap outerName? ++ (inner.splitOn ',').filterMap innerName?, true⟩

/-! ## Statements -/

/-- The quotes around a module. -/
def isModuleQuote (c : Char) : Bool :=
  c == '\'' || c == '"'

/-- The quoted module after `from`, and what follows the statement. -/
def fromModule? (t : Text) : Option ((Char × Text) × Text) :=
  match spacedWord? "from".toList t with
  | some (quote :: cs) =>
    match isModuleQuote quote, cs.takeWhile (!isModuleQuote ·), cs.dropWhile (!isModuleQuote ·) with
    | true, c :: target, close :: rest =>
      if close = quote then
        let rest := skipIndent rest
        some ((quote, c :: target), (after? [';'] rest).getD rest)
      else none
    | _, _, _ => none
  | _ => none

/-- What the recogniser of a statement finds: clause, quote and module. -/
structure ImportParts where
  clause : Text
  quote : Char
  target : Text
  deriving Repr

/-- Reads a clause up to the first `from` after white space that a quoted module follows; `spaced`
says that white space has just been read, and `read` is the clause so far, in reverse. -/
def clauseFrom? : (spaced : Bool) → (read : Text) → Text → Option (ImportParts × Text)
  | _, _, [] => none
  | spaced, read, c :: cs =>
    match (if spaced then fromModule? (c :: cs) else none) with
    | some ((quote, target), rest) => some (⟨read.reverse, quote, target⟩, rest)
    | none =>
      if c == ';' || isModuleQuote c then none else clauseFrom? (isBlank c) (c :: read) cs

/-- An import statement with a clause, at the start of a line. -/
def importPattern : Pattern ImportParts := fun before t =>
  if beginsLine before then
    match after? "import".toList t with
    | some rest =>
      let blanks := rest.takeWhile isBlank
      if blanks.isEmpty then none
      else clauseFrom? (blanks.length != 1) [] (rest.dropWhile isBlank)
    | none => none
  else none

/-- The import statements of a text that bind names, in order. -/
def importStatements (content : Text) : List ImportStatement :=
  (occurrences importPattern content).map fun o =>
    ⟨o.text content, o.start, o.value.quote, o.value.target, ImportClause.parse o.value.clause⟩

/-- The first import statement that binds a local name. -/
def importOf? (content name : Text) : Option ImportStatement :=
  (importStatements content).find? fun s => (s.binding? name).isSome

end Esmify
