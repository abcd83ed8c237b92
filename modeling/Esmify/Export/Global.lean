import Esmify.Export.Declaration
import Esmify.Export.Render
import Esmify.Revision

/-!
# Writing global exports

The statement that assigned the exports of the module goes away, and what it exported is exported by
declarations: a declared name gets the word `export` in front of its declaration, an imported name
is re-exported, and a value of its own becomes a statement in place of the old one. -/

namespace Esmify

open Text Source

/-! ## Properties -/

/-- The name under which a property is exported. -/
def exposedName (property : Text) : Text :=
  (partition ':' property).1

/-- The name that a property has in the file, when it is exported under another one. -/
def renamedFrom? (property : Text) : Option Text :=
  match (partition ':' property).2 with
  | some (c :: cs) => some (c :: cs)
  | _ => none

/-- The spans of the first occurrence of a text, if there is one. -/
def spansOf (content raw : Text) : List (Nat × Nat) :=
  match indexOf? raw content with
  | some i => [(i, i + raw.length)]
  | none => []

/-- Marks the declarations of names as exports, and collects the names that are imported. -/
def promoteDeclared : (content : Text) → List Text → Reported (Text × List Text)
  | content, [] => pure (content, [])
  | content, name :: names =>
    match declaration? content name with
    | some d => promoteDeclared (content.insertAt d.start "export ".toList) names
    | none =>
      if (importOf? content name).isSome then do
        let (content', imported) ← promoteDeclared content names
        pure (content', name :: imported)
      else do
        if !isExported content name then Reported.warn (.undeclared name)
        promoteDeclared content names

/-- The import statement that binds a name, with what it binds the name to. -/
def importBinding? (content name : Text) : Option (ImportStatement × ImportedName) :=
  (importOf? content name).bind fun s => (s.binding? name).map fun n => (s, n)

/-- The import statement of each name, with what it binds the name to. Marking a declaration can
take an import statement away that was there before. -/
def importBindings (content : Text) :
    List Text → Except Fault (List (ImportStatement × ImportedName))
  | [] => .ok []
  | name :: names =>
    match importBinding? content name with
    | none => .error (.vanishedImport name)
    | some b => (importBindings content names).map (b :: ·)

/-- The bindings by statement, in the order in which the statements come up first. -/
def byStatement (bs : List (ImportStatement × ImportedName)) :
    List (ImportStatement × List ImportedName) :=
  (bs.map Prod.fst).eraseDups.map fun s =>
    (s, (bs.filter fun b => b.1.start == s.start).map Prod.snd)

/-- The edit that re-exports names of an import statement, and those of them that the text uses
elsewhere: the statement itself becomes an export when all its names are exported and none is
used. -/
def reexportEdit (content raw : Text) (s : ImportStatement) (names : List ImportedName) :
    Edit × List Text :=
  let spans := (s.start, s.stop) :: spansOf content raw
  let used := (names.map (·.localName)).filter fun name => isUsed content name spans
  if used.isEmpty && names.length == s.names.length then
    if s.clause.braced && s.names.all (·.kind == .byName) then
      (⟨s.start, s.start + "import".length, "export".toList⟩, [])
    else (⟨s.start, s.stop, exportFrom s names⟩, [])
  else (⟨s.stop, s.stop, '\n' :: exportFrom s names⟩, used)

/-- The edits that re-export imported names. -/
def reexportEdits (content raw : Text) :
    List (ImportStatement × List ImportedName) → Revision (List Edit)
  | [] => pure []
  | (s, names) :: rest => do
    let (edit, used) := reexportEdit content raw s names
    Revision.warnEach .usedAndExported used
    let edits ← reexportEdits content raw rest
    pure (edit :: edits)

/-- Exports names of the file: marks their declarations, and re-exports what is imported. -/
def promoteProperties (content raw : Text) (names : List Text) : Revision Text := do
  let (content, imported) ← Revision.ofReported (promoteDeclared content names)
  let bound ← Revision.ofExcept (importBindings content imported)
  let edits ← reexportEdits content raw (byStatement bound)
  Revision.ofExcept (applyEdits content edits)

/-! ## Key sets -/

/-- Exports all keys of an object: everything that a module exports, or else the object itself. -/
def promoteKeySet (content raw name : Text) : Reported Text :=
  let declared : Reported Text :=
    match declaration? content name with
    | some d => do
      Reported.warn (.localKeySet name)
      pure (content.insertAt d.start "export ".toList)
    | none => do
      if !isExported content name then Reported.warn (.undeclared name)
      pure content
  match importOf? content name with
  | some s =>
    if ((s.binding? name).map (·.kind)).getD .byName == .byName then declared
    else
      let wildcard := "export * from ".toList ++ specifier [s.quote] s.target ++ [';']
      let spans := (s.start, s.stop) :: spansOf content raw
      if s.names.length == 1 && !isUsed content name spans then
        pure (content.splice s.start s.stop wildcard)
      else pure (content.insertAt s.stop ('\n' :: wildcard))
  | none => declared

/-- Exports all keys of several objects. -/
def promoteKeySets (raw : Text) : (content : Text) → List Text → Reported Text
  | content, [] => pure content
  | content, name :: names => do
    let content ← promoteKeySet content raw name
    promoteKeySets raw content names

/-! ## The statement itself -/

/-- Puts export statements before the old statement, one paragraph each. -/
def insertAssignments (raw : Text) : (content : Text) → List Assignment → Except Fault Text
  | content, [] => .ok content
  | content, a :: as =>
    match insertParagraphBefore content raw a.render with
    | .ok content => insertAssignments raw content as
    | .error e => .error e

/-- Makes the value assigned to the exports the default export: at its declaration when it is a
declared function or class, else in place of the old statement. -/
def exportDefault (content raw expression : Text) : Revision Text :=
  let ending := if raw.getLast? == some '\n' then ['\n'] else []
  let inPlace (semicolon : Text) : Text :=
    content.replaceFirst raw ("export default ".toList ++ expression ++ semicolon ++ ending)
  if !isName expression then
    pure (inPlace
      (if beginsDeclaration expression && expression.getLast? == some '\x7d' then [] else [';']))
  else
    match declaration? content expression with
    | some d =>
      if beginsDeclaration (d.text content) then
        Revision.ofExcept (dropBlock (content.insertAt d.start "export default ".toList) raw)
      else pure (inPlace [';'])
    | none =>
      if (importOf? content expression).isSome then pure (inPlace [';'])
      else do
        Revision.warn (.undeclared expression)
        pure content

/-- The members of an object exported by statements of their own: properties under another name. -/
def renamedAssignments (properties : List Text) : List Assignment :=
  properties.filterMap fun p => (renamedFrom? p).map fun name => ⟨exposedName p, name, none⟩

/-- Writes the members of an exported object. -/
def writeMembers (content raw : Text) (e : GlobalExports) : Revision Text := do
  let content ← Revision.ofExcept (insertAssignments raw content (renamedAssignments e.properties))
  let content ← promoteProperties content raw
    (e.properties.filter fun p => (renamedFrom? p).isNone)
  let content ← Revision.ofReported (promoteKeySets raw content e.keySets)
  let content ← Revision.ofExcept (insertAssignments raw content e.assignments)
  Revision.ofExcept (dropBlock content raw)

/-- Writes the global exports of a text. -/
def writeGlobal (content : Text) (e : GlobalExports) : Revision Text :=
  match e.raw.getD [] with
  | [] => pure content
  | c :: cs =>
    let raw := c :: cs
    if occursIn raw content then
      match e.direct.getD [] with
      | [] => writeMembers content raw e
      | d :: ds => exportDefault content raw (d :: ds)
    else do
      Revision.warn (.lostExport raw)
      pure content

end Esmify
