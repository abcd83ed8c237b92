import Esmify.Export.Block
import Esmify.Requirement.Shape
import Esmify.Source.Statement

/-!
# Reading exports

`Exports.read` finds what a text exports. **The global exports are the first statement of the
strongest form that occurs**: an object literal assigned to `module.exports`, else an object merged
into it by a call, else any other value assigned to it. What is not fully understood gives no global
exports and one warning. Inline exports are all found, in order.
-/

namespace Esmify

open Text Source

/-! ## Patterns -/

/-- What follows `exports` or `module.exports` at the front. -/
def exportsWord? (t : Text) : Option Text :=
  after? "exports".toList ((after? "module.".toList t).getD t)

/-- What follows `module.exports` and an equals sign, each with its white space before it. -/
def moduleExportsAssigned? (t : Text) : Option Text :=
  (wordThenBlanks? "module.exports".toList t).bind (after? ['='])

/-- An object literal assigned to `module.exports`; the value is the text from its brace on. -/
def objectAssignment : Pattern Text := fun before t =>
  if beginsStatement before then
    match (moduleExportsAssigned? (skipIndent t)).map skipBlanks with
    | some ('\x7b' :: rest) => some ('\x7b' :: rest, rest)
    | _ => none
  else none

/-- The functions that merge objects into their first argument. -/
def mergeFunctions : List Text :=
  ["Object.assign", "_.assign", "_.extend", "lodash.assign", "lodash.extend", "$.extend"].map
    String.toList

/-- A call that merges objects into the exports; the value is the text from its parenthesis on. -/
def mergeCall : Pattern Text := fun before t =>
  if beginsStatement before then
    match (oneOf? mergeFunctions (skipIndent t)).map skipBlanks with
    | some ('(' :: rest) =>
      (((exportsWord? (skipBlanks rest)).map skipBlanks).bind (after? [','])).map fun args =>
        ('(' :: rest, args)
    | _ => none
  else none

/-- A single equals sign at the front, not one of a comparison. -/
def assignSign? (t : Text) : Option Text :=
  match t with
  | '=' :: '=' :: _ => none
  | '=' :: rest => some rest
  | _ => none

/-- Any value assigned to `module.exports`. -/
def directAssignment : Pattern Unit := fun before t =>
  if beginsStatement before then
    ((wordThenBlanks? "module.exports".toList (skipIndent t)).bind assignSign?).map fun rest =>
      ((), skipIndent rest)
  else none

/-- A property of the exports that is assigned to; the value is its name. -/
def inlineExport : Pattern Text := fun before t =>
  if beginsStatement before then
    match ((exportsWord? (skipIndent t)).bind (after? ['.'])).bind name? with
    | some (name, rest) => (assignSign? (skipBlanks rest)).map fun rest => (name, skipBlanks rest)
    | none => none
  else none

/-! ## Object literals -/

/-- The trouble with an object literal that is not made of names, spreads and simple values. -/
def literalTrouble? (code : Text) : Option Reason :=
  if hasCodeChar code "\x7b\x7d".toList then some .exportsInnerScope
  else if hasCodeChar code "()".toList then some .exportsCalls
  else if hasCodeChar code "[]".toList then some .exportsTooComplex
  else none

/-- Adds the members given by their texts, blank ones left out. -/
def addMembers (e : GlobalExports) : List Text → Except Rejection GlobalExports
  | [] => .ok e
  | piece :: rest =>
    if isBlankText piece then addMembers e rest
    else
      match Member.parse (trim piece) with
      | .ok m => addMembers (e.add none m) rest
      | .error r => .error r

/-- Reads the text between the braces of an exported object; `snippet` is shown when it is declined.
Nested scopes, calls and brackets are only read in experimental mode. -/
def readLiteral (inner snippet : Text) (experimental : Bool) : Except Rejection GlobalExports :=
  let code := stripComments inner
  match literalTrouble? code with
  | some reason => if experimental then readBlock inner else .error ⟨reason, snippet⟩
  | none =>
    match addMembers {} (splitTopLevel code ',') with
    | .ok e => .ok e
    | .error r => .error ⟨r.reason, snippet⟩

/-! ## Statements -/

/-- What follows the end of a statement that has just been closed by a bracket: a semicolon, a line
comment and the line break. `none` when more code follows on the line. -/
def statementTail? (t : Text) : Option Text :=
  let rest := skipIndent (skipOne ';' (skipIndent t))
  let rest := match rest with
    | '/' :: '/' :: cs => cs.dropWhile (· != '\n')
    | _ => rest
  let rest := skipOne '\n' rest
  let tail := t.take (t.length - rest.length)
  if rest.isEmpty || tail.getLast? == some '\n' || tail.contains ';' then some rest else none

/-- A statement that runs from `start` to a closing bracket: where the bracket stands and the source
of the statement, or why it cannot be read. -/
def closedStatement (content : Text) (start opened : Nat) : Except Rejection (Nat × Text) :=
  match closing? content opened with
  | none => .error ⟨.exportsUnterminated, content.slice start (content.lineEnd opened)⟩
  | some close =>
    match statementTail? (content.drop (close + 1)) with
    | none => .error ⟨.exportsTooComplex, content.slice start (content.lineEnd close)⟩
    | some rest => .ok (close, content.slice start (content.length - rest.length))

/-- The exports of an object literal assigned to `module.exports`. -/
def readObject (content : Text) (m : Occurrence Text) (experimental : Bool) :
    Except Rejection GlobalExports :=
  let opened := content.length - m.value.length
  match closedStatement content m.start opened with
  | .error r => .error r
  | .ok (close, raw) =>
    match readLiteral (content.slice (opened + 1) close) raw experimental with
    | .ok e => .ok { e with raw := some raw, start := some m.start }
    | .error r => .error r

/-- The names of the merged objects, and the text between the braces of the last one when it is a
literal. -/
def mergedObjects : List Text → Option (List Text × Option Text)
  | [] => some ([], none)
  | piece :: rest =>
    let code := trim (stripComments piece)
    if rest.isEmpty && code.head? == some '\x7b' && code.getLast? == some '\x7d' then
      match (Source.code piece).find? fun p => p.2 == '\x7b' with
      | some (brace, _) =>
        (closing? piece brace).map fun close => ([], some (piece.slice (brace + 1) close))
      | none => none
    else
      match soleName? code with
      | some name => (mergedObjects rest).map fun (names, inner) => (name :: names, inner)
      | none => none

/-- The exports of a call that merges objects into the exports. -/
def readMerge (content : Text) (m : Occurrence Text) (experimental : Bool) :
    Except Rejection GlobalExports :=
  let opened := content.length - m.value.length
  match closedStatement content m.start opened with
  | .error r => .error r
  | .ok (close, raw) =>
    let pieces := (splitTopLevel (content.slice m.stop close) ',').filter fun p =>
      !isBlankText (stripComments p)
    if pieces.isEmpty then .error ⟨.exportsTooComplex, raw⟩
    else
      match mergedObjects pieces with
      | none => .error ⟨.exportsTooComplex, raw⟩
      | some (names, none) => .ok { raw := some raw, keySets := names, start := some m.start }
      | some (names, some inner) =>
        match readLiteral inner raw experimental with
        | .ok e =>
          .ok { e with raw := some raw, start := some m.start, keySets := names ++ e.keySets }
        | .error r => .error r

/-- Whether a text has a call of `require` in code. -/
def hasRequireCall (t : Text) : Bool :=
  !(codeOccurrences Requirement.requireCall t).isEmpty

/-- What follows the blanks and the line break after a statement. -/
def skipLineEnd (t : Text) : Text :=
  skipOne '\n' (skipIndent t)

/-- The exports of any other value assigned to `module.exports`. -/
def readDirect (content : Text) (m : Occurrence Unit) : Except Rejection GlobalExports :=
  let (exprEnd, stop) := statementEnd content m.stop
  let expression := trim (stripComments (content.slice m.stop exprEnd))
  if expression.isEmpty then .ok {}
  else if hasRequireCall expression then
    .error ⟨.exportsRequire, trim (content.slice m.start stop)⟩
  else
    let rest := skipLineEnd (content.drop stop)
    .ok { raw := some (content.slice m.start (content.length - rest.length))
          direct := some expression
          start := some m.start }

/-! ## Texts -/

/-- Finds and reads the global exports of a text. -/
def findGlobal (content : Text) (experimental : Bool) : Except Rejection GlobalExports :=
  match first? objectAssignment content with
  | some m => readObject content m experimental
  | none =>
    match first? mergeCall content with
    | some m => readMerge content m experimental
    | none =>
      match first? directAssignment content with
      | some m => readDirect content m
      | none => .ok {}

/-- The global exports of a text; what is declined is reported and gives none. -/
def GlobalExports.read (content : Text) (experimental : Bool) : Reported GlobalExports :=
  match findGlobal content experimental with
  | .ok e => pure e
  | .error r => do
    Reported.warn (.rejected r)
    pure {}

/-- The inline exports of a text, in order. -/
def InlineExport.readAll (content : Text) : List InlineExport :=
  (occurrences inlineExport content).map fun m =>
    { raw := m.text content
      full := content.slice m.start (statementEnd content m.stop).2
      property := m.value
      start := some m.start }

/-- All exports of a text. -/
def Exports.read (content : Text) (experimental : Bool) : Reported Exports := do
  let global ← GlobalExports.read content experimental
  pure ⟨global, InlineExport.readAll content⟩

end Esmify
