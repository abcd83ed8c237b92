import Esmify.Export.Member

/-!
# Reading an exported object line by line

An object literal with functions, calls and nested blocks is read by its layout. **Member lines**
stand one indentation unit deep; a member whose brackets are not balanced on its line opens a block,
which deeper lines continue until the brackets close. Comments above a member go with it.

`BlockReader.feed` takes one line; `readBlock` reads the text between the braces.
-/

namespace Esmify

open Text Source

/-! ## Lines -/

/-- What a line is, seen with one indentation unit removed. -/
inductive LineKind
  | blank
  | lineComment
  | commentStart
  | blockEnd
  | continuation
  | member
  deriving DecidableEq, Repr

/-- What a line is; `body` is the line with one indentation unit removed. -/
def LineKind.of (body : Text) : LineKind :=
  match trim body with
  | [] => .blank
  | first :: rest =>
    if (body.head?.map isIndent).getD false then .continuation
    else if first == '/' && rest.head? == some '/' then .lineComment
    else if first == '/' && rest.head? == some '*' then .commentStart
    else if isCloser first then .blockEnd
    else .member

/-- The indentation of the first line that is not blank; every member line begins with it. -/
def detectUnit : List Text → Except Rejection Text
  | [] => .ok []
  | line :: rest =>
    if isBlankText line then detectUnit rest
    else if (indentation line).isEmpty then .error ⟨.exportsNoTabulation, line⟩
    else .ok (indentation line)

/-! ## The reader -/

/-- What the reader is in the middle of. -/
inductive BlockState
  /-- Looking for the next member. -/
  | scanning
  /-- Inside a block comment. -/
  | comment
  /-- Inside the value of `key`, whose `lines` so far leave `depth` brackets open. -/
  | block (key : Text) (lines : List Text) (depth : Int)
  deriving DecidableEq, Repr

/-- The brackets left open. -/
def BlockState.depth : BlockState → Int
  | .block _ _ depth => depth
  | _ => 0

/-- The key of the value that is being read. -/
def BlockState.key? : BlockState → Option Text
  | .block key _ _ => some key
  | _ => none

/-- The lines of the value that is being read. -/
def BlockState.lines : BlockState → List Text
  | .block _ lines _ => lines
  | _ => []

/-- A reader of the lines of an object literal: the indentation unit, what is being read, the
comments that wait for a member, and the members so far. -/
structure BlockReader where
  indent : Text := []
  state : BlockState := .scanning
  comments : List Text := []
  exports : GlobalExports := {}
  deriving DecidableEq, Repr

namespace BlockReader

/-- The waiting comments as one text. -/
def comment? (r : BlockReader) : Option Text :=
  if r.comments.isEmpty then none else some (unlines r.comments)

/-- Adds one member; a value takes the waiting comments. -/
def addMember (r : BlockReader) : Member → BlockReader
  | .assignment key value =>
    { r with comments := [], exports := r.exports.add r.comment? (.assignment key value) }
  | m => { r with exports := r.exports.add none m }

/-- Adds one member given by its text. -/
def addPiece (r : BlockReader) (piece : Text) : Except Rejection BlockReader :=
  match Member.parse piece with
  | .ok m => .ok (r.addMember m)
  | .error e => .error e

/-- Adds several members given by their texts. -/
def addPieces (r : BlockReader) : List Text → Except Rejection BlockReader
  | [] => .ok r
  | p :: ps =>
    match r.addPiece p with
    | .ok r' => r'.addPieces ps
    | .error e => .error e

/-- The key and the first line of a member that leaves brackets open. -/
def openHeader (header : Text) : Except Rejection (Text × Text) :=
  match keyValue? header with
  | some kv => .ok kv
  | none =>
    match methodHead? header with
    | some m =>
      match m.asFunction? with
      | some value => .ok (m.name, value)
      | none => .error ⟨.exportsInvalidMember, header⟩
    | none => .error ⟨.exportsInvalidMember, header⟩

/-- Reads a line of members; only the last one can leave brackets open. -/
def startMember (r : BlockReader) (body : Text) : Except Rejection BlockReader :=
  let code := trim (stripComments body)
  let depth := bracketDepth code
  let pieces := ((splitTopLevel code ',').map trim).filter fun p => !p.isEmpty
  if depth < 0 then .error ⟨.exportsUnterminated, body⟩
  else if depth = 0 then
    match r.addPieces pieces with
    | .ok r' => .ok { r' with comments := [] }
    | .error e => .error e
  else
    match r.addPieces pieces.dropLast with
    | .ok r' =>
      match openHeader (pieces.getLast?.getD []) with
      | .ok (key, first) => .ok { r' with state := .block key [first] depth }
      | .error e => .error e
    | .error e => .error e

/-- The last line of a value without comments and without the comma that follows the value. -/
def lastLine (line : Text) : Text :=
  let bare := trimEnd (stripComments line)
  if bare.getLast? == some ',' then trimEnd bare.dropLast else bare

/-- Ends the value of `key` with its `lines`, and takes the waiting comments. -/
def flush (r : BlockReader) (key : Text) (lines : List Text) : BlockReader :=
  let value := unlines (lines.dropLast ++ [lastLine (lines.getLast?.getD [])])
  { r with
    state := .scanning
    comments := []
    exports := r.exports.add r.comment? (.assignment key value) }

/-- Goes on with a value by one more line. -/
def continueBlock (r : BlockReader) (key : Text) (lines : List Text) (depth : Int) (body : Text) :
    Except Rejection BlockReader :=
  let lines := lines ++ [body]
  let depth := depth + bracketDepth body
  if depth < 0 then .error ⟨.exportsUnterminated, unlines (lines ++ [[]])⟩
  else if depth = 0 then .ok (r.flush key lines)
  else .ok { r with state := .block key lines depth }

/-- Reads a line while looking for the next member. -/
def scanLine (r : BlockReader) (body : Text) : Except Rejection BlockReader :=
  match LineKind.of body with
  | .blank => .ok r
  | .lineComment => .ok { r with comments := r.comments ++ [body] }
  | .commentStart =>
    let r := { r with comments := r.comments ++ [body] }
    .ok (if occursIn "*/".toList body then r else { r with state := .comment })
  | .member => r.startMember body
  | .continuation => .error ⟨.exportsInvalidTabulation, body⟩
  | .blockEnd => .error ⟨.exportsUnterminated, body⟩

/-- Reads a line inside a value. -/
def blockLine (r : BlockReader) (key : Text) (lines : List Text) (depth : Int) (body : Text) :
    Except Rejection BlockReader :=
  match LineKind.of body with
  | .member => .error ⟨.exportsUnterminated, unlines (lines ++ [body])⟩
  | _ => r.continueBlock key lines depth body

/-- A line of a comment, with the indentation unit or else all white space before it removed. -/
def dedent (r : BlockReader) (line : Text) : Text :=
  trimEnd ((after? r.indent line).getD (trim line))

/-- A line outside comments with the indentation unit removed; a blank line is empty. -/
def bodyOf (r : BlockReader) (line : Text) : Except Rejection Text :=
  if isBlankText line then .ok []
  else
    match after? r.indent line with
    | some body => .ok (trimEnd body)
    | none => .error ⟨.exportsInvalidTabulation, line⟩

/-- Reads one line. -/
def feed (r : BlockReader) (line : Text) : Except Rejection BlockReader :=
  match r.state with
  | .comment =>
    let r := { r with comments := r.comments ++ [r.dedent line] }
    .ok (if occursIn "*/".toList line then { r with state := .scanning } else r)
  | .scanning =>
    match r.bodyOf line with
    | .ok body => r.scanLine body
    | .error e => .error e
  | .block key lines depth =>
    match r.bodyOf line with
    | .ok body => r.blockLine key lines depth body
    | .error e => .error e

/-- Reads several lines. -/
def feedAll (r : BlockReader) : List Text → Except Rejection BlockReader
  | [] => .ok r
  | line :: rest =>
    match r.feed line with
    | .ok r' => r'.feedAll rest
    | .error e => .error e

/-- The members read, once nothing is left open. -/
def finish (r : BlockReader) : Except Rejection GlobalExports :=
  match r.state with
  | .scanning => .ok r.exports
  | .comment => .error ⟨.exportsUnterminated, unlines r.comments⟩
  | .block _ lines _ => .error ⟨.exportsUnterminated, unlines lines⟩

/-- Reads the members on the line of the opening brace. -/
def feedHead (r : BlockReader) (line : Text) : Except Rejection BlockReader :=
  if isBlankText line then .ok r else r.startMember (trim line)

end BlockReader

/-- Reads the text between the braces of an exported object. -/
def readBlock (inner : Text) : Except Rejection GlobalExports := do
  let ls := inner.lines
  let opened ← BlockReader.feedHead {} (ls.head?.getD [])
  let indent ← detectUnit ls.tail
  let read ← BlockReader.feedAll { opened with indent } ls.tail
  read.finish

end Esmify
