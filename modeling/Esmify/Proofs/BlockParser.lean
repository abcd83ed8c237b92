import Mathlib.Tactic.Lemma
import Mathlib.Tactic.SplitIfs
import Esmify.Export.Block

/-!
# The line reader, field by field

`BlockReader` keeps what belongs to a value that is being read in one place, so that it cannot be
inside a value without a key. `BlockParser` keeps the same things in fields of their own: a mode, a
key that may be missing, lines and a number of open brackets, each of which is set where it changes.
Nothing in the type says that they fit together.

**The two run alike** (`BlockParser.feed_fields` for a line, `BlockParser.feedAll_fields` for
several): a parser that starts with the fields of a reader has the fields of that reader after every
line, and declines the lines that it declines. So what holds of the readers that lines can lead to
holds of the fields. -/

namespace Esmify

open Text Source

/-! ## The parser -/

/-- What a parser is in the middle of. -/
inductive BlockMode
  | scanning
  | comment
  | block
  deriving DecidableEq, Repr

/-- A parser of the lines of an object literal. The key, the lines and the depth are those of the
value in the middle of which it is. -/
structure BlockParser where
  indent : Text := []
  mode : BlockMode := .scanning
  comments : List Text := []
  pendingKey : Option Text := none
  pendingLines : List Text := []
  depth : Int := 0
  exports : GlobalExports := {}
  deriving DecidableEq, Repr

namespace BlockParser

/-- The waiting comments as one text. -/
def comment? (p : BlockParser) : Option Text :=
  if p.comments.isEmpty then none else some (unlines p.comments)

/-- Adds one member given by its text; a value takes the waiting comments. -/
def addPiece (p : BlockParser) (piece : Text) : Except Rejection BlockParser :=
  match Member.parse piece with
  | .ok (.assignment key value) =>
    .ok { p with comments := [], exports := p.exports.add p.comment? (.assignment key value) }
  | .ok m => .ok { p with exports := p.exports.add none m }
  | .error e => .error e

/-- Adds several members given by their texts. -/
def addPieces (p : BlockParser) : List Text → Except Rejection BlockParser
  | [] => .ok p
  | piece :: pieces =>
    match p.addPiece piece with
    | .ok p' => p'.addPieces pieces
    | .error e => .error e

/-- Reads a line of members; only the last one can leave brackets open. -/
def startMember (p : BlockParser) (body : Text) : Except Rejection BlockParser :=
  let code := trim (stripComments body)
  let depth := bracketDepth code
  let pieces := ((splitTopLevel code ',').map trim).filter fun piece => !piece.isEmpty
  if depth < 0 then .error ⟨.exportsUnterminated, body⟩
  else if depth = 0 then
    match p.addPieces pieces with
    | .ok p' => .ok { p' with comments := [] }
    | .error e => .error e
  else
    match p.addPieces pieces.dropLast with
    | .ok p' =>
      match BlockReader.openHeader (pieces.getLast?.getD []) with
      | .ok (key, first) =>
        .ok { p' with pendingKey := some key, pendingLines := [first], depth, mode := .block }
      | .error e => .error e
    | .error e => .error e

/-- Ends the value, which takes the waiting comments, and goes back to looking for members. -/
def flush (p : BlockParser) : BlockParser :=
  let last := BlockReader.lastLine (p.pendingLines.getLast?.getD [])
  let value := unlines (p.pendingLines.dropLast ++ [last])
  { p with
    exports := p.exports.add p.comment? (.assignment (p.pendingKey.getD []) value)
    comments := []
    pendingKey := none
    pendingLines := []
    depth := 0
    mode := .scanning }

/-- Goes on with the value by one more line. -/
def continueBlock (p : BlockParser) (body : Text) : Except Rejection BlockParser :=
  let p := { p with pendingLines := p.pendingLines ++ [body], depth := p.depth + bracketDepth body }
  if p.depth < 0 then .error ⟨.exportsUnterminated, unlines (p.pendingLines ++ [[]])⟩
  else if p.depth = 0 then .ok p.flush
  else .ok p

/-- Reads a line by what the parser is in the middle of and by what the line is. -/
def transition (p : BlockParser) (body : Text) : Except Rejection BlockParser :=
  match p.mode, LineKind.of body with
  | .block, .member => .error ⟨.exportsUnterminated, unlines (p.pendingLines ++ [body])⟩
  | .block, _ => p.continueBlock body
  | _, .blank => .ok p
  | _, .lineComment => .ok { p with comments := p.comments ++ [body] }
  | _, .commentStart =>
    let p := { p with comments := p.comments ++ [body] }
    .ok (if occursIn "*/".toList body then p else { p with mode := .comment })
  | _, .member => p.startMember body
  | _, .continuation => .error ⟨.exportsInvalidTabulation, body⟩
  | _, .blockEnd => .error ⟨.exportsUnterminated, body⟩

/-- Reads a line inside a comment. -/
def commentLine (p : BlockParser) (line : Text) : BlockParser :=
  let p := { p with comments := p.comments ++ [BlockReader.dedent { indent := p.indent } line] }
  if occursIn "*/".toList line then { p with mode := .scanning } else p

/-- Reads one line. Inside a comment its kind does not matter. -/
def feed (p : BlockParser) (line : Text) : Except Rejection BlockParser :=
  match p.mode with
  | .comment => .ok (p.commentLine line)
  | _ =>
    match BlockReader.bodyOf { indent := p.indent } line with
    | .ok body => p.transition body
    | .error e => .error e

/-- Reads several lines. -/
def feedAll (p : BlockParser) : List Text → Except Rejection BlockParser
  | [] => .ok p
  | line :: rest =>
    match p.feed line with
    | .ok p' => p'.feedAll rest
    | .error e => .error e

end BlockParser

/-! ## The fields of a reader -/

/-- The mode that a state is in. -/
def BlockState.mode : BlockState → BlockMode
  | .scanning => .scanning
  | .comment => .comment
  | .block _ _ _ => .block

/-- The fields of a reader. -/
def BlockReader.fields (r : BlockReader) : BlockParser where
  indent := r.indent
  mode := r.state.mode
  comments := r.comments
  pendingKey := r.state.key?
  pendingLines := r.state.lines
  depth := r.state.depth
  exports := r.exports

namespace BlockParser

variable (r : BlockReader)

/-- The same member is added. -/
lemma addPiece_fields (piece : Text) :
    r.fields.addPiece piece = (r.addPiece piece).map BlockReader.fields := by
  unfold addPiece BlockReader.addPiece
  cases Member.parse piece with
  | error e => rfl
  | ok m =>
    cases m with
    | property name => rfl
    | keySet name => rfl
    | assignment key value => rfl

/-- The same members are added. -/
lemma addPieces_fields (pieces : List Text) :
    r.fields.addPieces pieces = (r.addPieces pieces).map BlockReader.fields := by
  induction pieces generalizing r with
  | nil => rfl
  | cons piece pieces ih =>
    rw [addPieces, BlockReader.addPieces, addPiece_fields]
    cases r.addPiece piece with
    | error e => rfl
    | ok r' => exact ih r'

/-- The same line of members is read. -/
lemma startMember_fields (body : Text) :
    r.fields.startMember body = (r.startMember body).map BlockReader.fields := by
  unfold startMember BlockReader.startMember
  dsimp only
  split_ifs with hneg hzero
  · rfl
  · rw [addPieces_fields]
    cases r.addPieces _ with
    | error e => rfl
    | ok r' => rfl
  · rw [addPieces_fields]
    cases r.addPieces _ with
    | error e => rfl
    | ok r' =>
      dsimp only [Except.map]
      cases BlockReader.openHeader _ with
      | error e => rfl
      | ok header => rfl

variable {r}

/-- The same value goes on, or ends. -/
lemma continueBlock_fields {key : Text} {lines : List Text} {depth : Int}
    (h : r.state = .block key lines depth) (body : Text) :
    r.fields.continueBlock body = (r.continueBlock key lines depth body).map
      BlockReader.fields := by
  obtain ⟨indent, state, comments, exports⟩ := r
  obtain rfl : state = .block key lines depth := h
  have hdepth : (BlockReader.fields ⟨indent, .block key lines depth, comments, exports⟩).depth
      = depth := rfl
  unfold continueBlock BlockReader.continueBlock
  dsimp only
  rw [hdepth]
  split_ifs with hneg hzero
  · rfl
  · rfl
  · rfl

/-- The same is read of a line when no value is being read. -/
lemma transition_fields_scanning (h : r.state = .scanning) (body : Text) :
    r.fields.transition body = (r.scanLine body).map BlockReader.fields := by
  obtain ⟨indent, state, comments, exports⟩ := r
  obtain rfl : state = .scanning := h
  have hmode : (BlockReader.fields ⟨indent, .scanning, comments, exports⟩).mode = .scanning := rfl
  unfold transition BlockReader.scanLine
  rw [hmode]
  cases LineKind.of body with
  | member => exact startMember_fields _ body
  | commentStart =>
    dsimp only
    split_ifs with hends
    · rfl
    · rfl
  | blank | lineComment | continuation | blockEnd => rfl

/-- The same is read of a line inside a value. -/
lemma transition_fields_block {key : Text} {lines : List Text} {depth : Int}
    (h : r.state = .block key lines depth) (body : Text) :
    r.fields.transition body = (r.blockLine key lines depth body).map BlockReader.fields := by
  have hmode : r.fields.mode = .block := congrArg BlockState.mode h
  have hlines : r.fields.pendingLines = lines := congrArg BlockState.lines h
  unfold transition BlockReader.blockLine
  rw [hmode, hlines]
  cases LineKind.of body with
  | member => rfl
  | blank | lineComment | commentStart | continuation
    | blockEnd => exact continueBlock_fields h body

/-- **A line does to the fields of a reader what it does to the reader.** -/
theorem feed_fields (r : BlockReader) (line : Text) :
    r.fields.feed line = (r.feed line).map BlockReader.fields := by
  have hbody : BlockReader.bodyOf { indent := r.fields.indent } line = r.bodyOf line := rfl
  unfold feed BlockReader.feed
  cases hstate : r.state with
  | comment =>
    obtain ⟨indent, state, comments, exports⟩ := r
    obtain rfl : state = .comment := hstate
    show Except.ok (commentLine _ line) = _
    unfold commentLine
    dsimp only
    split_ifs with hends
    · rfl
    · rfl
  | scanning =>
    have hmode : r.fields.mode = .scanning := congrArg BlockState.mode hstate
    rw [hmode, hbody]
    cases r.bodyOf line with
    | error e => rfl
    | ok body => exact transition_fields_scanning hstate body
  | block key lines depth =>
    have hmode : r.fields.mode = .block := congrArg BlockState.mode hstate
    rw [hmode, hbody]
    cases r.bodyOf line with
    | error e => rfl
    | ok body => exact transition_fields_block hstate body

/-- **Lines do to the fields of a reader what they do to the reader.** -/
theorem feedAll_fields (r : BlockReader) (lines : List Text) :
    r.fields.feedAll lines = (r.feedAll lines).map BlockReader.fields := by
  induction lines generalizing r with
  | nil => rfl
  | cons line lines ih =>
    rw [feedAll, BlockReader.feedAll, feed_fields]
    cases r.feed line with
    | error e => rfl
    | ok r' => exact ih r'

end BlockParser

end Esmify
