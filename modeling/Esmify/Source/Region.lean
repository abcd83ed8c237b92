import Esmify.Text.Basic

/-!
# Code, comments and literals

Every character of a source text belongs to code, to a comment or to a quoted literal. **One machine
decides it**: it reads a character at a time, knows the character that follows, and is in one of a
few modes. The other modules see its answers through three views:

* `codeFrom` lists the offsets and characters of code, reading from a given offset;
* `stripComments` is the text without its comments;
* `hasCodeChar` asks for a character of code.

A line break ends a line comment and an unclosed quote, and is itself code; a template literal runs
over line breaks. Regular expression literals are not recognised.
-/

namespace Esmify.Source

/-- What a character of a source text belongs to. -/
inductive Region
  | code
  | comment
  | literal
  deriving DecidableEq, Repr

/-- What the reading of a source text is in the middle of. -/
inductive Mode
  /-- Between literals and comments. -/
  | code
  /-- After two slashes, until the line ends. -/
  | lineComment
  /-- The star that opens a block comment comes next. -/
  | commentOpening
  /-- Inside a block comment. -/
  | blockComment
  /-- The slash that closes a block comment comes next. -/
  | commentClosing
  /-- Inside a literal opened by `quote`. -/
  | literal (quote : Char)
  /-- Inside a literal, right after a backslash. -/
  | escaped (quote : Char)
  deriving DecidableEq, Repr

/-- The quote of template literals, the only ones that run over line breaks. -/
def templateQuote : Char := '\x60'

/-- The characters that open and close a literal. -/
def isQuote (c : Char) : Bool :=
  c == '\'' || c == '"' || c == templateQuote

/-- Where the character `c`, followed by `next`, belongs, and the mode after it. -/
def Mode.step (m : Mode) (c : Char) (next : Option Char) : Region × Mode :=
  match m with
  | .code =>
    if isQuote c then (.literal, .literal c)
    else if c = '/' ∧ next = some '/' then (.comment, .lineComment)
    else if c = '/' ∧ next = some '*' then (.comment, .commentOpening)
    else (.code, .code)
  | .lineComment => if c = '\n' then (.code, .code) else (.comment, .lineComment)
  | .commentOpening => (.comment, .blockComment)
  | .blockComment =>
    if c = '*' ∧ next = some '/' then (.comment, .commentClosing) else (.comment, .blockComment)
  | .commentClosing => (.comment, .code)
  | .literal quote =>
    if c = '\\' then (.literal, .escaped quote)
    else if c = quote then (.literal, .code)
    else if c = '\n' ∧ quote ≠ templateQuote then (.code, .code)
    else (.literal, .literal quote)
  | .escaped quote => (.literal, .literal quote)

/-- The code characters of a text read in mode `m`, with their offsets counted from `offset`. -/
def codeChars (m : Mode) (offset : Nat) : Text → List (Nat × Char)
  | [] => []
  | c :: cs =>
    match m.step c cs.head? with
    | (.code, m') => (offset, c) :: codeChars m' (offset + 1) cs
    | (_, m') => codeChars m' (offset + 1) cs

/-- The offset and character of everything outside literals and comments, reading from `start`. -/
def codeFrom (t : Text) (start : Nat) : List (Nat × Char) :=
  codeChars .code start (t.drop start)

/-- The offset and character of everything outside literals and comments. -/
def code (t : Text) : List (Nat × Char) :=
  codeFrom t 0

/-- The code between two offsets, read as if the text ended at `stop`. -/
def codeBetween (t : Text) (start stop : Nat) : List (Nat × Char) :=
  codeFrom (t.take stop) start

/-- The code characters of a text read in mode `m` up to the offset `stop`, with their offsets
counted from `offset`. What stands at `stop` or behind it is not looked at, not even to tell what a
slash or a star belongs to. -/
def codeUpTo (stop : Nat) (m : Mode) (offset : Nat) : Text → List (Nat × Char)
  | [] => []
  | c :: cs =>
    if offset < stop then
      match m.step c (if offset + 1 < stop then cs.head? else none) with
      | (.code, m') => (offset, c) :: codeUpTo stop m' (offset + 1) cs
      | (_, m') => codeUpTo stop m' (offset + 1) cs
    else []

/-- The mode after a text that is read in mode `m`. -/
def modeAfter (m : Mode) : Text → Mode
  | [] => m
  | c :: cs => modeAfter (m.step c cs.head?).2 cs

/-- Whether reading that has come to the end of its text in mode `m` comes to rest there, although
`excess` more characters were to be read: a comment runs on without end, and an escape passes over
one character that is not there. -/
def Mode.restsBeyond (m : Mode) (excess : Nat) : Bool :=
  match m with
  | .lineComment | .commentOpening | .blockComment | .commentClosing => true
  | .escaped _ => excess = 1
  | .code | .literal _ => false

/-- The code between two offsets, the second of which may lie beyond the text; `none` when
characters that are not there would have to be read. -/
def codeWithin? (t : Text) (start stop : Nat) : Option (List (Nat × Char)) :=
  if stop ≤ t.length ∨ stop ≤ start ∨
      (modeAfter .code (t.drop start)).restsBeyond (stop - t.length) then
    some (codeUpTo stop .code start (t.drop start))
  else none

/-- A text read in mode `m`, without the characters of comments. -/
def stripFrom (m : Mode) : Text → Text
  | [] => []
  | c :: cs =>
    match m.step c cs.head? with
    | (.comment, m') => stripFrom m' cs
    | (_, m') => c :: stripFrom m' cs

/-- The text without its comments. -/
def stripComments (t : Text) : Text :=
  stripFrom .code t

/-- Whether one of the given characters occurs in code. -/
def hasCodeChar (t chars : Text) : Bool :=
  (code t).any fun p => chars.contains p.2

end Esmify.Source
