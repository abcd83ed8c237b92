import Esmify.Number.Integer
import Esmify.Text.Identifier
import Esmify.Text.Printable

/-!
# Replacement templates

What is put in place of a match is written as a template. **A backslash begins an escape**: a
control character, an octal code point of three digits or after a zero, or a reference to what was
matched. A match has no groups but the whole of it, which is number zero; every other reference is a
fault. A backslash before any character that is no letter and no digit stands for itself.

A template without a backslash is the text that it is written as. -/

namespace Esmify

/-- A part of a template. -/
inductive TemplatePiece
  /-- Text that is put in as it is. -/
  | literal (text : Text)
  /-- The whole match. -/
  | whole
  deriving DecidableEq, Repr

/-- What is put in place of a match. -/
abbrev Template := List TemplatePiece

namespace Template

/-- What a part puts in place of a match. -/
def fillPiece (matched : Text) : TemplatePiece → Text
  | .literal text => text
  | .whole => matched

/-- What a template puts in place of a match. -/
def fill (template : Template) (matched : Text) : Text :=
  template.flatMap (fillPiece matched)

/-! ## Faults -/

/-- Why a text is no template. -/
inductive Cause
  /-- The text ends in a backslash that begins no escape. -/
  | openEscape
  /-- There is no escape with this letter. -/
  | unknownEscape (letter : Char)
  /-- An octal code point is above 255. -/
  | octalTooLarge (digits : Text)
  /-- There is no group with this number. -/
  | noGroup (number : Nat)
  /-- No angle bracket follows the letter that refers to a group. -/
  | noBracket
  /-- The angle brackets are empty. -/
  | noName
  /-- The angle brackets are not closed. -/
  | openName
  /-- What stands in the angle brackets is neither a number nor a name. -/
  | badName (name : Text)
  /-- There is no group with this name. -/
  | unknownName (name : Text)
  deriving DecidableEq, Repr

/-- The wording of a cause. -/
def Cause.text : Cause → Text
  | .openEscape => "bad escape (end of pattern)".toList
  | .unknownEscape letter => "bad escape \\".toList ++ [letter]
  | .octalTooLarge digits =>
    "octal escape value \\".toList ++ digits ++ " outside of range 0-0o377".toList
  | .noGroup number => "invalid group reference ".toList ++ Text.decimal number
  | .noBracket => "missing <".toList
  | .noName => "missing group name".toList
  | .openName => "missing >, unterminated name".toList
  | .badName name => "bad character in group name ".toList ++ name.quoted
  | .unknownName name => "unknown group name ".toList ++ name.quoted

/-- Why and where a text is no template. -/
structure Fault where
  cause : Cause
  position : Nat
  written : Text
  deriving DecidableEq, Repr

/-- The line and the column of a position, told when the text has several lines. -/
def Fault.line (f : Fault) : Text :=
  if f.written.contains '\n' then
    " (line ".toList ++ Text.decimal ((f.written.take f.position).count '\n' + 1)
      ++ ", column ".toList ++ Text.decimal (f.position + 1 - f.written.lineStart f.position)
      ++ [')']
  else []

/-- The wording of a fault. -/
def Fault.message (f : Fault) : Text :=
  match f.cause with
  | .unknownName _ => f.cause.text
  | _ => f.cause.text ++ " at position ".toList ++ Text.decimal f.position ++ f.line

/-! ## Reading -/

/-- A character of a template, or a backslash with the character after it. -/
inductive Token
  | plain (c : Char)
  | escape (c : Char)
  /-- A backslash at the end. -/
  | openEscape
  deriving DecidableEq, Repr

/-- The tokens of a template. -/
def tokens : Text → List Token
  | [] => []
  | ['\\'] => [.openEscape]
  | '\\' :: c :: cs => .escape c :: tokens cs
  | c :: cs => .plain c :: tokens cs

/-- The text of a token. -/
def Token.text : Token → Text
  | .plain c => [c]
  | .escape c => ['\\', c]
  | .openEscape => ['\\']

/-- What the reading of a template is in the middle of; `start` is where the escape begins. -/
inductive Reader
  /-- Between escapes. -/
  | free
  /-- After a backslash and a zero, with at most two more octal `digits`. -/
  | zero (digits : Text)
  /-- After a backslash and one or two digits, the first of which is no zero. -/
  | number (start : Nat) (digits : Text)
  /-- The angle bracket that opens the name of a group comes next. -/
  | group (start : Nat)
  /-- Inside the angle brackets. -/
  | name (start : Nat) (read : Text)
  deriving DecidableEq, Repr

/-- What a step of reading gives: parts of the template and what comes next, or a cause and its
place. -/
abbrev Step := Except (Cause × Nat) (Template × Reader)

/-- Whether a character is an octal digit. -/
def isOctal (c : Char) : Bool :=
  '0' ≤ c && c ≤ '7'

/-- The number that octal digits are. -/
def octal (digits : Text) : Nat :=
  digits.foldl (fun n c => 8 * n + (c.toNat - '0'.toNat)) 0

/-- The number that decimal digits are. -/
def decimalOf (digits : Text) : Nat :=
  digits.foldl (fun n c => 10 * n + (c.toNat - '0'.toNat)) 0

/-- The control character, or the backslash, that a letter after a backslash stands for. -/
def control? (c : Char) : Option Char :=
  [('a', '\x07'), ('b', '\x08'), ('f', '\x0c'), ('n', '\n'), ('r', '\r'), ('t', '\t'),
    ('v', '\x0b'), ('\\', '\\')].lookup c

/-- One literal part, and nothing begun. -/
def literalStep (text : Text) : Step :=
  .ok ([.literal text], .free)

/-- Reads a token at `position` between escapes. -/
def freeStep (position : Nat) : Token → Step
  | .plain c => literalStep [c]
  | .openEscape => .error (.openEscape, position)
  | .escape c =>
    if c = 'g' then .ok ([], .group position)
    else if c = '0' then .ok ([], .zero ['0'])
    else if c.isDigit then .ok ([], .number position [c])
    else
      match control? c with
      | some d => literalStep [d]
      | none =>
        if c.isAlpha then .error (.unknownEscape c, position) else literalStep ['\\', c]

/-- What has been begun when nothing more belongs to it, the text being read up to `position`. -/
def settled (position : Nat) : Reader → Except (Cause × Nat) Template
  | .free => .ok []
  | .zero digits => .ok [.literal [Char.ofNat (octal digits)]]
  | .number start digits => .error (.noGroup (decimalOf digits), start + 1)
  | .group start => .error (.noBracket, start + 2)
  | .name start read =>
    if read.isEmpty then .error (.noName, position) else .error (.openName, start + 3)

/-- What a number or name in angle brackets refers to. -/
def reference (start : Nat) (name : Text) : Step :=
  if name.isIdentifier then .error (.unknownName name, start + 3)
  else
    match Number.integer? name with
    | some (.ofNat 0) => .ok ([.whole], .free)
    | some (.ofNat n) => .error (.noGroup n, start + 3)
    | _ => .error (.badName name, start + 3)

/-- Whether a token goes on with what has been begun. -/
def Reader.takes (r : Reader) (t : Token) : Bool :=
  match r, t with
  | .free, _ => true
  | .zero digits, .plain c => digits.length < 3 && isOctal c
  | .number _ [_], .plain c => c.isDigit
  | .number _ digits, .plain c => digits.all isOctal && isOctal c
  | .group _, .plain c => c == '<'
  | .name _ _, _ => true
  | _, _ => false

/-- Reads a token at `position` that goes on with what has been begun. -/
def step (r : Reader) (position : Nat) (t : Token) : Step :=
  match r, t with
  | .zero digits, .plain c => .ok ([], .zero (digits ++ [c]))
  | .number start [d], .plain c => .ok ([], .number start [d, c])
  | .number start digits, .plain c =>
    let digits := digits ++ [c]
    if 255 < octal digits then .error (.octalTooLarge digits, start)
    else literalStep [Char.ofNat (octal digits)]
  | .group start, _ => .ok ([], .name start [])
  | .name start read, .plain '>' =>
    if read.isEmpty then .error (.noName, position) else reference start read
  | .name start read, t => .ok ([], .name start (read ++ t.text))
  | _, t => freeStep position t

/-- What has been begun, or nothing once it is settled because the token at `position` does not go
on with it. -/
def Reader.before (r : Reader) (position : Nat) (t : Token) : Step :=
  if r.takes t then .ok ([], r) else (settled position r).map fun front => (front, .free)

/-- Reads tokens from `position` on. A backslash at the end is found one token ahead. -/
def read : (r : Reader) → (position : Nat) → List Token → Except (Cause × Nat) Template
  | r, position, [] => settled position r
  | r, position, t :: ts =>
    let after := position + t.text.length
    match r.before position t with
    | .error e => .error e
    | .ok (front, r) =>
      if ts.head? = some .openEscape then .error (.openEscape, after)
      else
        match step r position t with
        | .error e => .error e
        | .ok (middle, r) => (read r after ts).map (front ++ middle ++ ·)

/-- The template that a text is written as. -/
def ofText (t : Text) : Except Fault Template :=
  if t.contains '\\' then
    match read .free 0 (tokens t) with
    | .ok template => .ok template
    | .error (cause, position) => .error ⟨cause, position, t⟩
  else .ok [.literal t]

end Template

end Esmify
