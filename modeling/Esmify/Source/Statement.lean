import Esmify.Source.Bracket
import Esmify.Text.Blank

/-!
# Where a statement ends

**A statement ends** at a semicolon outside brackets, at a bracket that closes more than it opened,
or at a line break outside brackets after which nothing continues it. What continues a statement is
read off the last character before the line break and the first one after it.
-/

namespace Esmify.Source

open Text

/-- A line that ends with one of these keeps its statement going. -/
def keepsGoing (c : Char) : Bool :=
  "=+-*/%&|^!?:,.<>~".toList.contains c

/-- A line that begins with one of these goes on with the statement before it. -/
def goesOn (c : Char) : Bool :=
  ".?:+-*%&|^=,".toList.contains c

/-- Whether a statement that has come to `head` ends at the line break that `rest` begins with. -/
def endsBetween (head rest : Text) : Bool :=
  match (trimEnd (stripComments head)).getLast? with
  | none => false
  | some last =>
    !keepsGoing last &&
      match trimStart rest with
      | '/' :: '/' :: _ => true
      | '/' :: '*' :: _ => true
      | c :: _ => !goesOn c
      | [] => true

/-- Whether the statement from `start` ends at the line break at offset `i`. -/
def endsAtBreak (t : Text) (start i : Nat) : Bool :=
  endsBetween (t.slice start i) (t.drop i)

/-- Looks for the end of a statement among code characters, with `depth` brackets open: its place,
and whether a semicolon stands there. `ends` tells at which line breaks the statement ends. -/
def statementStop? {ι : Type} (ends : ι → Bool) :
    (depth : Nat) → List (ι × Char) → Option (ι × Bool)
  | _, [] => none
  | depth, (i, c) :: rest =>
    if isOpener c then statementStop? ends (depth + 1) rest
    else if isCloser c then
      match depth with
      | 0 => some (i, false)
      | d + 1 => statementStop? ends d rest
    else if depth = 0 ∧ c = ';' then some (i, true)
    else if depth = 0 ∧ c = '\n' ∧ ends i then some (i, false)
    else statementStop? ends depth rest

/-- Where the expression of the statement from `start` ends, and where the statement itself ends:
the two differ by the semicolon, if there is one. -/
def statementEnd (t : Text) (start : Nat) : Nat × Nat :=
  match statementStop? (endsAtBreak t start) 0 (codeFrom t start) with
  | some (i, true) => (i, i + 1)
  | some (i, false) => (i, i)
  | none => (t.length, t.length)

end Esmify.Source
