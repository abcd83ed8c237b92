import Esmify.Source.Statement

/-!
# Reading from an index below zero

An index below zero counts from the end of a text. **Reading that begins there runs over the end**:
the last characters are read first, with their indices below zero, and then the text from its front.
A comment that begins below zero is left at the offset where it ends, so that what stands before
that offset is not read again; one that does not end there ends the reading. -/

namespace Esmify.Source

open Text

/-- The offset at which reading goes on after a comment that begins below zero, with `left` more
characters before the front; only the characters of `front` are read from there on. -/
def commentExit? (t front : Text) (left : Nat) : Mode → Option Nat
  | .lineComment =>
    let begun := t.length - (left + 1)
    (indexOf? ['\n'] (front.drop begun)).map (begun + ·)
  | .commentOpening =>
    let begun := if 2 ≤ left then t.length - left + 1 else 1 - left
    (indexOf? "*/".toList (front.drop begun)).map (begun + · + 2)
  | _ => none

/-- Reads the last characters of a text, the index after which is `stop`: their code, and in which
mode and at which offset the reading goes on. -/
def leadIn (t front : Text) (stop : Int) : Mode → Text → List (Int × Char) × Option (Mode × Nat)
  | m, [] => ([], some (m, 0))
  | m, c :: cs =>
    match m.step c (cs.head?.or front.head?) with
    | (.code, m') =>
      let (code, exit) := leadIn t front stop m' cs
      ((stop - (cs.length + 1), c) :: code, exit)
    | (.literal, m') => leadIn t front stop m' cs
    | (.comment, m') => ([], (commentExit? t front cs.length m').map fun i => (.code, i))

/-- Code with its offsets as indices. -/
def indexed (code : List (Nat × Char)) : List (Int × Char) :=
  code.map fun p => (p.1, p.2)

/-- The code from `start`, an index below zero, up to the index `stop`; `none` when characters that
are not there would have to be read. -/
def codeFromEnd? (t : Text) (start stop : Int) : Option (List (Int × Char)) :=
  if stop ≤ start then some []
  else if start < -t.length then none
  else
    let front := t.take stop.toNat
    let tail := t.slice (t.place start) (if stop < 0 then t.place stop else t.length)
    match leadIn t front (min stop 0) .code tail with
    | (code, none) => some code
    | (code, some (m, i)) =>
      if stop ≤ t.length ∨ (modeAfter m (t.drop i)).restsBeyond (stop - t.length).toNat then
        some (code ++ indexed (codeChars m i (front.drop i)))
      else none

/-- The code from one index up to another one. -/
def codeSpan? (t : Text) (start stop : Int) : Option (List (Int × Char)) :=
  match start with
  | .ofNat n => (codeWithin? t n stop.toNat).map indexed
  | .negSucc _ => codeFromEnd? t start stop

/-- The index of the bracket that closes the one at `start`, an index below zero. -/
def closingFromEnd? (t : Text) (start : Int) : Option (Option Int) :=
  (codeFromEnd? t start t.length).map (closingIn [])

/-- Where the expression and the statement from `start`, an index below zero, end. -/
def statementEndFromEnd? (t : Text) (start : Int) : Option (Int × Int) :=
  let ends (i : Int) : Bool :=
    endsBetween (t.slice (t.place start) (t.place i)) (t.drop (t.place i))
  (codeFromEnd? t start t.length).map fun code =>
    match statementStop? ends 0 code with
    | some (i, true) => (i, i + 1)
    | some (i, false) => (i, i)
    | none => (t.length, t.length)

end Esmify.Source
