import Esmify.Source.Region

/-!
# Brackets

The three kinds of brackets of the source language, counted and matched in code only:

* `closing?` finds the bracket that closes the one at an offset;
* `bracketDepth` is the number of brackets that a text leaves open;
* `splitTopLevel` cuts a text at a separator that stands outside every bracket.
-/

namespace Esmify.Source

/-- The bracket that closes an opening one. -/
def closerOf? (c : Char) : Option Char :=
  if c = '(' then some ')'
  else if c = '[' then some ']'
  else if c = '\x7b' then some '\x7d'
  else none

/-- Whether a character opens a bracket. -/
def isOpener (c : Char) : Bool :=
  (closerOf? c).isSome

/-- Whether a character closes a bracket. -/
def isCloser (c : Char) : Bool :=
  c == ')' || c == ']' || c == '\x7d'

/-! ## The matching bracket -/

/-- Reads code characters with the closers still `awaited`, innermost first, and gives the place at
which none is awaited any more; `none` when a closer of another kind comes first. -/
def closingIn {ι : Type} : (awaited : List Char) → List (ι × Char) → Option ι
  | _, [] => none
  | awaited, (i, c) :: rest =>
    match closerOf? c with
    | some k => closingIn (k :: awaited) rest
    | none =>
      if isCloser c then
        match awaited with
        | [] => none
        | k :: ks => if k = c then if ks.isEmpty then some i else closingIn ks rest else none
      else closingIn awaited rest

/-- The offset of the bracket that closes the one at `start`. -/
def closing? (t : Text) (start : Nat) : Option Nat :=
  closingIn [] (codeFrom t start)

/-! ## Depth -/

/-- By how much a character of code changes the number of open brackets. -/
def bracketStep (c : Char) : Int :=
  if isOpener c then 1 else if isCloser c then -1 else 0

/-- How many brackets a text leaves open; negative when it closes more than it opens. -/
def bracketDepth (t : Text) : Int :=
  (code t).foldl (fun depth p => depth + bracketStep p.2) 0

/-! ## Splitting -/

/-- Puts a character in front of the first of several parts. -/
def consFirst (c : Char) : List Text → List Text
  | [] => [[c]]
  | p :: ps => (c :: p) :: ps

/-- Splits a text, read in mode `m` and with `depth` brackets open, at each `sep` of code at
depth zero. -/
def splitFrom (sep : Char) (m : Mode) (depth : Int) : Text → List Text
  | [] => [[]]
  | c :: cs =>
    match m.step c cs.head? with
    | (.code, m') =>
      if bracketStep c = 0 ∧ c = sep ∧ depth = 0 then [] :: splitFrom sep m' depth cs
      else consFirst c (splitFrom sep m' (depth + bracketStep c) cs)
    | (_, m') => consFirst c (splitFrom sep m' depth cs)

/-- The parts of a text between the separators that stand outside brackets, literals and
comments. -/
def splitTopLevel (t : Text) (sep : Char) : List Text :=
  splitFrom sep .code 0 t

end Esmify.Source
