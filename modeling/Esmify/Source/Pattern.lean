import Esmify.Source.Region

/-!
# Patterns and their occurrences

**A pattern is a function**: given the character before a place, if any, and the text from that
place on, it gives a value and the text that follows what it matched. `occurrences` lists where a
pattern matches, from left to right and without overlap, `codeOccurrences` keeps those that begin in
code, and `replaceAll` puts the value in place of each match.
-/

namespace Esmify.Source

/-- Looks at the character before a place and at the text from there on, and on a match gives a
value and what follows the match. -/
abbrev Pattern (α : Type) := Option Char → Text → Option (α × Text)

/-- A match of a pattern: where it starts, where it stops, and its value. -/
structure Occurrence (α : Type) where
  start : Nat
  stop : Nat
  value : α
  deriving Repr

/-- The matches of `p` in a text whose first character stands at `offset` after `before`; the first
`skip` characters belong to an earlier match. -/
def occurrencesFrom {α : Type} (p : Pattern α) :
    (before : Option Char) → (offset skip : Nat) → Text → List (Occurrence α)
  | before, offset, 0, [] =>
    match p before [] with
    | some (a, _) => [⟨offset, offset, a⟩]
    | none => []
  | _, _, _ + 1, [] => []
  | before, offset, 0, c :: cs =>
    match p before (c :: cs) with
    | some (a, rest) =>
      let size := (c :: cs).length - rest.length
      ⟨offset, offset + size, a⟩ :: occurrencesFrom p (some c) (offset + 1) (size - 1) cs
    | none => occurrencesFrom p (some c) (offset + 1) 0 cs
  | _, offset, skip + 1, c :: cs => occurrencesFrom p (some c) (offset + 1) skip cs

/-- The matches of a pattern from left to right, none overlapping the one before it. -/
def occurrences {α : Type} (p : Pattern α) (t : Text) : List (Occurrence α) :=
  occurrencesFrom p none 0 0 t

/-- The first match of a pattern in a text whose first character stands at `offset` after
`before`. -/
def firstFrom {α : Type} (p : Pattern α) :
    (before : Option Char) → (offset : Nat) → Text → Option (Occurrence α)
  | before, offset, [] => (p before []).map fun m => ⟨offset, offset, m.1⟩
  | before, offset, c :: cs =>
    match p before (c :: cs) with
    | some (a, rest) => some ⟨offset, offset + ((c :: cs).length - rest.length), a⟩
    | none => firstFrom p (some c) (offset + 1) cs

/-- The first match of a pattern. -/
def first? {α : Type} (p : Pattern α) (t : Text) : Option (Occurrence α) :=
  firstFrom p none 0 t

/-- Whether a pattern matches somewhere. -/
def holdsSomewhere {α : Type} (p : Pattern α) (t : Text) : Bool :=
  (first? p t).isSome

/-- Puts the value of each match in its place; the first `skip` characters belong to an earlier
match and are left out. -/
def replaceFrom (p : Pattern Text) : (before : Option Char) → (skip : Nat) → Text → Text
  | _, _, [] => []
  | before, 0, c :: cs =>
    match p before (c :: cs) with
    | some (piece, rest) => piece ++ replaceFrom p (some c) (cs.length - rest.length) cs
    | none => c :: replaceFrom p (some c) 0 cs
  | _, skip + 1, c :: cs => replaceFrom p (some c) skip cs

/-- The text with each match of a pattern, none of them empty, replaced by its value. -/
def replaceAll (p : Pattern Text) (t : Text) : Text :=
  replaceFrom p none 0 t

/-- The matches of a pattern that begin in code, from left to right. -/
def codeOccurrences {α : Type} (p : Pattern α) (t : Text) : List (Occurrence α) :=
  let starts := (code t).map Prod.fst
  (occurrences p t).filter fun o => starts.contains o.start

/-- The text of a match. -/
def Occurrence.text {α : Type} (o : Occurrence α) (t : Text) : Text :=
  t.slice o.start o.stop

end Esmify.Source
