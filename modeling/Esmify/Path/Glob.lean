import Esmify.Text.Blank

/-!
# Glob patterns

A glob pattern describes whole paths: a star stands for any characters, slashes included, a question
mark for one character, and a bracket group for one character of a set. **A group** is closed by the
first square bracket that is not its first member; one that is never closed is just an opening
bracket. Inside, an exclamation mark at the front complements the set, and a hyphen between two
characters makes a range; a range whose ends are in the wrong order is taken out together with its
ends.

Folders to ignore are given by name; each name stands for the pattern of everything below a folder
of that name, at any depth.
-/

namespace Esmify.Path

open Text

/-- One element of a pattern. -/
inductive Glob
  /-- Any characters. -/
  | any
  /-- One character. -/
  | one
  /-- This very character. -/
  | exactly (c : Char)
  /-- One character in one of the ranges, or in none of them when `negated`. -/
  | member (negated : Bool) (ranges : List (Char × Char))
  deriving DecidableEq, Repr

/-! ## Bracket groups -/

/-- The characters of a group after its opening bracket, and what follows the closing one. -/
def group? (t : Text) : Option (Text × Text) :=
  let (mark, t) := match t with
    | '!' :: rest => (['!'], rest)
    | _ => ([], t)
  let (first, t) := match t with
    | ']' :: rest => ([']'], rest)
    | _ => ([], t)
  match t.dropWhile (· != ']') with
  | _ :: rest => some (mark ++ first ++ t.takeWhile (· != ']'), rest)
  | [] => none

/-- Cuts a group at the hyphens that make ranges. The first `keep` characters are not looked at, and
neither are the two after a hyphen that was taken. -/
def chunksFrom : (keep : Nat) → (current : Text) → Text → List Text
  | _, current, [] => [current.reverse]
  | keep + 1, current, c :: cs => chunksFrom keep (c :: current) cs
  | 0, current, c :: cs =>
    if c == '-' then current.reverse :: chunksFrom 2 [] cs else chunksFrom 0 (c :: current) cs

/-- The pieces of a group between its range hyphens; a hyphen at the end makes no range. -/
def chunks (t : Text) : List Text :=
  let pieces := chunksFrom (if t.head? == some '!' then 2 else 1) [] t
  match pieces.reverse with
  | [] :: last :: front => ((last ++ ['-']) :: front).reverse
  | _ => pieces

/-- Takes out the ranges whose ends are in the wrong order, the last one first. -/
def withoutEmptyRanges : List Text → List Text
  | [] => []
  | chunk :: rest =>
    match withoutEmptyRanges rest with
    | [] => [chunk]
    | next :: others =>
      match chunk.getLast?, next.head? with
      | some low, some high =>
        if high.val < low.val then (chunk.dropLast ++ next.drop 1) :: others
        else chunk :: next :: others
      | _, _ => chunk :: next :: others

/-- The members of a group: a character, or a hyphen between two pieces. -/
def memberMarks : List Text → List (Option Char)
  | [] => []
  | [chunk] => chunk.map some
  | chunk :: rest => chunk.map some ++ none :: memberMarks rest

/-- The ranges of a group; a hyphen that nothing can be put before or after stands for itself. -/
def rangesOf : List (Option Char) → List (Char × Char)
  | some low :: none :: some high :: rest => (low, high) :: rangesOf rest
  | some c :: rest => (c, c) :: rangesOf rest
  | none :: rest => ('-', '-') :: rangesOf rest
  | [] => []

/-- The element that a group stands for. -/
def ofGroup (t : Text) : Glob :=
  match memberMarks (withoutEmptyRanges (chunks t)) with
  | some '!' :: marks => .member true (rangesOf marks)
  | marks => .member false (rangesOf marks)

/-! ## Patterns -/

/-- Reads a pattern; the first `skip` characters belong to a group that has been read. A run of
stars is one star. -/
def parseFrom : (skip : Nat) → Text → List Glob
  | _, [] => []
  | skip + 1, _ :: cs => parseFrom skip cs
  | 0, c :: cs =>
    if c == '*' then
      if cs.head? == some '*' then parseFrom 0 cs else .any :: parseFrom 0 cs
    else if c == '?' then .one :: parseFrom 0 cs
    else if c == '[' then
      match group? cs with
      | some (inside, rest) => ofGroup inside :: parseFrom (cs.length - rest.length) cs
      | none => .exactly c :: parseFrom 0 cs
    else .exactly c :: parseFrom 0 cs

/-- The elements of a pattern. -/
def Glob.parse (pattern : Text) : List Glob :=
  parseFrom 0 pattern

/-- Whether a character fits an element that stands for one character. -/
def Glob.fits : Glob → Char → Bool
  | .any, _ => false
  | .one, _ => true
  | .exactly d, c => c == d
  | .member negated ranges, c =>
    (ranges.any fun r => r.1.val ≤ c.val && c.val ≤ r.2.val) != negated

/-- Whether a property holds of an ending of a text, the whole text and the empty one included. -/
def ofSomeEnding (p : Text → Bool) : Text → Bool
  | [] => p []
  | c :: cs => p (c :: cs) || ofSomeEnding p cs

/-- Whether a path as a whole fits the elements of a pattern. -/
def Glob.accepts : List Glob → Text → Bool
  | [], t => t.isEmpty
  | .any :: gs, t => ofSomeEnding (Glob.accepts gs) t
  | _ :: _, [] => false
  | g :: gs, c :: cs => g.fits c && Glob.accepts gs cs

/-- Whether a path as a whole fits a pattern. -/
def fitsPattern (pattern path : Text) : Bool :=
  Glob.accepts (Glob.parse pattern) path

/-! ## Ignored paths -/

/-- The names of the folders that are ignored unless others are given. -/
def defaultIgnore : Text :=
  "node_modules .git dist eslintrc".toList

/-- The pattern of everything below a folder of the given name. -/
def patternOf (name : Text) : Text :=
  "**/".toList ++ name ++ "/**".toList

/-- The patterns for names separated by white space. -/
def ignorePatterns (names : Text) : List Text :=
  (words names).map patternOf

/-- A path relative to the root of a scan, as the patterns see it: with slashes, and with the root
at its front. -/
def fromRoot (path : Text) : Text :=
  let path := path.map fun c => if c == '\\' then '/' else c
  "./".toList ++ ((after? "./".toList path).getD path)

/-- Whether a path relative to the root of a scan fits one of the patterns. -/
def isIgnored (patterns : List Text) (path : Text) : Bool :=
  patterns.any fun pattern => fitsPattern pattern (fromRoot path)

end Esmify.Path
