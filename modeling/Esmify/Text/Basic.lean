/-!
# Texts

**A text is a list of characters**, so every offset, index and length counts characters and a
slice is a `take` and a `drop`. The module holds the operations that do not depend on what the
text is about:

* `Text.slice` and `Text.splice` cut a part out and put another one in;
* `Text.after?` reads a fixed beginning, `Text.indexOf?` and `Text.occurrencesOf` search;
* `Text.lineStart` and `Text.lineEnd` find the line around an offset;
* `Text.before` and `Text.sort` order texts by code point;
* `Text.inRanges` tells the characters of a class;
* `Text.decimal` and `Text.padLeft` write numbers.
-/

namespace Esmify

/-- A text is a sequence of characters; offsets into it count characters. -/
abbrev Text := List Char

namespace Text

/-! ## Cutting -/

/-- The characters from offset `start` up to and not including offset `stop`. -/
def slice (t : Text) (start stop : Nat) : Text :=
  (t.take stop).drop start

/-- The text with `piece` put in place of the characters from `start` to `stop`. -/
def splice (t : Text) (start stop : Nat) (piece : Text) : Text :=
  t.take start ++ piece ++ t.drop stop

/-- The text with `piece` put in at the given offset. -/
def insertAt (t : Text) (offset : Nat) (piece : Text) : Text :=
  t.splice offset offset piece

/-- The offset that an index stands for; an index below zero counts from the end. -/
def place (t : Text) : (index : Int) → Nat
  | .ofNat n => n
  | .negSucc n => t.length - (n + 1)

/-- An index that is not below zero is an offset. -/
@[simp]
theorem place_natCast (t : Text) (n : Nat) : t.place n = n :=
  rfl

/-- The text without its longest ending of characters that satisfy `p`. -/
def dropEndWhile (p : Char → Bool) (t : Text) : Text :=
  (t.reverse.dropWhile p).reverse

/-! ## Reading from the front -/

/-- What follows `head` in a text that begins with it. -/
def after? : (head : Text) → Text → Option Text
  | [], t => some t
  | _ :: _, [] => none
  | h :: hs, c :: cs => if h = c then after? hs cs else none

/-- Reading a beginning takes exactly that beginning off. -/
theorem after?_eq_some_iff : {head t rest : Text} → after? head t = some rest ↔ t = head ++ rest
  | [], t, rest => by simp [after?]
  | h :: hs, [], rest => by simp [after?]
  | h :: hs, c :: cs, rest => by
    by_cases hc : h = c
    · subst hc
      simp [after?, after?_eq_some_iff]
    · simp [after?, hc, Ne.symm hc]

/-! ## Searching -/

/-- The offset of the first occurrence of `needle`. -/
def indexOf? (needle : Text) : Text → Option Nat
  | [] => if needle.isEmpty then some 0 else none
  | c :: cs => if needle.isPrefixOf (c :: cs) then some 0 else (indexOf? needle cs).map (· + 1)

/-- Whether `needle` occurs somewhere in the text. -/
def occursIn (needle t : Text) : Bool :=
  (indexOf? needle t).isSome

/-- Whether `needle` stands at the given offset of the text. -/
def standsAt (needle t : Text) (offset : Nat) : Bool :=
  offset ≤ t.length && needle.isPrefixOf (t.drop offset)

/-- The offsets of all occurrences of `needle`, overlapping ones included, counted from `offset`. -/
def occurrencesFrom (needle : Text) (offset : Nat) : Text → List Nat
  | [] => if needle.isEmpty then [offset] else []
  | c :: cs =>
    if needle.isPrefixOf (c :: cs) then offset :: occurrencesFrom needle (offset + 1) cs
    else occurrencesFrom needle (offset + 1) cs

/-- The offsets of all occurrences of `needle` in increasing order, overlapping ones included. -/
def occurrencesOf (needle t : Text) : List Nat :=
  occurrencesFrom needle 0 t

/-- The text with the first occurrence of `needle`, if there is one, replaced by `piece`. -/
def replaceFirst (t needle piece : Text) : Text :=
  match indexOf? needle t with
  | some i => t.splice i (i + needle.length) piece
  | none => t

/-- The part before the first `mark` and, when there is a `mark`, the part after it. -/
def partition (mark : Char) (t : Text) : Text × Option Text :=
  match t.dropWhile (· != mark) with
  | [] => (t, none)
  | _ :: rest => (t.takeWhile (· != mark), some rest)

/-! ## Lines -/

/-- The offset at which the line holding `index` begins. -/
def lineStart (t : Text) (index : Nat) : Nat :=
  (dropEndWhile (· != '\n') (t.take index)).length

/-- The offset of the line break that ends the line holding `index`, or the end of the text. -/
def lineEnd (t : Text) (index : Nat) : Nat :=
  min index t.length + ((t.drop index).takeWhile (· != '\n')).length

/-- The lines of a text, without their line breaks. -/
def lines (t : Text) : List Text :=
  t.splitOn '\n'

/-- Lines joined by line breaks. -/
def unlines (ls : List Text) : Text :=
  ['\n'].intercalate ls

/-! ## Order -/

/-- Order by code point, a text before its extensions. -/
def before : Text → Text → Bool
  | [], _ => true
  | _ :: _, [] => false
  | a :: as, b :: bs => if a = b then before as bs else a.val < b.val

/-- Texts sorted by code point. -/
def sort (ts : List Text) : List Text :=
  ts.mergeSort before

/-! ## Classes of characters -/

/-- Whether `n` lies in one of the ranges, which stand in increasing order: looking it up stops at
the first range that begins above it. -/
def inRanges (n : Nat) : List (Nat × Nat) → Bool
  | [] => false
  | (lo, hi) :: rest => if n < lo then false else if n ≤ hi then true else inRanges n rest

/-! ## Writing -/

/-- A number in decimal digits. -/
def decimal (n : Int) : Text :=
  (toString n).toList

/-- The text padded with blanks on the left to the given width. -/
def padLeft (width : Nat) (t : Text) : Text :=
  List.replicate (width - t.length) ' ' ++ t

end Text

end Esmify
