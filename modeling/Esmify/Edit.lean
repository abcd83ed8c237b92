import Esmify.Fault
import Esmify.Text.Blank

/-!
# Edits

An edit replaces the characters between two offsets of a text, which may be counted from its end.
**A set of edits refers to one text**: `applyEdits` works from the back to the front, so that the
offsets of what is still to be edited stay valid, and refuses edits that reach into one another.

`insertBefore` and `dropBlock` find their place by searching, and keep the blank lines around it in
order.
-/

namespace Esmify

/-- The characters from `start` to `stop` give way to `piece`. -/
structure Edit where
  start : Int
  stop : Int
  piece : Text
  deriving DecidableEq, Repr

/-- Applies edits given from back to front, none of which may reach beyond `bound` or the start of
the one before it in the list. -/
def applyBackwards : (content : Text) → (bound : Int) → List Edit → Except Fault Text
  | content, _, [] => .ok content
  | content, bound, e :: es =>
    if bound < e.stop then .error (.overlappingEdit e.start e.stop)
    else
      let edited := content.splice (content.place e.start) (content.place e.stop) e.piece
      applyBackwards edited e.start es

/-- Edits by decreasing start; those with the same start keep their order. -/
def sortBackwards (edits : List Edit) : List Edit :=
  edits.mergeSort fun a b => b.start ≤ a.start

/-- The text with all edits applied, each of them given by offsets of the text as it was. -/
def applyEdits (content : Text) (edits : List Edit) : Except Fault Text :=
  applyBackwards content content.length (sortBackwards edits)

namespace Text

/-- Whether a character is a line break. -/
def isBreak (c : Char) : Bool :=
  c == '\n'

/-- The text without the line breaks at its end. -/
def dropEndBreaks (t : Text) : Text :=
  dropEndWhile isBreak t

/-- The text without the line breaks at its front. -/
def dropFrontBreaks (t : Text) : Text :=
  t.dropWhile isBreak

/-- Puts `piece` right before the first occurrence of `search`. -/
def insertBefore (content search piece : Text) : Except Fault Text :=
  match indexOf? search content with
  | none => .error (.missingPattern search)
  | some i => .ok (content.insertAt i piece)

/-- What stands in front of an inserted paragraph: the text so far and a blank line, or nothing when
there is only white space so far. -/
def paragraphHead (front : Text) : Text :=
  if isBlankText front then [] else dropEndBreaks front ++ ['\n', '\n']

/-- What follows an inserted paragraph: a blank line, or just a line break at the end of the
text. -/
def paragraphTail (back : Text) : Text :=
  if back.isEmpty then ['\n'] else '\n' :: '\n' :: back

/-- Puts `piece` before the first occurrence of `search` as a paragraph of its own, a blank line on
either side. -/
def insertParagraphBefore (content search piece : Text) : Except Fault Text :=
  match indexOf? search content with
  | none => .error (.missingPattern search)
  | some i =>
    .ok (paragraphHead (content.take i) ++ dropFrontBreaks (dropEndBreaks piece)
      ++ paragraphTail (content.drop i))

/-- Joins what stands before and after a removed block: at most one blank line is left between them,
none at the top, and one line break at the end. -/
def closeGap (front back : Text) : Text :=
  let front' := dropEndBreaks front
  let back' := dropFrontBreaks back
  if front.isEmpty then back'
  else if isBlankText back then if isBlankText front' then [] else front' ++ ['\n']
  else
    let breaks := (front.length - front'.length) + (back.length - back'.length)
    front' ++ List.replicate (min (max breaks 1) 2) '\n' ++ back'

/-- Removes the first occurrence of `block` and closes the gap. -/
def dropBlock (content block : Text) : Except Fault Text :=
  match indexOf? block content with
  | none => .error (.missingBlock block)
  | some i => .ok (closeGap (content.take i) (content.drop (i + block.length)))

end Text

end Esmify
