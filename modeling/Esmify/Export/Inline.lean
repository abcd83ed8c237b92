import Esmify.Export.Declaration
import Esmify.Export.Reader
import Esmify.Export.Render
import Esmify.Revision

/-!
# Writing inline exports

Each inline export becomes an export of its own name: a function value becomes a function with that
name, a name that is declared or imported in the file is exported where it stands, and anything else
becomes an exported constant. **Longer names come first**.
-/

namespace Esmify

open Text Source

/-! ## Function values -/

/-- Blanks, tabs and line breaks. -/
def isGap (c : Char) : Bool :=
  isIndent c || c == '\n'

/-- The head of a function expression that may stand in a parenthesis of its own. -/
structure FunctionHead where
  isWrapped : Bool
  /-- The word `async` and its white space, if it is there. -/
  modifier : Text
  isGenerator : Bool
  /-- The text from the parameters on. -/
  fromParams : Text
  deriving Repr

/-- The head of a function expression at the front of a text; a name of its own is passed over. -/
def functionHead? (t : Text) : Option FunctionHead :=
  let (wrapped, t) := match t with
    | '(' :: cs => (true, skipBlanks cs)
    | _ => (false, t)
  let inner := (spacedWord? "async".toList t).getD t
  match after? "function".toList inner with
  | some rest =>
    if outsideWord rest.head? then
      let (star, rest) := match skipBlanks rest with
        | '*' :: cs => (true, skipBlanks cs)
        | rest => (false, rest)
      let rest := skipBlanks (((name? rest).map Prod.snd).getD rest)
      if rest.head? == some '(' then
        some ⟨wrapped, t.take (t.length - inner.length), star, rest⟩
      else none
    else none
  | none => none

/-- An async arrow function with a block at the front of a text: its parameters and its body from
the brace on. -/
def asyncArrow? (t : Text) : Option (Text × Text) :=
  (wordThenBlanks? "async".toList t).bind arrow?

/-- The text up to and with the bracket that closes its first character, and what follows. -/
def bracketed? (t : Text) : Option (Text × Text) :=
  (closing? t 0).map fun close => (t.take (close + 1), t.drop (close + 1))

/-- A block at the front of a text, and what follows it. -/
def block? (t : Text) : Option (Text × Text) :=
  if t.head? == some '\x7b' then bracketed? t else none

/-- What follows a semicolon, if one follows after blanks; else the text itself. -/
def skipSemicolon (t : Text) : Text :=
  (after? [';'] (skipIndent t)).getD t

/-- What follows the parenthesis that closes a wrapped function, unless the function is called on
the spot. -/
def unwrap? (t : Text) : Option Text :=
  match t.dropWhile isGap with
  | ')' :: rest => if (rest.dropWhile isGap).head? == some '(' then none else some rest
  | _ => none

/-- The function expression at the front of a text as a declaration of `name`, and what follows the
statement. -/
def namedFunction? (h : FunctionHead) (name : Text) : Option (Text × Text) :=
  match bracketed? h.fromParams with
  | some (params, rest) =>
    match block? (rest.dropWhile isGap) with
    | some (body, rest) =>
      let written := h.modifier ++ "function".toList ++ (if h.isGenerator then ['*'] else [])
        ++ ' ' :: name ++ params ++ ' ' :: body
      (if h.isWrapped then unwrap? rest else some rest).map fun rest =>
        (written, skipSemicolon rest)
    | none => none
  | none => none

/-- The function value at the front of a text as a declaration of `name`, and what follows the
statement. -/
def inlineFunction? (t name : Text) : Option (Text × Text) :=
  match functionHead? t with
  | some h => namedFunction? h name
  | none =>
    match asyncArrow? t with
    | some (params, body) =>
      (block? body).map fun (body, rest) =>
        ("async function ".toList ++ name ++ inParens params ++ ' ' :: body, skipSemicolon rest)
    | none => none

/-! ## Statements -/

/-- The export of a name at its declaration, in place of the statement from `position` to `stop`. -/
def exportDeclared (content : Text) (position stop : Nat) (d : Occurrence Unit) :
    Except Fault Text :=
  applyEdits content [⟨position, stop, []⟩, ⟨d.start, d.start, "export ".toList⟩]

/-- The re-export of an imported name, in place of the statement from `position` to `stop`. -/
def exportImported (content name : Text) (position stop : Nat) (s : ImportStatement) :
    Except Fault Text :=
  applyEdits content
    [⟨position, stop, []⟩, ⟨s.stop, s.stop, '\n' :: exportFrom s (s.binding? name).toList⟩]

/-- Whether a line begins at an offset of a text. -/
def isLineStart (content : Text) (position : Nat) : Bool :=
  beginsLine (content.take position).getLast?

/-- Converts an inline export that stands at `position`. -/
def writeInlineAt (content : Text) (e : InlineExport) (position : Nat) : Revision Text :=
  let indent := indentation e.raw
  let valueStart := position + e.raw.length
  let front := content.take position
  match inlineFunction? (content.drop valueStart) e.property with
  | some (declaration, rest) => pure (front ++ indent ++ "export ".toList ++ declaration ++ rest)
  | none =>
    let after := content.drop (statementEnd content valueStart).2
    let stop := content.length - (skipLineEnd after).length
    match declaration? content e.property with
    | some d => Revision.ofExcept (exportDeclared content position stop d)
    | none =>
      match importOf? content e.property with
      | some s => do
        Revision.warn (.usedAndExported e.property)
        Revision.ofExcept (exportImported content e.property position stop s)
      | none => do
        if !indent.isEmpty && isLineStart content position then
          Revision.warn (.nestedExport (trim e.full))
        pure (front ++ indent ++ "export const ".toList ++ e.property ++ " = ".toList
          ++ content.drop valueStart)

/-- Converts an inline export, at the first occurrence of its statement. -/
def writeInline (content : Text) (e : InlineExport) : Revision Text :=
  match indexOf? e.full content with
  | some position => writeInlineAt content e position
  | none => do
    Revision.warn (.lostExport e.full)
    pure content

/-- Converts inline exports one after the other. -/
def writeEach : (content : Text) → List InlineExport → Revision Text
  | content, [] => pure content
  | content, e :: es => do
    let content ← writeInline content e
    writeEach content es

/-- Inline exports by decreasing length of their names; those of one length keep their order. -/
def longestFirst (es : List InlineExport) : List InlineExport :=
  es.mergeSort fun a b => b.property.length ≤ a.property.length

/-- Converts the inline exports of a text, those with longer names first. -/
def writeInlines (content : Text) (es : List InlineExport) : Revision Text :=
  writeEach content (longestFirst es)

end Esmify
