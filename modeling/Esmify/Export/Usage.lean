import Esmify.Export.Declaration
import Esmify.Export.Reader
import Esmify.Revision

/-!
# Uses of exported names

A name that is exported by a declaration is used as it is, so `exports.name` and
`module.exports.name` become `name`. Longer names come first. A name is put in as a template, which
is the name itself unless it has a backslash. -/

namespace Esmify

open Text Source

/-- A use of an exported name through the exports of the module. -/
def exportsUse (name : Text) : Pattern Unit := fun before t =>
  if beginsName before then
    (((exportsWord? t).bind (after? ['.'])).bind (endedName? name)).map fun rest => ((), rest)
  else none

/-- The definition of an exported variable, at the start of a line. -/
def exportedVariable (name : Text) : Pattern Unit := fun before t =>
  if beginsLine before then
    (((spacedWord? "export".toList (skipIndent t)).bind (oneOf? variableKeywords)).bind
      (afterSomeBlanks? (endedName? name))).map fun rest => ((), rest)
  else none

/-- Whether the first use of a name through the exports stands above its definition. -/
def isUsedEarly (content name : Text) : Bool :=
  match first? (exportsUse name) content, first? (exportedVariable name) content with
  | some use, some definition => use.start < definition.start
  | _, _ => false

/-- The matches of a pattern, each with what a template puts in its place. -/
def filled {α : Type} (p : Pattern α) (template : Template) : Pattern Text := fun before t =>
  (p before t).map fun m => (template.fill (t.take (t.length - m.2.length)), m.2)

/-- Replaces the uses of a name through the exports. -/
def replaceUse (content name : Text) : Except Fault Text :=
  if holdsSomewhere (exportsUse name) content then
    match Template.ofText name with
    | .ok template => .ok (replaceAll (filled (exportsUse name) template) content)
    | .error fault => .error (.badTemplate fault)
  else .ok content

/-- Replaces the uses of names through the exports, one name after the other. -/
def replaceUses : (content : Text) → List Text → Revision Text
  | content, [] => pure content
  | content, name :: names => do
    if isUsedEarly content name then Revision.warn (.usedBeforeDefinition name)
    let content ← Revision.ofExcept (replaceUse content name)
    replaceUses content names

/-- Names without repetition, the longest first. The order of names of one length is free; they
stand by code point, so that warnings come in one order. -/
def usageOrder (names : List Text) : List Text :=
  names.eraseDups.mergeSort fun a b =>
    b.length < a.length || (b.length == a.length && before a b)

/-- Replaces the uses of exported names by the bare names. -/
def replaceUsages (content : Text) (names : List Text) : Revision Text :=
  replaceUses content (usageOrder names)

end Esmify
