import Esmify.Config
import Esmify.Path.Basic
import Esmify.Requirement.Basic
import Esmify.Revision

/-!
# Writing imports

`importOf` renders a requirement as an import statement, `namedImport` refuses to do so for a
default export without a local name, and `writeImports` puts the statements in place of the
requirements of a text. **All edits refer to the text as it was read**, so they are applied
together. -/

namespace Esmify

open Text

/-! ## One statement -/

/-- The module between quotes. -/
def specifier (quote target : Text) : Text :=
  quote ++ target ++ quote

/-- The module as it is written: relative ones may lose their extension. -/
def writtenTarget (config : Config) (target : Text) : Text :=
  if config.stripExtension && Requirement.isRelative target && Path.endsWithJs target then
    target.take (target.length - 3)
  else target

/-- One binding of an import clause; `isDefault` says that a module as a whole is its default
export. -/
def writtenBinding (isDefault : Bool) (b : Binding) : Text :=
  if b.key == wholeModule && isDefault then b.localName.getD []
  else
    match b.localName with
    | some (c :: cs) => b.key ++ " as ".toList ++ c :: cs
    | _ => b.key

/-- The bindings of an import clause on lines of their own, in braces. -/
def blockClause (lastComma : Bool) (indent : Text) (members : List Text) : Text :=
  "\x7b\n".toList ++ indent ++ (",\n".toList ++ indent).intercalate members
    ++ (if lastComma then [','] else []) ++ "\n\x7d".toList

/-- The bindings of an import clause on one line; braces stand around everything but a whole
module. -/
def lineClause (whole : Bool) (members : List Text) : Text :=
  let joined := ", ".toList.intercalate members
  if whole then joined else "\x7b ".toList ++ joined ++ " \x7d".toList

/-- The import statement of a requirement; `isDefault`, when given, overrides what the requirement
says about a default export. -/
def importOf (config : Config) (isDefault : Option Bool) (r : Requirement) : Text :=
  let quote := (config.quote.map fun q => [q.char]).getD r.quote
  let written := specifier quote (writtenTarget config r.target)
  match r.bindings with
  | [] => "import ".toList ++ written ++ [';']
  | bs =>
    let members := bs.map (writtenBinding (isDefault.getD r.hasDefault))
    let clause := match r.indent with
      | some (c :: cs) => blockClause config.lastComma (c :: cs) members
      | _ => lineClause r.isWholeModule members
    "import ".toList ++ clause ++ " from ".toList ++ written ++ [';']

/-- The number of the first binding that stands for a default export and has no local name. -/
def unnamedBinding? (isDefault : Bool) (bs : List Binding) : Option Nat :=
  bs.findIdx? fun b => b.key == wholeModule && isDefault && b.localName.isNone

/-- The import statement of a requirement all of whose default exports have local names. -/
def namedImport (config : Config) (isDefault : Option Bool) (r : Requirement) : Except Fault Text :=
  match unnamedBinding? (isDefault.getD r.hasDefault) r.bindings with
  | some index => .error (.unnamedBinding index)
  | none => .ok (importOf config isDefault r)

/-! ## All statements of a text -/

/-- The first occurrence of a text that is not `taken` yet. -/
def firstFree? (content : Text) (taken : List Nat) (raw : Text) : Option Nat :=
  (occurrencesOf raw content).find? fun i => !taken.contains i

/-- Where a requirement stands: where it was read if it is still there, else at its first occurrence
that is not `taken` yet. -/
def locate? (content : Text) (taken : List Nat) (r : Requirement) : Option Nat :=
  match r.start with
  | some start =>
    if standsAt r.raw content start then some start else firstFree? content taken r.raw
  | none => firstFree? content taken r.raw

/-- Whether the statement of a requirement is indented and is not part of a longer declaration. -/
def isNested (r : Requirement) : Bool :=
  match r.raw with
  | c :: _ => isIndent c && !r.chained
  | [] => false

/-- The edits that put imports in place of requirements; `isDefault` tells which whole modules are
known to be default exports. -/
def importEdits (content : Text) (config : Config) (isDefault : Requirement → Option Bool) :
    (taken : List Nat) → List Requirement → Revision (List Edit)
  | _, [] => pure []
  | taken, r :: rs =>
    match locate? content taken r with
    | none => do
      Revision.warn (.lostRequire r.raw)
      importEdits content config isDefault taken rs
    | some start => do
      let piece ← Revision.ofExcept (namedImport config (isDefault r) r)
      if isNested r then Revision.warn (.nestedImport r.raw)
      let edits ← importEdits content config isDefault (start :: taken) rs
      pure (⟨start, start + r.raw.length, piece⟩ :: edits)

/-- The text with an import in place of each requirement. -/
def writeImports (content : Text) (config : Config) (isDefault : Requirement → Option Bool)
    (rs : List Requirement) : Revision Text := do
  let edits ← importEdits content config isDefault [] rs
  Revision.ofExcept (applyEdits content edits)

end Esmify
