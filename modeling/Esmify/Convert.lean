import Esmify.DefaultIndex
import Esmify.Export.Global
import Esmify.Export.Inline
import Esmify.Export.Usage
import Esmify.Import.Writer
import Esmify.Requirement.Reader

/-!
# Converting a file

**Both readers see the text as it was**; imports are written first, exports into the result. Of the
exports, global ones are written first, inline ones next, and then the names that are exported are
used as they are. -/

namespace Esmify

/-- What the index knows about a whole module required from the file at `path`. -/
def knownDefault (index : Option DefaultIndex) (path : Option Text) (r : Requirement) :
    Option Bool :=
  match index, path with
  | some index, some (c :: cs) =>
    if r.isWholeModule && Requirement.isRelative r.target then
      some (index.isDefaultImport (c :: cs) r.target)
    else none
  | _, _ => none

/-- Puts imports in place of the requirements of the file at `path`. -/
def convertImports (content : Text) (path : Option Text) (config : Config)
    (index : Option DefaultIndex) (rs : List Requirement) : Revision Text :=
  writeImports content config (knownDefault index path) rs

/-- The names whose uses through the exports are replaced. -/
def Exports.names (e : Exports) : List Text :=
  e.inline.map (·.property) ++ e.global.properties.map exposedName

/-- Writes the exports of a text. -/
def Exports.write (content : Text) (e : Exports) : Revision Text := do
  let content ← writeGlobal content e.global
  let content ← writeInlines content e.inline
  replaceUsages content e.names

/-- Converts the text of the file at `path`. -/
def convert (content : Text) (path : Option Text) (config : Config)
    (index : Option DefaultIndex) : Revision Text := do
  let rs ← Revision.ofReported (Requirement.readAll content)
  let exports ← Revision.ofReported (Exports.read content config.experimental)
  if rs.isEmpty && exports.isEmpty then pure content
  else
    let content ← convertImports content path config index rs
    exports.write content

end Esmify
