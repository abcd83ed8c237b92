import Esmify.Export.Reader
import Esmify.Path.Basic

/-!
# Default exports across files

An index of the files whose exports are a single value. A file that requires one of them by a
relative path takes its default export. The index is made once, from the texts as they were.
-/

namespace Esmify

/-- The absolute paths of the files that export a single value; relative paths are read in the
folder `here`. -/
structure DefaultIndex where
  here : Text
  paths : List Text
  deriving Repr

namespace DefaultIndex

/-- The index of the given files. -/
def ofPaths (here : Text) (paths : List Text) : DefaultIndex :=
  ⟨here, (paths.map (Path.absolute here)).eraseDups⟩

/-- Whether a text assigns a single value to its exports. -/
def exportsOneValue (experimental : Bool) (content : Text) : Bool :=
  !(((GlobalExports.read content experimental).value.direct).getD []).isEmpty

/-- The index of files given with their texts. -/
def ofContents (here : Text) (experimental : Bool) (files : List (Text × Text)) : DefaultIndex :=
  ofPaths here ((files.filter fun f => exportsOneValue experimental f.2).map Prod.fst)

/-- Whether the index has a file. -/
def contains (index : DefaultIndex) (path : Text) : Bool :=
  index.paths.contains (Path.absolute index.here path)

/-- Whether a module required from the file `consumer` is one of the files. -/
def isDefaultImport (index : DefaultIndex) (consumer target : Text) : Bool :=
  target.head? == some '.' &&
    (Path.candidates index.here consumer target).any fun path => index.paths.contains path

end DefaultIndex

end Esmify
