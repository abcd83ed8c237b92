import Esmify.File.Tree
import Esmify.Path.Glob

/-!
# Scanning folders

The files below a folder that have one of the wanted extensions, sorted. **Ignored folders are not
entered**; a file is ignored by its own path as well.
-/

namespace Esmify.File

open Text

/-- The extensions that are wanted unless others are given. -/
def defaultExtensions : List Text :=
  [".js".toList]

/-- An extension with its dot. -/
def dotted (extension : Text) : Text :=
  if extension.head? == some '.' then extension else '.' :: extension

/-- Whether a name has one of the extensions. -/
def hasExtension (extensions : List Text) (name : Text) : Bool :=
  (extensions.map dotted).any fun e => e.isSuffixOf name

/-- The wanted files of a folder and the folders in it. The folder is written `base`, and `fromRoot`
is its path from the root of the scan, with a slash at the end unless it is the root. -/
def wanted (patterns extensions : List Text) (base fromRoot : Text) : Listing → List Text
  | .done => []
  | .file name _ rest =>
    let others := wanted patterns extensions base fromRoot rest
    if hasExtension extensions name && !Path.isIgnored patterns (fromRoot ++ name) then
      Path.join base name :: others
    else others
  | .folder name inside rest =>
    let path := fromRoot ++ name ++ ['/']
    let others := wanted patterns extensions base fromRoot rest
    if Path.isIgnored patterns path then others
    else wanted patterns extensions (Path.join base name) path inside ++ others

/-- The wanted files below a folder, which is written `root`, sorted by path. -/
def scan (patterns extensions : List Text) (root : Text) (inside : Listing) : List Text :=
  sort (wanted patterns extensions root [] inside)

/-- The wanted files below the folder at `root`; none when there is no folder. -/
def Disk.scan (disk : Disk) (patterns extensions : List Text) (root : Text) :
    Except FileFault (List Text) :=
  if Disk.hasNull root then .error .nullCharacter
  else
    match disk.folder? root with
    | some inside => .ok (File.scan patterns extensions root inside)
    | none => .ok []

/-- Reads files one after the other; the first that cannot be read is the fault. -/
def Disk.readTexts (disk : Disk) : List Text → Except FileFault (List (Text × Text))
  | [] => .ok []
  | path :: paths =>
    match disk.readText path with
    | .error e => .error e
    | .ok t =>
      match disk.readTexts paths with
      | .error e => .error e
      | .ok rest => .ok ((path, t) :: rest)

/-- Whether the number of readers that was asked for can read; zero stands for the usual number. -/
def canRead (readers : Option Int) : Bool :=
  0 ≤ readers.getD 0

/-- The texts of files, each path once. -/
def Disk.load (disk : Disk) (readers : Option Int) (paths : List Text) :
    Except FileFault (List (Text × Text)) :=
  if paths.isEmpty then .ok []
  else if canRead readers then disk.readTexts paths.eraseDups
  else .error .noReaders

end Esmify.File
