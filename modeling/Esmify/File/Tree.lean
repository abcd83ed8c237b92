import Esmify.File.Encoding
import Esmify.Path.Basic

/-!
# Files and folders

A finite tree of folders and files. **A path is walked component by component**: every component
before the last must be a folder, a single dot stays where it is, and a double dot goes up.
-/

namespace Esmify.File

open Text

/-- The entries of a folder, one after the other. -/
inductive Listing
  /-- No more entries. -/
  | done
  /-- A file and its content. -/
  | file (name : Text) (content : Bytes) (rest : Listing)
  /-- A folder and its entries. -/
  | folder (name : Text) (inside : Listing) (rest : Listing)
  deriving Repr

/-- What a path can lead to. -/
inductive Entry
  | file (content : Bytes)
  | folder (inside : Listing)
  deriving Repr

/-- Why a file cannot be read. -/
inductive FileFault
  /-- There is nothing at the path. -/
  | missing (path : Text)
  /-- The path leads through a file. -/
  | throughFile (path : Text)
  /-- There is a folder at the path. -/
  | isFolder (path : Text)
  /-- The content is not a text. -/
  | undecodable (fault : DecodeFault)
  /-- The path, or a name in it, is longer than paths and names can be. -/
  | tooLong (path : Text)
  /-- The path has a null character. -/
  | nullCharacter
  /-- Files were to be read by a negative number of readers. -/
  | noReaders
  deriving DecidableEq, Repr

/-- The wording of a file fault. -/
def FileFault.message : FileFault → Text
  | .missing path => "[Errno 2] No such file or directory: ".toList ++ path.quoted
  | .throughFile path => "[Errno 20] Not a directory: ".toList ++ path.quoted
  | .isFolder path => "[Errno 21] Is a directory: ".toList ++ path.quoted
  | .undecodable fault => fault.message
  | .tooLong path => "[Errno 36] File name too long: ".toList ++ path.quoted
  | .nullCharacter => "embedded null byte".toList
  | .noReaders => "max_workers must be greater than 0".toList

namespace Listing

/-- The entry of a name. -/
def get? (name : Text) : Listing → Option Entry
  | .done => none
  | .file n content rest => if n = name then some (.file content) else get? name rest
  | .folder n inside rest => if n = name then some (.folder inside) else get? name rest

/-- The entry at the end of a path given by its components. -/
def at? (tree : Listing) : List Text → Option Entry
  | [] => some (.folder tree)
  | c :: cs =>
    match tree.get? c with
    | some (.folder inside) => inside.at? cs
    | some (.file content) => if cs.isEmpty then some (.file content) else none
    | none => none

/-- The folders on the way to the last component, and there a file with the given content, or a
folder when none is given. -/
def chain (content : Option Bytes) : List Text → Listing
  | [] => .done
  | [name] =>
    match content with
    | some bytes => .file name bytes .done
    | none => .folder name .done .done
  | c :: cs => .folder c (chain content cs) .done

/-- The tree with a file of the given content at the given components, or a folder when no content
is given; what is missing on the way is made. -/
def put (content : Option Bytes) : List Text → Listing → Listing
  | cs, .done => chain content cs
  | [name], .file n old rest =>
    if n = name then .file n (content.getD old) rest else .file n old (put content [name] rest)
  | cs, .file n old rest => .file n old (put content cs rest)
  | [name], .folder n inside rest =>
    if n = name then .folder n inside rest else .folder n inside (put content [name] rest)
  | c :: cs, .folder n inside rest =>
    if n = c then .folder n (put content cs inside) rest
    else .folder n inside (put content (c :: cs) rest)
  | [], .folder n inside rest => .folder n inside rest

end Listing

/-- A tree of files, and the folder in which relative paths are read. -/
structure Disk where
  tree : Listing
  here : List Text
  deriving Repr

namespace Disk

/-- The path of the folder in which relative paths are read. -/
def herePath (disk : Disk) : Text :=
  '/' :: ['/'].intercalate disk.here

/-- Why a walk went wrong. -/
inductive WalkFault
  | missing
  | throughFile
  | tooLong
  deriving DecidableEq, Repr

/-- The fault of a walk along a path. -/
def WalkFault.at (path : Text) : WalkFault → FileFault
  | .missing => .missing path
  | .throughFile => .throughFile path
  | .tooLong => .tooLong path

/-- How many bytes a name can have. -/
def longestName : Nat := 255

/-- How many bytes a path can have. -/
def longestPath : Nat := 4095

/-- Walks components from a folder, given by its components in reverse. -/
def walk (tree : Listing) : (folder : List Text) → List Text → Except WalkFault (List Text × Entry)
  | folder, [] =>
    match tree.at? folder.reverse with
    | some e => .ok (folder.reverse, e)
    | none => .error .missing
  | folder, c :: cs =>
    match tree.at? folder.reverse with
    | some (.folder _) =>
      if c.isEmpty || c == ['.'] then walk tree folder cs
      else if c == Path.parent then walk tree folder.tail cs
      else if longestName < (encode c).length then .error .tooLong
      else walk tree (c :: folder) cs
    | some (.file _) => .error .throughFile
    | none => .error .missing

/-- Walks a path. -/
def resolve (disk : Disk) (path : Text) : Except WalkFault (List Text × Entry) :=
  if path.isEmpty then .error .missing
  else if longestPath < (encode path).length then .error .tooLong
  else walk disk.tree (if path.head? == some '/' then [] else disk.here.reverse) (path.splitOn '/')

/-- The folder at a path. -/
def folder? (disk : Disk) (path : Text) : Option Listing :=
  match disk.resolve path with
  | .ok (_, .folder inside) => some inside
  | _ => none

/-- Whether a path has a null character. -/
def hasNull (path : Text) : Bool :=
  path.contains '\x00'

/-- The text of the file at a path. -/
def readText (disk : Disk) (path : Text) : Except FileFault Text :=
  if hasNull path then .error .nullCharacter
  else
    match disk.resolve path with
    | .error fault => .error (fault.at path)
    | .ok (_, .folder _) => .error (.isFolder path)
    | .ok (_, .file content) =>
      match decode content with
      | .ok t => .ok (normalizeBreaks t)
      | .error f => .error (.undecodable f)

/-- Replaces the content of the file at a path. -/
def writeText (disk : Disk) (path text : Text) : Disk :=
  match disk.resolve path with
  | .ok (components, .file _) => { disk with tree := disk.tree.put (some (encode text)) components }
  | _ => disk

end Disk

end Esmify.File
