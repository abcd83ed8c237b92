import Esmify.Text.Basic

/-!
# Paths

Paths with slashes. **Normalising** drops empty and single-dot components and lets a double dot
cancel the component before it; exactly two slashes at the front are kept as two, any other number
of them becomes one.
-/

namespace Esmify.Path

open Text

/-- Puts a relative path behind a folder; an absolute path stands for itself. -/
def join (folder path : Text) : Text :=
  if path.head? == some '/' then path
  else if folder.isEmpty || folder.getLast? == some '/' then folder ++ path
  else folder ++ '/' :: path

/-- The slashes that a normal path begins with. -/
def rootOf (path : Text) : Text :=
  match path with
  | '/' :: '/' :: '/' :: _ => ['/']
  | '/' :: '/' :: _ => ['/', '/']
  | '/' :: _ => ['/']
  | _ => []

/-- The component that stands for the folder above. -/
def parent : Text := ['.', '.']

/-- Adds a component to those read so far, the last one first: a double dot cancels the component
before it, and at the root it is dropped. -/
def addComponent (absolute : Bool) (done : List Text) (c : Text) : List Text :=
  if c.isEmpty || c == ['.'] then done
  else if c != parent then c :: done
  else
    match done with
    | [] => if absolute then [] else [parent]
    | d :: ds => if d == parent then c :: done else ds

/-- The normal form of a path. -/
def normal (path : Text) : Text :=
  let root := rootOf path
  let components := ((path.splitOn '/').foldl (addComponent !root.isEmpty) []).reverse
  let written := root ++ ['/'].intercalate components
  if written.isEmpty then ['.'] else written

/-- The normal form of a path, read in the folder `here`. -/
def absolute (here path : Text) : Text :=
  normal (join here path)

/-- The folder part of a path, without its last slashes unless it is nothing else. -/
def folderOf (path : Text) : Text :=
  let head := dropEndWhile (· != '/') path
  if head.all (· == '/') then head else dropEndWhile (· == '/') head

/-- Whether a path ends with the extension `.js`. -/
def endsWithJs (path : Text) : Bool :=
  ".js".toList.isSuffixOf path

/-- The files that a relative module may stand for when it is required from the file `consumer`:
itself when it has the extension, else the file with the extension and the index of the folder. -/
def candidates (here consumer target : Text) : List Text :=
  let path := normal (join (folderOf (absolute here consumer)) target)
  if endsWithJs path then [path] else [path ++ ".js".toList, join path "index.js".toList]

end Esmify.Path
