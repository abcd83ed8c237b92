import Esmify.Command.Dialogue

/-!
# The program

Runs a command on the files of the machine.
-/

namespace Esmify.Main

open Command File

/-- The names below a folder, without contents; links to folders are not followed. -/
partial def listing (folder : String) : IO Listing := do
  let here ← IO.currentDir
  let entries ← (here / folder).readDir
  entries.foldrM (fun entry rest => do
    let name := entry.fileName.toList
    let kind ← entry.path.symlinkMetadata
    if kind.type == .dir then
      pure (.folder name (← listing entry.path.toString) rest)
    else if kind.type == .symlink && (← entry.path.isDir) then pure rest
    else pure (.file name [] rest)) .done

/-- The entries of a folder, if there is one. -/
def folder? (path : Text) : IO (Option Listing) :=
  if path.isEmpty then pure none
  else
    try
      pure (some (← listing (String.ofList path)))
    catch _ => pure none

/-- The text of the file at a path. -/
def readText (path : Text) : IO (Except FileFault Text) := do
  let here ← IO.currentDir
  let file := here / String.ofList path
  if path.isEmpty then pure (.error (.missing path))
  else if ← file.isDir then pure (.error (.isFolder path))
  else
    match ← (IO.FS.readBinFile file).toBaseIO with
    | .error (.inappropriateType ..) => pure (.error (.throughFile path))
    | .error (.invalidArgument ..) => pure (.error (.tooLong path))
    | .error _ => pure (.error (.missing path))
    | .ok bytes =>
      match decode bytes.toList with
      | .ok t => pure (.ok (normalizeBreaks t))
      | .error f => pure (.error (.undecodable f))

/-- The texts of files, each path once. -/
def load (readers : Option Int) (paths : List Text) :
    IO (Except FileFault (List (Text × Text))) := do
  if paths.isEmpty then return .ok []
  if !canRead readers then return .error .noReaders
  let mut texts := #[]
  for path in paths.eraseDups do
    match ← readText path with
    | .ok t => texts := texts.push (path, t)
    | .error e => return .error e
  return .ok texts.toList

/-- Performs one event. -/
def perform : Event → IO Unit
  | .print text => do
    let out ← IO.getStdout
    out.putStr (String.ofList text)
    out.flush
  | .complain text => do (← IO.getStderr).putStr (String.ofList text)
  | .write path text => IO.FS.writeFile (String.ofList path) (String.ofList text)

/-- The line that the user types, if there is one. -/
def ask : IO (Option Text) := do
  let line ← (← IO.getStdin).getLine
  pure (if line.isEmpty then none else some line.toList)

/-- Runs a dialogue on the machine. -/
def run : Dialogue → IO Nat
  | .stop code => pure code
  | .tell events next => do
    events.forM perform
    run next
  | .folder path next => do run (next (← folder? path))
  | .load readers paths next => do run (next (← load readers paths))
  | .read path next => do run (next (← readText path))
  | .ask next => do run (next (← ask))

end Esmify.Main

/-- Runs the command that the arguments give. -/
def main (args : List String) : IO UInt32 := do
  let here ← IO.currentDir
  let code ← Esmify.Main.run
    (Esmify.Command.dialogue here.toString.toList (args.map String.toList))
  pure code.toUInt32
