import Esmify.Batch
import Esmify.Command.Basic

/-!
# What a command does

**A command is a dialogue with the machine it runs on**: it tells events, and asks for the entries
of a folder, for the texts of files or for an answer of the user. What it does next depends on the
answers alone, so the same command runs on real files and on a `World` that is a value. -/

namespace Esmify.Command

open Text

/-- What remains to be done by a command. -/
inductive Dialogue
  /-- Ends with an exit code. -/
  | stop (code : Nat)
  /-- Tells events and goes on. -/
  | tell (events : List Event) (next : Dialogue)
  /-- Asks for the entries of a folder, if there is one. -/
  | folder (path : Text) (next : Option File.Listing → Dialogue)
  /-- Asks for the texts of files. -/
  | load (readers : Option Int) (paths : List Text)
      (next : Except File.FileFault (List (Text × Text)) → Dialogue)
  /-- Asks for the text of one file. -/
  | read (path : Text) (next : Except File.FileFault Text → Dialogue)
  /-- Asks the user for a line, if there is one. -/
  | ask (next : Option Text → Dialogue)

/-- Ends with a trouble. -/
def failWith (message : Text) : Dialogue :=
  .tell [.trouble ("Error: ".toList ++ message)] (.stop 1)

/-- Asks for the entries of a folder, unless the path can be none. -/
def enter (path : Text) (next : Option File.Listing → Dialogue) : Dialogue :=
  if File.Disk.hasNull path then failWith File.FileFault.nullCharacter.message
  else .folder path next

/-- The wanted files of a folder that may be missing. -/
def selected (files : Selection) : Option File.Listing → List Text
  | some inside => File.scan (Path.ignorePatterns files.ignore) files.extensions files.root inside
  | none => []

/-- The line that says that there are no files. -/
def noFiles (root : Text) : Event :=
  .line ("No JS files in ".toList ++ root)

/-- Lists the files that would be converted. -/
def listFiles : Except SelectionFault Selection → Dialogue
  | .error e => failWith e.message
  | .ok files =>
    enter files.root fun inside =>
      match selected files inside with
      | [] => .tell [noFiles files.root] (.stop 0)
      | paths => .tell (paths.map .line) (.stop 0)

/-! ## Converting -/

/-- What the user is told before files are changed. -/
def notice : Text :=
  ("The files listed above will be rewritten:\n" ++
    "  - require() => import\n" ++
    "  - module.exports => export\n" ++
    "Make sure the project is versioned to review the diff and revert.\n" ++
    "Continue? [y/N] ").toList

/-- What the user is told after files were changed. -/
def reminder : Text :=
  ("\n----------------------\n" ++
    "Beware:\n" ++
    "  - review all changes before committing them\n" ++
    "  - check the warnings above, every skipped construct is left as it was\n" ++
    "\n" ++
    "To use imports with Node.js:\n" ++
    "  - add \"type\": \"module\" to your package.json\n" ++
    "  - relative imports without extension need --es-module-specifier-resolution=node\n").toList

/-- The line that sums up a run. -/
def summary (dryRun : Bool) (b : Batch) : Event :=
  .line ((if dryRun then "Would update ".toList else "Updated ".toList)
    ++ Text.decimal b.changed.length ++ '/' :: Text.decimal b.total
    ++ " files  failed=".toList ++ Text.decimal b.failed.length)

/-- What is told at the end of a run. -/
def closing (dryRun : Bool) (b : Batch) : List Event :=
  summary dryRun b ::
    if dryRun then b.changed.map fun path => .line ("  ".toList ++ path) else [.line reminder]

/-- Converts files and sums up; relative paths are read in the folder `here`. -/
def convertAll (here : Text) (config : Except ConfigError Config) (dryRun : Bool)
    (readers : Option Int) (paths : List Text) : Dialogue :=
  match config with
  | .error e => failWith e.message
  | .ok config =>
    .load readers paths fun loaded =>
      match loaded with
      | .error e => failWith e.message
      | .ok files =>
        let batch := Batch.ofContents here config dryRun false files
        .tell (batch.events ++ closing dryRun batch) (.stop 0)

/-- Whether an answer of the user is yes. -/
def isYes (answer : Option Text) : Bool :=
  match answer with
  | some t =>
    let t := (trim t).map Char.toLower
    t == "y".toList || t == "yes".toList
  | none => false

/-- Converts files in place, after asking unless that is not needed. -/
def convertFiles (here : Text) (files : Except SelectionFault Selection)
    (config : Except ConfigError Config) (yes dryRun : Bool) (readers : Option Int) : Dialogue :=
  match files with
  | .error e => failWith e.message
  | .ok files =>
    enter files.root fun inside =>
      match selected files inside with
      | [] => .tell [noFiles files.root] (.stop 0)
      | paths =>
        let run := convertAll here config dryRun readers paths
        let intro := paths.map Event.line ++ [.line "----------------------".toList]
        if yes || dryRun then .tell intro run
        else
          .tell (intro ++ [.print notice]) <| .ask fun answer =>
            if isYes answer then run else .tell [.line "Aborted.".toList] (.stop 0)

/-! ## Showing -/

/-- Shows the converted text of one file. -/
def previewWith (here file : Text) (root : Option Text) (ignore : Text) (config : Config) :
    Dialogue :=
  let root := match root with
    | some (c :: cs) => c :: cs
    | _ => Path.folderOf (Path.absolute here file)
  enter root fun inside =>
    .load none (selected ⟨root, ignore, File.defaultExtensions⟩ inside) fun loaded =>
      match loaded with
      | .error e => failWith e.message
      | .ok siblings =>
        .read file fun content =>
          match content with
          | .error e => failWith e.message
          | .ok text =>
            let index := DefaultIndex.ofContents here config.experimental siblings
            let run := (convert text (some file) config (some index)).run
            .tell (run.warnings.map Event.warning) <|
              match run.value with
              | .error e => failWith e.message
              | .ok converted => .tell [.print converted] (.stop 0)

/-- Shows the converted text of one file, if the configuration is one. -/
def previewFile (here file : Text) (root : Option Text) (ignore : Text) :
    Except ConfigError Config → Dialogue
  | .error e => failWith e.message
  | .ok config => previewWith here file root ignore config

/-! ## All commands -/

/-- What a command does; relative paths are read in the folder `here`. -/
def Invocation.dialogue (here : Text) : Invocation → Dialogue
  | .list files => listFiles files
  | .convert files config yes dryRun readers =>
    convertFiles here files config yes dryRun readers
  | .preview file root ignore config => previewFile here file root ignore config

/-- What is done when arguments give no command. -/
def Stop.dialogue : Stop → Dialogue
  | .help program => .tell [.line ("usage: ".toList ++ program)] (.stop 0)
  | .version => .tell [.line (programName ++ ' ' :: programVersion)] (.stop 0)
  | .usage program error =>
    .tell [.trouble (program ++ ": error: ".toList ++ error.message)] (.stop 2)

/-- What the program does with its arguments. -/
def dialogue (here : Text) (args : List Text) : Dialogue :=
  match Invocation.parse args with
  | .ok i => i.dialogue here
  | .error s => s.dialogue

/-- Runs a dialogue in a world whose user gives `answer` to every question: the exit code, and the
world after it. -/
def run (answer : Option Text) : Dialogue → World → Nat × World
  | .stop code, w => (code, w)
  | .tell events next, w => run answer next (w.performAll events)
  | .folder path next, w => run answer (next (w.disk.folder? path)) w
  | .load readers paths next, w => run answer (next (w.disk.load readers paths)) w
  | .read path next, w => run answer (next (w.disk.readText path)) w
  | .ask next, w => run answer (next answer) w

end Esmify.Command
