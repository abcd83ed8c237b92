import Esmify.Command.Grammar
import Esmify.File.Scan

/-!
# Commands

The commands that a user can give: listing the files that would be converted, converting them, and
showing what one file would become. `Command.parse` reads them from arguments.
-/

namespace Esmify.Command

open Text

/-- The name under which the program speaks. -/
def programName : Text :=
  "cjs2esm".toList

/-- The version of the program. -/
def programVersion : Text :=
  "0.4.0".toList

/-- Which files are meant. -/
structure Selection where
  root : Text
  ignore : Text
  extensions : List Text
  deriving DecidableEq, Repr

/-- Why files cannot be selected. -/
inductive SelectionFault
  /-- The extensions are a list and not a text that could be split. -/
  | unsplitExtensions
  deriving DecidableEq, Repr

/-- The wording of a fault. -/
def SelectionFault.message : SelectionFault → Text
  | .unsplitExtensions => "'list' object has no attribute 'split'".toList

/-- A command with its options. What the options select and configure is settled when the command
runs, so a fault in them is a part of it. -/
inductive Invocation
  /-- Lists the files that would be converted. -/
  | list (files : Except SelectionFault Selection)
  /-- Converts files in place. -/
  | convert (files : Except SelectionFault Selection) (config : Except ConfigError Config)
      (yes dryRun : Bool) (readers : Option Int)
  /-- Shows the converted text of one file; the files below `root` tell which modules are default
  exports. -/
  | preview (file : Text) (root : Option Text) (ignore : Text) (config : Except ConfigError Config)
  deriving Repr

/-! ## Grammars -/

/-- The option that asks for help. -/
def helpFlag : Flag :=
  ⟨["-h".toList, "--help".toList], .help⟩

/-- The option that names folders to ignore. -/
def ignoreFlag : Flag :=
  ⟨["--ignore".toList], .value .ignore .text⟩

/-- The option that names extensions. -/
def extensionsFlag : Flag :=
  ⟨["--ext".toList], .value .extensions .text⟩

/-- The options on how converted text is written. -/
def writingFlags : List Flag :=
  [⟨["--quote".toList], .value .quote .quote⟩,
    ⟨["--no-last-comma".toList], .switch .noLastComma⟩,
    ⟨["--keep-js-ext".toList], .switch .keepExtension⟩,
    ⟨["--experimental".toList], .switch .experimental⟩,
    ignoreFlag]

/-- The program's name with the name of a command. -/
def programOf (command : String) : Text :=
  programName ++ ' ' :: command.toList

/-- The arguments of the command that lists files. -/
def listGrammar : Grammar :=
  ⟨programOf "scan", [helpFlag, ignoreFlag, extensionsFlag], "root".toList, false⟩

/-- The arguments of the command that converts files. -/
def convertGrammar : Grammar :=
  ⟨programOf "convert",
    [helpFlag, extensionsFlag, ⟨["-y".toList, "--yes".toList], .switch .yes⟩,
      ⟨["--dry-run".toList], .switch .dryRun⟩, ⟨["--jobs".toList], .value .jobs .integer⟩]
      ++ writingFlags,
    "root".toList, false⟩

/-- The arguments of the command that shows a file. -/
def previewGrammar : Grammar :=
  ⟨programOf "show", [helpFlag, ⟨["--root".toList], .value .root .text⟩] ++ writingFlags,
    "file".toList, true⟩

/-- The arguments before the name of a command. -/
def topGrammar : Grammar :=
  ⟨programName, [helpFlag, ⟨["--version".toList], .version⟩], "cmd".toList, true⟩

/-! ## Invocations -/

/-- The extensions in a list separated by commas. -/
def extensionsOf (t : Text) : List Text :=
  ((t.splitOn ',').map trim).filter fun e => !e.isEmpty

/-- The folders to ignore; none when there is no text that names them. -/
def ignoreOf (r : Reading) : Text :=
  match r.value? .ignore with
  | none => Path.defaultIgnore
  | some (.text t) => t
  | some _ => []

/-- The files that arguments select. -/
def selection (r : Reading) : Except SelectionFault Selection :=
  match (r.value? .extensions).getD (.text ".js".toList) with
  | .text t => .ok ⟨r.given?.getD ['.'], ignoreOf r, extensionsOf t⟩
  | _ => .error .unsplitExtensions

/-- The configuration that arguments ask for. -/
def configOf (r : Reading) : Except ConfigError Config :=
  let config : Config :=
    { lastComma := !r.has .noLastComma
      stripExtension := !r.has .keepExtension
      experimental := r.has .experimental }
  config.withQuote ((r.value? .quote).getD .nothing)

/-- How many readers arguments ask for. -/
def readersOf (r : Reading) : Option Int :=
  match r.value? .jobs with
  | some (.number n) => some n
  | _ => none

/-- The folder that arguments name as the root. -/
def rootOf (r : Reading) : Option Text :=
  match r.value? .root with
  | some (.text t) => some t
  | _ => none

/-- The names of the commands, with their grammars and what they make of their arguments. -/
def commands : List (Text × Grammar × (Reading → Invocation)) :=
  [("scan".toList, listGrammar, fun r => .list (selection r)),
    ("convert".toList, convertGrammar, fun r =>
      .convert (selection r) (configOf r) (r.has .yes) (r.has .dryRun) (readersOf r)),
    ("show".toList, previewGrammar, fun r =>
      .preview (r.given?.getD []) (rootOf r) (ignoreOf r) (configOf r))]

/-- Reads the arguments of a named command; `leftOver` are arguments before its name that found no
place. -/
def parseCommand (leftOver : List Text) (name : Text) (args : List Text) :
    Except Stop Invocation :=
  match commands.lookup name with
  | none =>
    .error (.usage programName (.badChoice "cmd".toList name (commands.map Prod.fst)))
  | some (grammar, make) =>
    match grammar.read args with
    | .error s => .error s
    | .ok r =>
      match leftOver ++ r.leftOver with
      | [] => .ok (make r)
      | rest => .error (.usage programName (.leftOver rest))

/-- Reads tokens up to the name of a command, `args` being the same arguments as texts. -/
def parseTokens : (leftOver : List Text) → List Token → (args : List Text) →
    Except Stop Invocation
  | leftOver, .word _ :: _, name :: args => parseCommand leftOver name args
  | leftOver, .divider :: .word _ :: _, divider :: args => parseCommand leftOver divider args
  | leftOver, .unknown text :: ts, _ :: args => parseTokens (leftOver ++ [text]) ts args
  | leftOver, .flag f spelled value :: ts, _ :: args =>
    match readTokens topGrammar 0 {} [.flag f spelled value] with
    | .error s => .error s
    | .ok _ => parseTokens leftOver ts args
  | _, _, _ => .error (.usage programName (.missingWord "cmd".toList))

/-- Reads a command from arguments. -/
def Invocation.parse (args : List Text) : Except Stop Invocation :=
  match topGrammar.tokens args with
  | .error e => .error (.usage programName e)
  | .ok ts => parseTokens [] ts args

end Esmify.Command
