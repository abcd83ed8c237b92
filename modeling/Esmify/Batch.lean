import Esmify.Convert
import Esmify.File.Scan
import Esmify.Progress

/-!
# Converting many files

All files are read before any is written, so the index of default exports sees the texts as they
were. The files are then taken up one after the other (`Batch.turn`), and an account is kept of how
many were taken up, which of them changed and which failed. **A file that cannot be converted is
reported and left as it is**; the others are not affected by it. What a run does to the outside is a
list of events.
-/

namespace Esmify

/-- One thing that a run does to the outside. -/
inductive Event
  /-- Prints a text. -/
  | print (text : Text)
  /-- Prints a text where troubles are told. -/
  | complain (text : Text)
  /-- Replaces the content of a file. -/
  | write (path text : Text)
  deriving DecidableEq, Repr

/-- A line that is printed. -/
def Event.line (text : Text) : Event :=
  .print (text ++ ['\n'])

/-- A line that tells of a trouble. -/
def Event.trouble (text : Text) : Event :=
  .complain (text ++ ['\n'])

/-- The line that tells of a warning. -/
def Event.warning (w : Warning) : Event :=
  .trouble ("Warning: ".toList ++ w.message)

/-- The progress line of the file number `current` of `total`. -/
def Event.progress (current total : Nat) (path : Text) : Event :=
  match progressLine current total path with
  | .ok line => .line line
  | .error e => .line e.message

/-- The account that is kept of a run over many files. -/
structure Batch where
  /-- The number of files. -/
  total : Nat
  /-- The number of the file that was taken up last. -/
  current : Nat := 0
  /-- The paths of the files whose text changes. -/
  changed : List Text := []
  /-- The paths of the files that could not be converted. -/
  failed : List Text := []
  /-- The warnings of all files, in order. -/
  warnings : List Warning := []
  /-- Everything that the run does to the outside. -/
  events : List Event := []
  deriving Repr

namespace Batch

/-- Counts the next file, and tells that it is taken up. -/
def takeUp (b : Batch) (path : Text) : Batch :=
  { b with
    current := b.current + 1
    events := b.events ++ [.progress (b.current + 1) b.total path] }

/-- Notes the warnings of a file, and tells them unless the run is `silent`. -/
def hear (b : Batch) (silent : Bool) (warnings : List Warning) : Batch :=
  { b with
    warnings := b.warnings ++ warnings
    events := b.events ++ if silent then [] else warnings.map Event.warning }

/-- Notes that a file has another text now, and writes it unless the run is dry. -/
def change (b : Batch) (dryRun : Bool) (path text : Text) : Batch :=
  { b with
    changed := b.changed ++ [path]
    events := b.events ++ if dryRun then [] else [.write path text] }

/-- Notes and tells that a file could not be converted. -/
def skip (b : Batch) (path : Text) (fault : Fault) : Batch :=
  { b with
    failed := b.failed ++ [path]
    events := b.events
      ++ [.trouble ("Warning: skipped ".toList ++ path ++ ": ".toList ++ fault.message)] }

/-- Takes up one file, given with its text. -/
def turn (config : Config) (index : DefaultIndex) (dryRun silent : Bool) (b : Batch)
    (file : Text × Text) : Batch :=
  let run := (convert file.2 (some file.1) config (some index)).run
  let b := (b.takeUp file.1).hear silent run.warnings
  match run.value with
  | .error e => b.skip file.1 e
  | .ok t => if t = file.2 then b else b.change dryRun file.1 t

/-- Takes up files one after the other, with a given index of default exports. -/
def turns (config : Config) (index : DefaultIndex) (dryRun silent : Bool)
    (files : List (Text × Text)) : Batch :=
  files.foldl (turn config index dryRun silent) { total := files.length }

/-- Converts files given with their texts; relative paths are read in the folder `here`. -/
def ofContents (here : Text) (config : Config) (dryRun silent : Bool)
    (files : List (Text × Text)) : Batch :=
  turns config (DefaultIndex.ofContents here config.experimental files) dryRun silent files

end Batch

/-! ## Events on a disk -/

/-- What a run has printed so far, and the files as they are now. -/
structure World where
  disk : File.Disk
  out : Text := []
  err : Text := []
  deriving Repr

namespace World

/-- The world after one event. -/
def perform (w : World) : Event → World
  | .print text => { w with out := w.out ++ text }
  | .complain text => { w with err := w.err ++ text }
  | .write path text => { w with disk := w.disk.writeText path text }

/-- The world after several events. -/
def performAll (w : World) (events : List Event) : World :=
  events.foldl perform w

/-- Converts files in place: the outcome, and the world after it. -/
def update (w : World) (config : Config) (dryRun silent : Bool) (readers : Option Int)
    (paths : List Text) : Except File.FileFault (Batch × World) :=
  match w.disk.load readers paths with
  | .error e => .error e
  | .ok files =>
    let batch := Batch.ofContents w.disk.herePath config dryRun silent files
    .ok (batch, w.performAll batch.events)

end World

end Esmify
