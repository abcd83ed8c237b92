import Esmify.Config
import Esmify.Number.Integer

/-!
# Command lines

How a list of arguments is taken apart. A grammar has options, in the order in which they are
offered, and one place for a word that is not an option. **Long options may be shortened** as long
as only one fits, and take a value after an equals sign or as the next argument; short ones may be
written together. After a double dash everything is a word. A double dash that is given as the value
of an option is taken away, and a list without items remains.

`Grammar.read` gives what was asked for and the arguments that found no place. -/

namespace Esmify.Command

open Text

/-! ## Grammars -/

/-- What the values of an option can be. -/
inductive ValueKind
  | text
  | quote
  | integer
  deriving DecidableEq, Repr

/-- The things that options set. -/
inductive Setting
  | ignore
  | extensions
  | yes
  | dryRun
  | jobs
  | quote
  | noLastComma
  | keepExtension
  | experimental
  | root
  deriving DecidableEq, Repr

/-- What an option does. -/
inductive Effect
  /-- Asks for help. -/
  | help
  /-- Asks for the version. -/
  | version
  /-- Switches a setting on. -/
  | switch (setting : Setting)
  /-- Gives a setting a value. -/
  | value (setting : Setting) (kind : ValueKind)
  deriving DecidableEq, Repr

/-- An option: the ways to spell it, and what it does. -/
structure Flag where
  names : List Text
  effect : Effect
  deriving DecidableEq, Repr

/-- Whether an option takes a value. -/
def Flag.takesValue (f : Flag) : Bool :=
  match f.effect with
  | .value _ _ => true
  | _ => false

/-- An option as messages name it. -/
def Flag.display (f : Flag) : Text :=
  ['/'].intercalate f.names

/-- The options of a command, and the word that it takes. -/
structure Grammar where
  program : Text
  flags : List Flag
  /-- What the word is called in messages. -/
  word : Text
  isRequired : Bool
  deriving Repr

/-- All spellings of the options of a grammar. -/
def Grammar.spellings (g : Grammar) : List (Text × Flag) :=
  g.flags.flatMap fun f => f.names.map fun n => (n, f)

/-- The option with the given spelling. -/
def Grammar.flag? (g : Grammar) (spelled : Text) : Option Flag :=
  g.spellings.lookup spelled

/-! ## Errors -/

/-- What is wrong with a list of arguments. -/
inductive UsageError
  /-- A shortened option fits several. -/
  | ambiguous (given : Text) (options : List Text)
  /-- An option that takes no value was given one. -/
  | needlessValue (option value : Text)
  /-- An option is not followed by its value. -/
  | missingValue (option : Text)
  /-- A value is not one of those offered. -/
  | badChoice (argument value : Text) (choices : List Text)
  /-- A value is not an integer. -/
  | badInteger (option value : Text)
  /-- A word is missing. -/
  | missingWord (word : Text)
  /-- Arguments are left over. -/
  | leftOver (arguments : List Text)
  deriving DecidableEq, Repr

/-- The wording of a usage error. -/
def UsageError.message : UsageError → Text
  | .ambiguous given options =>
    "ambiguous option: ".toList ++ given ++ " could match ".toList
      ++ ", ".toList.intercalate options
  | .needlessValue option value =>
    "argument ".toList ++ option ++ ": ignored explicit argument ".toList ++ value.quoted
  | .missingValue option => "argument ".toList ++ option ++ ": expected one argument".toList
  | .badChoice argument value choices =>
    "argument ".toList ++ argument ++ ": invalid choice: ".toList ++ value.quoted
      ++ " (choose from ".toList ++ ", ".toList.intercalate (choices.map quoted) ++ [')']
  | .badInteger option value =>
    "argument ".toList ++ option ++ ": invalid int value: ".toList ++ value.quoted
  | .missingWord word => "the following arguments are required: ".toList ++ word
  | .leftOver arguments =>
    "unrecognized arguments: ".toList ++ [' '].intercalate arguments

/-- Why reading arguments ends without a command. -/
inductive Stop
  | help (program : Text)
  | version
  | usage (program : Text) (error : UsageError)
  deriving DecidableEq, Repr

/-! ## Arguments by themselves -/

/-- What one argument is. -/
inductive Token
  /-- A word. -/
  | word (text : Text)
  /-- The double dash that ends the options. -/
  | divider
  /-- An option, how it was spelled in full, and what is attached to it: the text after an equals
  sign, or right behind a short option. -/
  | flag (flag : Flag) (spelled : Text) (attached : Option Text)
  /-- Something that looks like an option and is none. -/
  | unknown (text : Text)
  deriving Repr

/-- Whether a text is a minus sign and a decimal number. -/
def looksNegative (t : Text) : Bool :=
  match t with
  | '-' :: cs =>
    let isDigit := fun c => (Number.digit? c).isSome
    let fraction (t : Text) : Bool :=
      match t.dropWhile isDigit with
      | [] => !t.isEmpty
      | ['\n'] => t.head? != some '\n'
      | _ => false
    fraction cs ||
      match cs.dropWhile isDigit with
      | '.' :: rest => fraction rest
      | _ => false
  | _ => false

/-- The options that a shortened or combined spelling can stand for. -/
def Grammar.expansions (g : Grammar) (arg : Text) : List (Flag × Text × Option Text) :=
  match arg with
  | '-' :: '-' :: _ =>
    let (front, value) := partition '=' arg
    (g.spellings.filter fun s => front.isPrefixOf s.1).map fun s => (s.2, s.1, value)
  | _ =>
    g.spellings.filterMap fun s =>
      if s.1 = arg.take 2 then some (s.2, s.1, some (arg.drop 2))
      else if arg.isPrefixOf s.1 then some (s.2, s.1, none)
      else none

/-- What an argument that begins with a dash, is longer than that and no option in full stands
for. -/
def Grammar.dashed (g : Grammar) (arg : Text) : Except UsageError Token :=
  match g.expansions arg with
  | [(flag, spelled, attached)] => .ok (.flag flag spelled attached)
  | [] =>
    if looksNegative arg || arg.contains ' ' then .ok (.word arg) else .ok (.unknown arg)
  | several => .error (.ambiguous arg (several.map fun e => e.2.1))

/-- What an argument before the double dash is. -/
def Grammar.token (g : Grammar) (arg : Text) : Except UsageError Token :=
  if arg.head? != some '-' then .ok (.word arg)
  else
    match g.flag? arg with
    | some flag => .ok (.flag flag arg none)
    | none =>
      if arg.length = 1 then .ok (.word arg)
      else
        match partition '=' arg with
        | (front, some value) =>
          match g.flag? front with
          | some flag => .ok (.flag flag front (some value))
          | none => g.dashed arg
        | _ => g.dashed arg

/-- What the arguments are; after a double dash all are words. -/
def Grammar.tokens (g : Grammar) : List Text → Except UsageError (List Token)
  | [] => .ok []
  | arg :: args =>
    if arg = ['-', '-'] then .ok (.divider :: args.map Token.word)
    else
      match g.token arg with
      | .error e => .error e
      | .ok t =>
        match g.tokens args with
        | .error e => .error e
        | .ok ts => .ok (t :: ts)

/-! ## Arguments together -/

/-- What has been read from arguments. -/
structure Reading where
  /-- The settings given, the last one first. -/
  given : List (Setting × Datum) := []
  /-- The word, once its place is taken; `none` inside when there was only a double dash. -/
  word : Option (Option Text) := none
  /-- The arguments that found no place, in order. -/
  leftOver : List Text := []
  deriving Repr

/-- The text of an argument. -/
def Token.text : Token → Text
  | .word t => t
  | .divider => ['-', '-']
  | .flag _ spelled _ => spelled
  | .unknown t => t

/-- The quotes that can be asked for, as texts. -/
def quoteChoices : List Text :=
  [[Quote.double.char], [Quote.single.char]]

/-- The value of an option; a double dash is none. -/
def readValue (f : Flag) (kind : ValueKind) (value : Text) : Except UsageError Datum :=
  if value = ['-', '-'] then .ok (.list [])
  else
    match kind with
    | .text => .ok (.text value)
    | .quote =>
      if quoteChoices.contains value then .ok (.text value)
      else .error (.badChoice f.display value quoteChoices)
    | .integer =>
      match Number.integer? value with
      | some n => .ok (.number n)
      | none => .error (.badInteger f.display value)

/-- Lets an option have its effect. -/
def apply (g : Grammar) (r : Reading) (f : Flag) (value : Text) : Except Stop Reading :=
  match f.effect with
  | .help => .error (.help g.program)
  | .version => .error .version
  | .switch s => .ok { r with given := (s, .truth true) :: r.given }
  | .value s kind =>
    match readValue f kind value with
    | .error e => .error (.usage g.program e)
    | .ok d => .ok { r with given := (s, d) :: r.given }

/-- Lets several options without values have their effects. -/
def applyFlags (g : Grammar) : Reading → List Flag → Except Stop Reading
  | r, [] => .ok r
  | r, f :: fs =>
    match apply g r f [] with
    | .ok r => applyFlags g r fs
    | .error s => .error s

/-- Lets several options without values have their effects, and then one with its value. -/
def applyAll (g : Grammar) (r : Reading) (front : List Flag) (last : Flag) (value : Text) :
    Except Stop Reading :=
  match applyFlags g r front with
  | .ok r => apply g r last value
  | .error s => .error s

/-- One argument with options taken apart: options without values, and one more with the value
attached to it, if there is one. -/
structure Cluster where
  front : List Flag := []
  last : Flag
  value : Option Text := none
  deriving Repr

/-- Takes apart what is attached to an option: its value, or else further short options, each of
which has to be one. -/
def cluster (g : Grammar) : (f : Flag) → (isShort : Bool) → (attached : Text) →
    Except UsageError Cluster
  | f, _, [] =>
    if f.takesValue then .ok { last := f, value := some [] }
    else .error (.needlessValue f.display [])
  | f, isShort, c :: cs =>
    if f.takesValue then .ok { last := f, value := some (c :: cs) }
    else
      match isShort, g.flag? ['-', c] with
      | true, some next =>
        match if cs.isEmpty then .ok { last := next } else cluster g next true cs with
        | .ok k => .ok { k with front := f :: k.front }
        | .error e => .error e
      | _, _ => .error (.needlessValue f.display (c :: cs))

/-- Whether an option is spelled with a single dash. -/
def isShort (spelled : Text) : Bool :=
  (spelled.drop 1).head? != some '-'

/-- The place of the word among tokens: a double dash before or after it goes with it. Gives the
word and how many tokens were taken; `none` when a word is needed and there is none. -/
def placeWord (isRequired : Bool) (ts : List Token) : Option (Option Text × Nat) :=
  let front := match ts with
    | .divider :: _ => 1
    | _ => 0
  match ts.drop front with
  | .word t :: rest =>
    let back := match rest with
      | .divider :: _ => 1
      | _ => 0
    some (some t, front + 1 + back)
  | _ => if isRequired then none else some (none, front)

/-- The value of an option, which may be the next argument, and how many arguments that takes. -/
def nextValue (f : Flag) (value : Option Text) (ts : List Token) : Except UsageError (Text × Nat) :=
  match f.takesValue, value, ts with
  | false, _, _ => .ok ([], 0)
  | true, some v, _ => .ok (v, 0)
  | true, none, .word v :: _ => .ok (v, 1)
  | true, none, _ => .error (.missingValue f.display)

/-- Reads tokens one after the other; the first `skip` of them have been read already. -/
def readTokens (g : Grammar) : (skip : Nat) → Reading → List Token → Except Stop Reading
  | _, r, [] => .ok r
  | skip + 1, r, _ :: ts => readTokens g skip r ts
  | 0, r, t :: ts =>
    match t with
    | .unknown text => readTokens g 0 { r with leftOver := r.leftOver ++ [text] } ts
    | .flag f spelled attached =>
      let taken : Except UsageError Cluster :=
        match attached with
        | some text => cluster g f (isShort spelled) text
        | none => .ok { last := f }
      match taken with
      | .error e => .error (.usage g.program e)
      | .ok k =>
        match nextValue k.last k.value ts with
        | .error e => .error (.usage g.program e)
        | .ok (value, count) =>
          match applyAll g r k.front k.last value with
          | .error s => .error s
          | .ok r => readTokens g count r ts
    | t =>
      match r.word, placeWord g.isRequired (t :: ts) with
      | none, some (word, count) => readTokens g (count - 1) { r with word := some word } ts
      | _, _ => readTokens g 0 { r with leftOver := r.leftOver ++ [t.text] } ts

/-- Reads the arguments of a command. -/
def Grammar.read (g : Grammar) (args : List Text) : Except Stop Reading :=
  match g.tokens args with
  | .error e => .error (.usage g.program e)
  | .ok ts =>
    match readTokens g 0 {} ts with
    | .error s => .error s
    | .ok r =>
      if g.isRequired && r.word.isNone then .error (.usage g.program (.missingWord g.word))
      else .ok r

namespace Reading

/-- The value that a setting was given last. -/
def value? (r : Reading) (s : Setting) : Option Datum :=
  r.given.lookup s

/-- Whether a setting was given. -/
def has (r : Reading) (s : Setting) : Bool :=
  (r.value? s).isSome

/-- The word that was given. -/
def given? (r : Reading) : Option Text :=
  r.word.join

end Reading

end Esmify.Command
