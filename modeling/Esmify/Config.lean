import Esmify.Datum

/-!
# Configuration

How the converted text is to be written. A quote given by the user is checked once, when the
configuration is made.
-/

namespace Esmify

/-- The quotes that can be asked for. -/
inductive Quote
  | double
  | single
  deriving DecidableEq, Repr

/-- The character of a quote. -/
def Quote.char : Quote → Char
  | .double => '"'
  | .single => '\''

/-- The quote that a text spells. -/
def Quote.ofText? (t : Text) : Option Quote :=
  if t = ['"'] then some .double else if t = ['\''] then some .single else none

/-- How the converted text is written. -/
structure Config where
  /-- The quote around every module; without one each statement keeps its own. -/
  quote : Option Quote := none
  /-- Whether the last of several lines of bindings ends with a comma. -/
  lastComma : Bool := true
  /-- Whether relative modules lose the extension `.js`. -/
  stripExtension : Bool := true
  /-- Whether object literals with functions, calls and nested blocks are read. -/
  experimental : Bool := false
  deriving DecidableEq, Repr

/-- Why a configuration was refused. -/
inductive ConfigError
  /-- What was given as a quote, as it is shown, is none. -/
  | badQuote (shown : Text)
  deriving DecidableEq, Repr

/-- The wording of a refused configuration. -/
def ConfigError.message : ConfigError → Text
  | .badQuote shown =>
    "quote must be one of ('\"', \"'\") or None, got ".toList ++ shown

/-- The quote that the user gives, if there is one. -/
def Quote.ofDatum : Datum → Except ConfigError (Option Quote)
  | .nothing => .ok none
  | .text t =>
    match Quote.ofText? t with
    | some q => .ok (some q)
    | none => .error (.badQuote t.quoted)
  | given => .error (.badQuote given.shown)

/-- The configuration with a quote given by the user. -/
def Config.withQuote (c : Config) (given : Datum) : Except ConfigError Config :=
  match Quote.ofDatum given with
  | .ok quote => .ok { c with quote }
  | .error e => .error e

end Esmify
