import Esmify.Text.Basic

/-!
# Requirements

**A requirement** describes one `require` call of a source text as what is to be imported: the
module, the bindings taken from it, and the piece of source that says so.
-/

namespace Esmify

/-- The key that stands for a module as a whole. -/
def wholeModule : Text := ['*']

/-- One thing taken from a module, and the local name it gets when that differs. -/
structure Binding where
  key : Text
  localName : Option Text := none
  deriving DecidableEq, Repr

/-- What one `require` call asks for. -/
structure Requirement where
  /-- The module asked for. -/
  target : Text
  /-- The source of the statement. -/
  raw : Text
  /-- The quote around the module, as it is written. -/
  quote : Text := ['\'']
  /-- What is taken from the module; nothing when it is only loaded. -/
  bindings : List Binding := []
  /-- Whether the module as a whole is its default export. -/
  hasDefault : Bool := false
  /-- Whether the statement is part of a declaration of several bindings. -/
  chained : Bool := false
  /-- The indentation of the bindings, when they stand on lines of their own. -/
  indent : Option Text := none
  /-- Where the statement was read. -/
  start : Option Nat := none
  deriving DecidableEq, Repr

namespace Requirement

/-- Whether the only thing taken is the module as a whole. -/
def isWholeModule (r : Requirement) : Bool :=
  match r.bindings with
  | [b] => b.key == wholeModule
  | _ => false

/-- Whether a module is named by a bare package: neither a path nor scoped. -/
def isPackage (target : Text) : Bool :=
  match target with
  | c :: _ => c != '.' && c != '/' && c != '@'
  | [] => true

/-- Whether a module is named by a path relative to the file. -/
def isRelative (target : Text) : Bool :=
  target.head? == some '.'

end Requirement

end Esmify
