import Esmify.Text.Basic

/-!
# Warnings

What a conversion has to tell its user. **A warning is a cause with its data**; `Warning.message`
words it and `Warning.reason?` classifies it. A `Rejection` is a construct that a reader declines to
convert. `Reported` pairs a value with the warnings raised while it was computed, in order.
-/

namespace Esmify

/-- The kinds of trouble that a warning can be about. -/
inductive Reason
  | requireUnparsed
  | requireDirectCall
  | requireFunctionCall
  | requireDeepPath
  | requireDestructuredPath
  | requireDeepDestructuring
  | requireGlobalVariable
  | requireUnsupportedBinding
  | requireNotAStatement
  | nestedImport
  | exportsInnerScope
  | exportsCalls
  | exportsTooComplex
  | exportsNoTabulation
  | exportsInvalidTabulation
  | exportsUnterminated
  | exportsInvalidMember
  | exportsRequire
  | rawExportNotFound
  | declarationNotFound
  | usedAndExported
  | usedBeforeDefinition
  | localKeySet
  | nestedExport
  deriving DecidableEq, Repr

/-- The wording of a reason. -/
def Reason.text (r : Reason) : Text :=
  String.toList <| match r with
  | .requireUnparsed => "require() has failed to parse, input"
  | .requireDirectCall => "require() has a direct call, you have to separate instructions"
  | .requireFunctionCall =>
    "require() has a direct function call, you have to separate instructions"
  | .requireDeepPath =>
    "require() has deep object destructuring on both sides, you have to use a new constant"
  | .requireDestructuredPath =>
    "require() has object destructuring on a destructured import, you have to use a new constant"
  | .requireDeepDestructuring =>
    "require() has deep object destructuring on left side, you have to use a new constant"
  | .requireGlobalVariable => "require() is called on some global variable"
  | .requireUnsupportedBinding => "require() is assigned to an unsupported binding"
  | .requireNotAStatement => "require() is not the start of a statement, it is left as it is"
  | .nestedImport => "an import was moved out of a nested scope, you should manually check"
  | .exportsInnerScope =>
    "module.exports with declarations inside is skipped (try \"experimental\" mode)"
  | .exportsCalls => "module.exports with calls inside is skipped (try \"experimental\" mode)"
  | .exportsTooComplex => "module.exports is too complex (try \"experimental\" mode)"
  | .exportsNoTabulation => "cannot detect tabulation of module.exports"
  | .exportsInvalidTabulation => "invalid tabulation in module.exports"
  | .exportsUnterminated => "unterminated block in module.exports"
  | .exportsInvalidMember => "unsupported member in module.exports"
  | .exportsRequire =>
    "module.exports is assigned a require() call, you have to re-export it manually"
  | .rawExportNotFound => "cannot find raw export"
  | .declarationNotFound => "cannot find and export declaration of property"
  | .usedAndExported => "a property is used and exported, you should manually check"
  | .usedBeforeDefinition => "an exported constant is used before its definition"
  | .localKeySet =>
    "keys of a local object cannot be re-exported one by one, the object itself is exported"
  | .nestedExport => "an inline export is declared in a nested scope, you should manually check"

/-- A construct that is declined, with the piece of source that shows it. -/
structure Rejection where
  reason : Reason
  snippet : Text
  deriving DecidableEq, Repr

/-- The reason, and on the lines below it the snippet if there is one. -/
def Rejection.message (r : Rejection) : Text :=
  if r.snippet.isEmpty then r.reason.text else r.reason.text ++ '\n' :: r.snippet

/-- What the user is told about. -/
inductive Warning
  /-- A reader declined a construct. -/
  | rejected (what : Rejection)
  /-- The statement of a requirement is not where it should be. -/
  | lostRequire (raw : Text)
  /-- An import was written in place of an indented statement. -/
  | nestedImport (raw : Text)
  /-- An export statement that was read is not in the text any more. -/
  | lostExport (raw : Text)
  /-- No declaration of an exported name was found. -/
  | undeclared (name : Text)
  /-- A re-exported name is also used in the file. -/
  | usedAndExported (name : Text)
  /-- An exported constant occurs above its definition. -/
  | usedBeforeDefinition (name : Text)
  /-- The keys of a local object were to be exported. -/
  | localKeySet (name : Text)
  /-- An inline export stands inside another scope. -/
  | nestedExport (statement : Text)
  deriving DecidableEq, Repr

/-- The reason that a warning is classified under. -/
def Warning.reason? : Warning → Option Reason
  | .rejected what => some what.reason
  | .lostRequire _ => none
  | .nestedImport _ => some .nestedImport
  | .lostExport _ => some .rawExportNotFound
  | .undeclared _ => some .declarationNotFound
  | .usedAndExported _ => some .usedAndExported
  | .usedBeforeDefinition _ => some .usedBeforeDefinition
  | .localKeySet _ => some .localKeySet
  | .nestedExport _ => some .nestedExport

/-- The wording of a warning. -/
def Warning.message : Warning → Text
  | .rejected what => what.message
  | .lostRequire raw => "cannot find require() statement\n".toList ++ raw
  | .nestedImport raw => Reason.nestedImport.text ++ '\n' :: raw
  | .lostExport raw => Reason.rawExportNotFound.text ++ '\n' :: raw
  | .undeclared name => Reason.declarationNotFound.text ++ " \"".toList ++ name ++ ['"']
  | .usedAndExported name => Reason.usedAndExported.text ++ '\n' :: name
  | .usedBeforeDefinition name =>
    Reason.usedBeforeDefinition.text ++ ": \"".toList ++ name ++ ['"']
  | .localKeySet name => Reason.localKeySet.text ++ '\n' :: name
  | .nestedExport statement => Reason.nestedExport.text ++ '\n' :: statement

/-! ## Values with warnings -/

/-- A value and the warnings raised on the way to it. -/
structure Reported (α : Type) where
  value : α
  warnings : List Warning
  deriving Repr

namespace Reported

/-- Runs one computation after another; the warnings of the first come first. -/
protected def bind {α β : Type} (x : Reported α) (f : α → Reported β) : Reported β :=
  let y := f x.value
  ⟨y.value, x.warnings ++ y.warnings⟩

instance : Monad Reported where
  pure a := ⟨a, []⟩
  bind := Reported.bind

/-- Raises one warning. -/
def warn (w : Warning) : Reported Unit :=
  ⟨(), [w]⟩

end Reported

end Esmify
