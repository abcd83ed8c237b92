import Esmify.Edit
import Esmify.Warning

/-!
# Revisions

A revision of a text raises warnings on the way and may fail; the warnings raised before a failure
are kept.
-/

namespace Esmify

/-- A computation that raises warnings and may fail. -/
abbrev Revision (α : Type) := ExceptT Fault Reported α

namespace Revision

/-- Raises one warning. -/
def warn (w : Warning) : Revision Unit :=
  ExceptT.lift (Reported.warn w)

/-- Raises one warning about each item of a list. -/
def warnEach {α : Type} (w : α → Warning) : List α → Revision Unit
  | [] => pure ()
  | a :: as => do
    warn (w a)
    warnEach w as

/-- Goes on with the outcome of a step that raises no warnings. -/
def ofExcept {α : Type} (e : Except Fault α) : Revision α :=
  ExceptT.mk (pure e)

/-- Goes on with a step that cannot fail. -/
def ofReported {α : Type} (r : Reported α) : Revision α :=
  ExceptT.lift r

end Revision

end Esmify
