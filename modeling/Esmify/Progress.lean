import Esmify.Fault
import Esmify.Number.Rounding

/-!
# Progress

The line that tells how far a run has come. The percentage is the quotient as a double, times one
hundred as a double, rounded to an integer; both steps can overflow.
-/

namespace Esmify

/-- Why a percentage cannot be given. -/
inductive ProgressError
  /-- The quotient is too large for a double. -/
  | quotientTooLarge
  /-- A hundred times the quotient is too large for a double. -/
  | percentageTooLarge
  deriving DecidableEq, Repr

/-- The wording of a progress error. -/
def ProgressError.message : ProgressError → Text
  | .quotientTooLarge => "integer division result too large for a float".toList
  | .percentageTooLarge => "cannot convert float infinity to integer".toList

/-- How many hundredths `current / total` is; everything is done when there is nothing to do. -/
def percentage (current total : Int) : Except ProgressError Int :=
  if total = 0 then .ok 100
  else
    match Number.double? current.natAbs total.natAbs with
    | none => .error .quotientTooLarge
    | some quotient =>
      match Number.double? (100 * quotient.num) quotient.den with
      | none => .error .percentageTooLarge
      | some hundredfold =>
        let rounded : Int := Number.nearest hundredfold.num hundredfold.den
        .ok (if (current < 0) = (total < 0) then rounded else -rounded)

/-- The progress line for the file at `path`. -/
def progressLine (current total : Int) (path : Text) : Except ProgressError Text :=
  match percentage current total with
  | .error e => .error e
  | .ok percent =>
    let width := (Text.decimal total).length
    .ok ('(' :: (Text.decimal current).padLeft width ++ '/' :: Text.decimal total ++ ") ".toList
      ++ (Text.decimal percent).padLeft 3 ++ "% - ".toList ++ path)

end Esmify
