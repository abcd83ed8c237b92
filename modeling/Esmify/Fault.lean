import Esmify.Text.Template

/-!
# Faults

The ways in which reading and changing a text can fail, as causes; `Fault.message` words them.
-/

namespace Esmify

/-- Why a text could not be read or changed. -/
inductive Fault
  /-- An edit reaches into the one after it or beyond the text. -/
  | overlappingEdit (start stop : Int)
  /-- The text to insert before does not occur. -/
  | missingPattern (search : Text)
  /-- The text to remove does not occur. -/
  | missingBlock (block : Text)
  /-- A name was imported, and no import statement binds it any more. -/
  | vanishedImport (name : Text)
  /-- The binding with this number is a default export and has no local name. -/
  | unnamedBinding (index : Nat)
  /-- The text was to be read beyond its end. -/
  | beyondText
  /-- A replacement is no template. -/
  | badTemplate (fault : Template.Fault)
  deriving DecidableEq, Repr

/-- The wording of a fault. -/
def Fault.message : Fault → Text
  | .overlappingEdit start stop =>
    "overlapping edit at ".toList ++ Text.decimal start ++ [':'] ++ Text.decimal stop
  | .missingPattern search => "cannot find pattern in content: ".toList ++ search.quoted
  | .missingBlock block => "cannot find block in content: ".toList ++ block.quoted
  | .vanishedImport _ => "'NoneType' object has no attribute 'start'".toList
  | .unnamedBinding index =>
    "sequence item ".toList ++ Text.decimal index
      ++ ": expected str instance, NoneType found".toList
  | .beyondText => "string index out of range".toList
  | .badTemplate fault => fault.message

end Esmify
