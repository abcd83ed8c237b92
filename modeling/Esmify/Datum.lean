import Esmify.Text.Printable

/-!
# Values as they are given

A configuration and a command line give values of several kinds, and not each is of the kind that is
wanted. **What is refused is shown as it was given**, with `Datum.shown`; where only the presence of
a value matters, `Datum.counts` tells whether it counts as one. -/

namespace Esmify

/-- A value as it was given. -/
inductive Datum
  | nothing
  | truth (holds : Bool)
  | number (n : Int)
  | text (t : Text)
  | list (items : List Datum)
  | record (fields : List (Text × Datum))
  deriving Inhabited, Repr

namespace Datum

mutual

/-- How messages show a value. -/
def shown : Datum → Text
  | .nothing => "None".toList
  | .truth true => "True".toList
  | .truth false => "False".toList
  | .number n => Text.decimal n
  | .text t => t.quoted
  | .list items => '[' :: ", ".toList.intercalate (shownItems items) ++ [']']
  | .record fields => '\x7b' :: ", ".toList.intercalate (shownFields fields) ++ ['\x7d']

/-- How messages show the items of a list. -/
def shownItems : List Datum → List Text
  | [] => []
  | d :: ds => d.shown :: shownItems ds

/-- How messages show the fields of a record. -/
def shownFields : List (Text × Datum) → List Text
  | [] => []
  | (name, d) :: ds => (name.quoted ++ ": ".toList ++ d.shown) :: shownFields ds

end

/-- Whether a value counts as given: nothing, no, zero and what is empty do not. -/
def counts : Datum → Bool
  | .nothing => false
  | .truth holds => holds
  | .number n => n ≠ 0
  | .text t => !t.isEmpty
  | .list items => !items.isEmpty
  | .record fields => !fields.isEmpty

end Datum

end Esmify
