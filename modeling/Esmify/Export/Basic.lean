import Esmify.Text.Basic

/-!
# Exports

What a source text exports in the old style. **Global exports** are assigned to the exports of the
module as a whole, as one value or as an object with members; **inline exports** set one property
each.

A property is written as a name, or as `exposed:local` when it is exported under another name than
it has in the file.
-/

namespace Esmify

/-- A member of an exported object that has a value of its own. -/
structure Assignment where
  key : Text
  value : Text
  comment : Option Text := none
  deriving DecidableEq, Repr

/-- What is assigned to the exports of a module as a whole. -/
structure GlobalExports where
  /-- The source of the statement. -/
  raw : Option Text := none
  /-- The value, when it is not an object with members. -/
  direct : Option Text := none
  /-- Exported names of the file. -/
  properties : List Text := []
  /-- Names of objects all of whose keys are exported. -/
  keySets : List Text := []
  /-- Members with a value of their own. -/
  assignments : List Assignment := []
  /-- Where the statement was read. -/
  start : Option Nat := none
  deriving DecidableEq, Repr

/-- A statement that sets one property of the exports. -/
structure InlineExport where
  /-- The source up to the value. -/
  raw : Text
  /-- The source up to the end of the statement. -/
  full : Text
  /-- The exported name. -/
  property : Text
  /-- Where the statement was read. -/
  start : Option Nat := none
  deriving DecidableEq, Repr

/-- All exports of a text. -/
structure Exports where
  global : GlobalExports := {}
  inline : List InlineExport := []
  deriving DecidableEq, Repr

/-- Whether there is no statement at all. -/
def Exports.isEmpty (e : Exports) : Bool :=
  (e.global.raw.getD []).isEmpty && e.inline.isEmpty

/-- One member of an exported object. -/
inductive Member
  /-- A name of the file. -/
  | property (name : Text)
  /-- All keys of an object. -/
  | keySet (name : Text)
  /-- A key with a value of its own. -/
  | assignment (key value : Text)
  deriving DecidableEq, Repr

/-- The exports with one more member; a comment goes with a value. -/
def GlobalExports.add (e : GlobalExports) (comment : Option Text) : Member → GlobalExports
  | .property name => { e with properties := e.properties ++ [name] }
  | .keySet name => { e with keySets := e.keySets ++ [name] }
  | .assignment key value => { e with assignments := e.assignments ++ [⟨key, value, comment⟩] }

end Esmify
