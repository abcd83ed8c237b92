import Esmify.Requirement.Basic
import Esmify.Requirement.Shape
import Esmify.Warning

/-!
# Reading requirements

`ofLine` reads one line into a requirement or declines it, and `readAll` does so for every line of a
text, in order. A clause that follows a comma belongs to the declaration before it and needs no
keyword of its own. Calls that stand in no such line are reported and left alone.
-/

namespace Esmify.Requirement

open Text Source

/-! ## Left-hand sides -/

/-- One member of a brace group: a key, and after a colon its local name. -/
def member? (t : Text) : Option Binding :=
  let (key, localName) := partition ':' (trim t)
  let key := trim key
  let localName := trim (localName.getD [])
  if !isName key || (!localName.isEmpty && !isName localName) then none
  else some ⟨key, if localName.isEmpty then none else some localName⟩

/-- The members of a brace group, blank ones left out. -/
def members? : List Text → Option (List Binding)
  | [] => some []
  | t :: ts =>
    if isBlankText t then members? ts
    else
      match member? t with
      | some b => (members? ts).map (b :: ·)
      | none => none

/-- The bindings that a left-hand side declares: a name, or the members of one brace group. -/
def readBindings (raw : Text) : Except Rejection (List Binding) :=
  let value : Text := (trim raw).filter (· != '\n')
  if value.head? == some '\x7b' && value.getLast? == some '\x7d' then
    let inner := trim (value.slice 1 (value.length - 1))
    if inner.contains '\x7b' then .error ⟨.requireDeepDestructuring, value⟩
    else
      match members? (inner.splitOn ',') with
      | some (b :: bs) => .ok (b :: bs)
      | _ => .error ⟨.requireUnsupportedBinding, value⟩
  else if isName value then .ok [⟨wholeModule, some value⟩]
  else .error ⟨.requireUnsupportedBinding, value⟩

/-- Takes a member path into the bindings, which must be the module as a whole. -/
def withPath (raw : Text) (bs : List Binding) : Option Text → Except Rejection (List Binding)
  | none => .ok bs
  | some path =>
    if path.contains '(' then .error ⟨.requireFunctionCall, raw⟩
    else if path.contains '.' then .error ⟨.requireDeepPath, raw⟩
    else
      match bs with
      | b :: _ =>
        if b.key == wholeModule then .ok [⟨path, b.localName⟩]
        else .error ⟨.requireDestructuredPath, raw⟩
      | [] => .error ⟨.requireDestructuredPath, raw⟩

/-- A binding without a local name that equals its key. -/
def simplified (b : Binding) : Binding :=
  if b.localName == some b.key then ⟨b.key, none⟩ else b

/-- The blanks and tabs after the first line break that has some. -/
def innerIndent? : Text → Option Text
  | [] => none
  | c :: cs =>
    if c == '\n' && !(indentation cs).isEmpty then some (indentation cs) else innerIndent? cs

/-! ## Lines -/

/-- The requirement of a statement with a left-hand side. -/
def ofAssigned (raw binding : Text) (s : Statement) (continued : Bool) :
    Except Rejection Requirement :=
  match readBindings binding with
  | .error r => .error r
  | .ok bs =>
    if s.keyword.isNone && !continued then .error ⟨.requireGlobalVariable, raw⟩
    else
      match withPath raw bs s.path with
      | .error r => .error r
      | .ok bs =>
        let read : Requirement :=
          { target := s.target, raw, quote := [s.quote], bindings := bs.map simplified,
            chained := s.comma, indent := innerIndent? raw }
        .ok { read with hasDefault := isPackage s.target && read.isWholeModule }

/-- Reads one line; `continued` says that it follows a comma of the same declaration. -/
def ofLine (line : Text) (continued : Bool) : Except Rejection Requirement :=
  match statement? line with
  | none => .error ⟨.requireUnparsed, line⟩
  | some s =>
    let raw := line.take (line.length - s.rest.length)
    match trim (stripComments s.rest) with
    | '(' :: _ => .error ⟨.requireFunctionCall, line⟩
    | _ :: _ => .error ⟨.requireUnparsed, line⟩
    | [] =>
      match s.binding with
      | some binding => ofAssigned raw binding s continued
      | none =>
        if s.path.isSome then .error ⟨.requireDirectCall, raw⟩
        else .ok { target := s.target, raw, quote := [s.quote], chained := s.comma }

/-! ## Texts -/

/-- The requirement read at its place in `content`; `continued` says that it follows a comma. -/
def placed (content : Text) (start : Nat) (continued : Bool) (r : Requirement) : Requirement :=
  { r with
    start := some start
    chained := r.chained || continued
    hasDefault := r.hasDefault &&
      match r.bindings with
      | ⟨_, some name⟩ :: _ => !name.isEmpty && isUsedAsValue content name
      | _ => false }

/-- Reads the lines found in a text one after the other. -/
def readLines (content : Text) :
    (continued : Bool) → List (Occurrence Unit) → Reported (List Requirement)
  | _, [] => pure []
  | continued, line :: rest =>
    match ofLine (line.text content) continued with
    | .error r => do
      Reported.warn (.rejected r)
      readLines content false rest
    | .ok r => do
      let rs ← readLines content r.chained rest
      pure (placed content line.start continued r :: rs)

/-- The calls in code that no line covers, apart from those assigned to the exports of the
module. -/
def strayCalls (content : Text) (lines : List (Occurrence Unit)) : List Nat :=
  ((codeOccurrences requireCall content).map (·.start)).filter fun i =>
    !(lines.any fun line => line.start ≤ i && i < line.stop) &&
      !holdsSomewhere exportsAssigned (content.slice (content.lineStart i) i)

/-- Raises a warning for every call in the list, showing its line. -/
def reportStray (content : Text) : List Nat → Reported Unit
  | [] => pure ()
  | i :: rest => do
    let line := content.slice (content.lineStart i) (content.lineEnd i)
    Reported.warn (.rejected ⟨.requireNotAStatement, trim line⟩)
    reportStray content rest

/-- All requirements of a text, in order; what is declined is reported. -/
def readAll (content : Text) : Reported (List Requirement) := do
  let lines := occurrences requireLine content
  let rs ← readLines content false lines
  reportStray content (strayCalls content lines)
  pure rs

end Esmify.Requirement
