import Esmify.Export.Block
import Esmify.Proofs.Parts

/-!
# Steps of the line reader

What the reader of an object literal does with one line. **A line of members is read by its pieces**
(`startMember_eq`): comments and white space around the pieces play no part, nor does it matter that
brackets are counted after comments have been removed. A line with the indentation unit in front of
it is read as what follows the unit (`bodyOf_append`). -/

namespace Esmify

open Text Source

/-! ## Members by kind -/

/-- The property that a member is. -/
def Member.property? : Member → Option Text
  | .property name => some name
  | _ => none

/-- The object whose keys a member stands for. -/
def Member.keySet? : Member → Option Text
  | .keySet name => some name
  | _ => none

/-- The key to which a member assigns a value of its own. -/
def Member.key? : Member → Option Text
  | .assignment key _ => some key
  | _ => none

namespace BlockReader

variable {r r' : BlockReader}

/-! ## Several lines -/

/-- Reading goes on with the reader that the first line leads to. -/
lemma feedAll_cons {line : Text} (h : r.feed line = .ok r') (lines : List Text) :
    r.feedAll (line :: lines) = r'.feedAll lines := by
  rw [feedAll, h]

/-- Reading goes on with the reader that the first lines lead to. -/
lemma feedAll_append {lines : List Text} (h : r.feedAll lines = .ok r') (lines' : List Text) :
    r.feedAll (lines ++ lines') = r'.feedAll lines' := by
  induction lines generalizing r with
  | nil =>
    obtain rfl := Except.ok.inj h
    rfl
  | cons line lines ih =>
    rw [feedAll] at h
    cases hfeed : r.feed line with
    | error e =>
      rw [hfeed] at h
      exact absurd h (by simp)
    | ok next =>
      rw [hfeed] at h
      rw [List.cons_append, feedAll_cons hfeed, ih h]

/-! ## One line in each state -/

/-- Inside a value a line that begins no member goes on with the value. -/
lemma blockLine_eq {key body : Text} (hkind : LineKind.of body ≠ .member) (r : BlockReader)
    (lines : List Text) (depth : Int) :
    r.blockLine key lines depth body = r.continueBlock key lines depth body := by
  unfold blockLine
  split
  · next hmember => exact absurd hmember hkind
  · rfl

/-- Between members a line is read by its body. -/
lemma feed_scanning {line body : Text} (hstate : r.state = .scanning)
    (hbody : r.bodyOf line = .ok body) :
    r.feed line = r.scanLine body := by
  unfold feed
  rw [hstate]
  simp only [hbody]

/-- Inside a value a line is read by its body, too. -/
lemma feed_block {key line body : Text} {lines : List Text} {depth : Int}
    (hstate : r.state = .block key lines depth) (hbody : r.bodyOf line = .ok body) :
    r.feed line = r.blockLine key lines depth body := by
  unfold feed
  rw [hstate]
  simp only [hbody]

/-! ## A line of members -/

/-- The pieces of a line are found with comments and outer white space removed. -/
lemma pieces_trim_stripComments (t : Text) :
    piecesOf (splitTopLevel (trim (stripComments t)) ',') = pieces t := by
  unfold pieces parts splitTopLevel
  rw [splitFrom_eq_partsFrom, splitFrom_eq_partsFrom, piecesOf_trim]

/-- **A line of members is read by its pieces**; only the last one can leave brackets open. -/
lemma startMember_eq (r : BlockReader) (body : Text) : r.startMember body =
    if bracketDepth body < 0 then .error ⟨.exportsUnterminated, body⟩
    else if bracketDepth body = 0 then
      match r.addPieces (pieces body) with
      | .ok r' => .ok { r' with comments := [] }
      | .error e => .error e
    else
      match r.addPieces (pieces body).dropLast with
      | .ok r' =>
        match openHeader ((pieces body).getLast?.getD []) with
        | .ok (key, first) => .ok { r' with state := .block key [first] (bracketDepth body) }
        | .error e => .error e
      | .error e => .error e := by
  have hdepth : bracketDepth (trim (stripComments body)) = bracketDepth body := by
    rw [bracketDepth_trim, bracketDepth_stripComments]
  rw [← hdepth, ← pieces_trim_stripComments body]
  rfl

/-! ## A line with the indentation unit in front -/

/-- **A line is read without the unit**, when it is not blank and nothing is to be trimmed. -/
lemma bodyOf_append (r : BlockReader) {body : Text} (hne : body ≠ [])
    (hend : ∀ c, body.getLast? = some c → isBlank c = false) :
    r.bodyOf (r.indent ++ body) = .ok body := by
  have hblank : isBlankText (r.indent ++ body) = false := by
    rw [isBlankText, List.all_eq_false]
    refine ⟨body.getLast hne, by simp, ?_⟩
    rw [hend _ (List.getLast?_eq_some_getLast hne)]
    decide
  rw [bodyOf, hblank, after?_eq_some_iff.mpr rfl]
  exact congrArg Except.ok (trimEnd_of_getLast? hend)

end BlockReader

end Esmify
