import Esmify.Export.Reader
import Esmify.Proofs.Lexeme
import Esmify.Proofs.Scan

/-!
# The source of the global exports

**Members are only read together with their statement**: when the global exports of a text have no
source, or an empty one, they have no properties either (`properties_eq_nil_of_raw`). The source
runs from the match that opens the statement to behind the bracket that closes it, so it is never
empty; the offsets of brackets are those of code characters, which lie within the text
(`closing?_bounds`). -/

namespace Esmify

open Text

namespace Source

/-! ## Brackets -/

/-- The offsets of code characters lie within the text. -/
lemma codeChars_bounds {m : Mode} {offset : Nat} {t : Text} :
    ∀ p ∈ codeChars m offset t, offset ≤ p.1 ∧ p.1 < offset + t.length := by
  induction t generalizing m offset with
  | nil => simp [codeChars]
  | cons c cs ih =>
    intro p hp
    rw [codeChars] at hp
    rw [List.length_cons]
    split at hp
    · rcases List.mem_cons.mp hp with rfl | hp
      · exact ⟨le_rfl, by omega⟩
      · have := ih p hp
        omega
    · have := ih p hp
      omega

/-- The closing bracket is one of the characters that were read. -/
lemma closingIn_mem {ι : Type} {awaited : List Char} {cs : List (ι × Char)} {i : ι}
    (h : closingIn awaited cs = some i) : ∃ c, (i, c) ∈ cs := by
  induction cs generalizing awaited with
  | nil => exact absurd h (by simp [closingIn])
  | cons p cs ih =>
    obtain ⟨j, c⟩ := p
    have hrest : ∀ {ks : List Char}, closingIn ks cs = some i → ∃ c', (i, c') ∈ (j, c) :: cs := by
      intro ks hks
      obtain ⟨c', hc'⟩ := ih hks
      exact ⟨c', List.mem_cons_of_mem _ hc'⟩
    unfold closingIn at h
    split at h
    · exact hrest h
    · split_ifs at h with hcloser
      · split at h
        · exact absurd h (by simp)
        · split_ifs at h with hkind hlast
          · obtain ⟨rfl⟩ := Option.some.inj h
            exact ⟨c, List.mem_cons_self⟩
          · exact hrest h
      · exact hrest h

/-- The closing bracket stands in the text, not before the place it is looked for from. -/
lemma closing?_bounds {t : Text} {start close : Nat} (h : closing? t start = some close) :
    start ≤ close ∧ close < t.length := by
  obtain ⟨c, hc⟩ := closingIn_mem h
  have := codeChars_bounds _ hc
  rw [List.length_drop] at this
  simp only at this
  omega

/-! ## Lengths -/

/-- Without its blanks a text is not longer. -/
lemma length_skipBlanks_le (t : Text) : (skipBlanks t).length ≤ t.length :=
  (List.dropWhile_sublist _).length_le

/-- Without its indentation a text is not longer. -/
lemma length_skipIndent_le (t : Text) : (skipIndent t).length ≤ t.length :=
  (List.dropWhile_sublist _).length_le

/-- Without its first character a text is not longer. -/
lemma length_skipOne_le (c : Char) (t : Text) : (skipOne c t).length ≤ t.length := by
  rcases skipOne_eq c t with h | h
  · have := congrArg List.length h
    rw [List.length_cons] at this
    omega
  · exact (congrArg List.length h).ge

/-- Behind its front a text is not longer. -/
lemma length_after?_le {head t rest : Text} (h : after? head t = some rest) :
    rest.length ≤ t.length := by
  rw [after?_eq_some_iff.mp h, List.length_append]
  omega

/-- Behind a word and blanks a text is not longer. -/
lemma length_wordThenBlanks?_le {word t rest : Text} (h : wordThenBlanks? word t = some rest) :
    rest.length ≤ t.length := by
  obtain ⟨t', rfl, rfl⟩ := wordThenBlanks?_eq_some_iff.mp h
  have := length_skipBlanks_le t'
  rw [List.length_append]
  omega

end Source

open Source

/-! ## Statements -/

/-- What follows a statement is no longer than what follows its closing bracket. -/
lemma length_statementTail?_le {t rest : Text} (h : statementTail? t = some rest) :
    rest.length ≤ t.length := by
  unfold statementTail? at h
  dsimp only at h
  split_ifs at h
  obtain ⟨rfl⟩ := Option.some.inj h
  refine (length_skipOne_le _ _).trans ?_
  have hfront : (skipIndent (skipOne ';' (skipIndent t))).length ≤ t.length :=
    ((length_skipIndent_le _).trans (length_skipOne_le _ _)).trans (length_skipIndent_le _)
  split
  · rename_i cs hcomment
    rw [hcomment, List.length_cons, List.length_cons] at hfront
    have := (List.dropWhile_sublist (l := cs) (· != '\n')).length_le
    omega
  · exact hfront

/-- The source of a statement that is closed by a bracket is not empty. -/
lemma closedStatement_ne_nil {content raw : Text} {start opened close : Nat}
    (hle : start ≤ opened) (h : closedStatement content start opened = .ok (close, raw)) :
    raw ≠ [] := by
  unfold closedStatement at h
  cases hclose : closing? content opened with
  | none => simp [hclose] at h
  | some close' =>
    simp only [hclose] at h
    cases htail : statementTail? (content.drop (close' + 1)) with
    | none => simp [htail] at h
    | some rest =>
      simp only [htail, Except.ok.injEq, Prod.mk.injEq] at h
      obtain ⟨-, rfl⟩ := h
      have hrest := length_statementTail?_le htail
      obtain ⟨hopened, hbound⟩ := closing?_bounds hclose
      rw [List.length_drop] at hrest
      rw [← List.length_pos_iff]
      unfold slice
      rw [List.length_drop, List.length_take]
      omega

/-- The brace of an object assigned to the exports stands behind the start of the statement. -/
lemma length_objectAssignment_le {before : Option Char} {t value rest : Text}
    (h : objectAssignment before t = some (value, rest)) : value.length ≤ t.length := by
  unfold objectAssignment at h
  split_ifs at h
  split at h
  · rename_i inner hassigned
    obtain ⟨rfl, -⟩ := Prod.mk.inj (Option.some.inj h)
    obtain ⟨u, hu, hskip⟩ := Option.map_eq_some_iff.mp hassigned
    obtain ⟨v, hword, hsign⟩ := Option.bind_eq_some_iff.mp hu
    rw [← hskip]
    calc (skipBlanks u).length ≤ u.length := length_skipBlanks_le u
      _ ≤ v.length := length_after?_le hsign
      _ ≤ (skipIndent t).length := length_wordThenBlanks?_le hword
      _ ≤ t.length := length_skipIndent_le t
  · exact absurd h (by simp)

/-- The parenthesis of a merging call stands behind the start of the statement. -/
lemma length_mergeCall_le {before : Option Char} {t value rest : Text}
    (h : mergeCall before t = some (value, rest)) : value.length ≤ t.length := by
  unfold mergeCall at h
  split_ifs at h
  split at h
  · rename_i inner hcall
    obtain ⟨args, -, hargs⟩ := Option.map_eq_some_iff.mp h
    obtain ⟨rfl, -⟩ := Prod.mk.inj hargs
    obtain ⟨u, hu, hskip⟩ := Option.map_eq_some_iff.mp hcall
    obtain ⟨word, -, hword⟩ := List.exists_of_findSome?_eq_some hu
    rw [← hskip]
    calc (skipBlanks u).length ≤ u.length := length_skipBlanks_le u
      _ ≤ (skipIndent t).length := length_after?_le hword
      _ ≤ t.length := length_skipIndent_le t
  · exact absurd h (by simp)

/-- A match whose value is the rest of the text begins before its value does. -/
lemma start_le_of_first? {p : Pattern Text} {content : Text} {m : Occurrence Text}
    (hp : ∀ before t value rest, p before t = some (value, rest) → value.length ≤ t.length)
    (h : first? p content = some m) : m.start ≤ content.length - m.value.length := by
  obtain ⟨front, back, rest, rfl, hstart, hmatch⟩ := first?_eq_some h
  have := hp _ _ _ _ hmatch
  rw [hstart, List.length_append]
  omega

/-! ## Global exports -/

/-- The source of an exported object is not empty. -/
lemma readObject_raw {content : Text} {m : Occurrence Text} {experimental : Bool}
    {e : GlobalExports} (hm : first? objectAssignment content = some m)
    (h : readObject content m experimental = .ok e) : e.raw.getD [] ≠ [] := by
  have hle := start_le_of_first? (fun _ _ _ _ => length_objectAssignment_le) hm
  unfold readObject at h
  dsimp only at h
  split at h
  · exact absurd h (by simp)
  · rename_i close raw hclosed
    split at h
    · obtain ⟨rfl⟩ := Except.ok.inj h
      exact closedStatement_ne_nil hle hclosed
    · exact absurd h (by simp)

/-- The source of a merging call is not empty. -/
lemma readMerge_raw {content : Text} {m : Occurrence Text} {experimental : Bool}
    {e : GlobalExports} (hm : first? mergeCall content = some m)
    (h : readMerge content m experimental = .ok e) : e.raw.getD [] ≠ [] := by
  have hle := start_le_of_first? (fun _ _ _ _ => length_mergeCall_le) hm
  unfold readMerge at h
  dsimp only at h
  split at h
  · exact absurd h (by simp)
  · rename_i close raw hclosed
    have hne := closedStatement_ne_nil hle hclosed
    split_ifs at h
    split at h
    · exact absurd h (by simp)
    · obtain ⟨rfl⟩ := Except.ok.inj h
      exact hne
    · split at h
      · obtain ⟨rfl⟩ := Except.ok.inj h
        exact hne
      · exact absurd h (by simp)

/-- Any other value that is exported has no members. -/
lemma readDirect_source {content : Text} {m : Occurrence Unit} {e : GlobalExports}
    (h : readDirect content m = .ok e) : e.properties = [] ∧ (e.raw = none ∨ e.direct ≠ none) := by
  unfold readDirect at h
  dsimp only at h
  split_ifs at h
  · obtain ⟨rfl⟩ := Except.ok.inj h
    exact ⟨rfl, Or.inl rfl⟩
  · obtain ⟨rfl⟩ := Except.ok.inj h
    exact ⟨rfl, Or.inr (by simp)⟩

/-- Global exports have a source, or they are a value, or there are none. -/
lemma read_source (content : Text) (experimental : Bool) :
    (GlobalExports.read content experimental).value.raw.getD [] ≠ []
      ∨ ((GlobalExports.read content experimental).value.properties = []
        ∧ ((GlobalExports.read content experimental).value.raw = none
          ∨ (GlobalExports.read content experimental).value.direct ≠ none)) := by
  unfold GlobalExports.read
  cases hfind : findGlobal content experimental with
  | error r => exact Or.inr ⟨rfl, Or.inl rfl⟩
  | ok e =>
    show e.raw.getD [] ≠ [] ∨ (e.properties = [] ∧ (e.raw = none ∨ e.direct ≠ none))
    unfold findGlobal at hfind
    split at hfind
    · rename_i m hm
      exact Or.inl (readObject_raw hm hfind)
    · split at hfind
      · rename_i m hm
        exact Or.inl (readMerge_raw hm hfind)
      · split at hfind
        · exact Or.inr (readDirect_source hfind)
        · obtain ⟨rfl⟩ := Except.ok.inj hfind
          exact Or.inr ⟨rfl, Or.inl rfl⟩

/-- **Properties are only read together with their statement.** -/
lemma properties_eq_nil_of_raw {content : Text} {experimental : Bool}
    (h : ((GlobalExports.read content experimental).value.raw.getD []) = []) :
    (GlobalExports.read content experimental).value.properties = [] :=
  ((read_source content experimental).resolve_left fun hne => hne h).1

/-- The statement of an exported object is not empty. -/
lemma raw_ne_nil {content raw : Text} {experimental : Bool}
    (hraw : (GlobalExports.read content experimental).value.raw = some raw)
    (hdirect : (GlobalExports.read content experimental).value.direct = none) : raw ≠ [] := by
  rcases read_source content experimental with hne | ⟨-, hnone | hsome⟩
  · rwa [hraw] at hne
  · rw [hraw] at hnone
    exact absurd hnone (by simp)
  · exact absurd hdirect hsome

end Esmify
