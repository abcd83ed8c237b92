import Esmify.Proofs.Balance

/-!
# White space and comments

**Trivia** is a text with nothing but white space and comments in it (`isTrivia`). All of its code
is white space, so it opens and closes no bracket (`depthOf_trivia`).

A text can be cut behind a character that no comment mark begins or ends with: what stands in front
is read as it is read alone (`codeChars_cut`, `stripFrom_cut`). When the reading comes out in code
there, that character has not been stripped (`stripComments_concat`). -/

namespace Esmify.Source

open Text

/-! ## Cutting behind a character -/

/-- A character that is in no comment mark is read alike, whatever follows. -/
lemma Mode.step_next (m : Mode) {c : Char} (hslash : c ≠ '/') (hstar : c ≠ '*')
    (next : Option Char) :
    m.step c next = m.step c none := by
  unfold Mode.step
  cases m with
  | code => simp [hslash]
  | blockComment => simp [hstar]
  | _ => rfl

section Cut

variable (m : Mode) (u : Text) {c : Char} (hslash : c ≠ '/') (hstar : c ≠ '*') (rest : Text)

include hslash hstar

/-- The code of a text that is cut behind such a character. -/
lemma codeChars_cut (offset : Nat) : codeChars m offset (u ++ [c] ++ rest) =
    codeChars m offset (u ++ [c])
      ++ codeChars (modeAfter m (u ++ [c])) (offset + (u ++ [c]).length) rest := by
  have hstep : codeChars (modeAfter m u) (offset + u.length) (c :: rest) =
      codeChars (modeAfter m u) (offset + u.length) [c]
        ++ codeChars (modeAfter (modeAfter m u) [c]) (offset + u.length + 1) rest := by
    rw [codeChars, codeChars, modeAfter, modeAfter, Mode.step_next _ hslash hstar rest.head?,
      List.head?_nil]
    obtain ⟨region, m'⟩ := (modeAfter m u).step c none
    cases region <;> rfl
  rw [List.append_assoc, List.singleton_append,
    codeChars_append _ _ _ (calm_cons hslash hstar rest), hstep,
    codeChars_append _ _ _ (calm_cons hslash hstar []),
    modeAfter_append _ _ (calm_cons hslash hstar []),
    List.append_assoc, List.length_append, List.length_singleton, Nat.add_assoc]

/-- What is left of a text that is cut behind such a character. -/
lemma stripFrom_cut : stripFrom m (u ++ [c] ++ rest) =
    stripFrom m (u ++ [c]) ++ stripFrom (modeAfter m (u ++ [c])) rest := by
  have hstep : stripFrom (modeAfter m u) (c :: rest) =
      stripFrom (modeAfter m u) [c] ++ stripFrom (modeAfter (modeAfter m u) [c]) rest := by
    rw [stripFrom, stripFrom, modeAfter, modeAfter, Mode.step_next _ hslash hstar rest.head?,
      List.head?_nil]
    obtain ⟨region, m'⟩ := (modeAfter m u).step c none
    cases region <;> rfl
  rw [List.append_assoc, List.singleton_append, stripFrom_append _ _ (calm_cons hslash hstar rest),
    hstep, stripFrom_append _ _ (calm_cons hslash hstar []),
    modeAfter_append _ _ (calm_cons hslash hstar []), List.append_assoc]

end Cut

/-- At the end of a text no comment is about to be closed. -/
lemma modeAfter_ne_commentClosing {m : Mode} {t : Text} (hne : t ≠ []) :
    modeAfter m t ≠ .commentClosing := by
  induction t generalizing m with
  | nil => exact absurd rfl hne
  | cons c t ih =>
    rw [modeAfter]
    cases t with
    | nil =>
      cases m with
      | code => rw [modeAfter, Mode.step]; split_ifs <;> simp_all
      | lineComment => rw [modeAfter, Mode.step]; split_ifs <;> simp
      | blockComment => simp [modeAfter, Mode.step]
      | literal quote => rw [modeAfter, Mode.step]; split_ifs <;> simp
      | commentOpening | commentClosing | escaped _ => simp [modeAfter, Mode.step]
    | cons d t => exact ih (List.cons_ne_nil d t)

/-- **The last character of a text that comes out in code is not stripped**, unless it is in a
comment mark. -/
lemma stripComments_concat {u : Text} {c : Char} (hslash : c ≠ '/') (hstar : c ≠ '*')
    (h : modeAfter .code (u ++ [c]) = .code) :
    stripComments (u ++ [c]) = stripComments u ++ [c] := by
  have hcalm : Calm [c] := calm_cons hslash hstar []
  have hclosing : modeAfter .code u ≠ .commentClosing := by
    by_cases hne : u = []
    · rw [hne]
      simp [modeAfter]
    · exact modeAfter_ne_commentClosing hne
  rw [modeAfter_append _ _ hcalm] at h
  rw [stripComments, stripComments, stripFrom_append _ _ hcalm]
  generalize modeAfter .code u = m at h hclosing
  have hregion : (m.step c none).1 ≠ .comment := by
    intro hcomment
    rw [modeAfter, List.head?_nil, modeAfter] at h
    cases m with
    | code => exact absurd hcomment (by rw [Mode.step]; split_ifs <;> simp_all)
    | lineComment =>
      rw [Mode.step] at h hcomment
      split_ifs at h hcomment
    | commentOpening => simp [Mode.step] at h
    | blockComment => simp [Mode.step] at h
    | commentClosing => exact hclosing rfl
    | literal quote =>
      rw [Mode.step] at hcomment
      split_ifs at hcomment
    | escaped quote => simp [Mode.step] at hcomment
  rw [stripFrom, List.head?_nil]
  rcases hstep : m.step c none with ⟨region, m'⟩
  rw [hstep] at hregion
  cases region with
  | comment => exact absurd rfl hregion
  | code => rfl
  | literal => rfl

/-! ## Trivia -/

/-- Whether a text holds nothing but white space and comments. -/
def isTrivia (t : Text) : Bool :=
  isBlankText (stripComments t)

/-- A text is trivia if nothing but white space is left without its comments. -/
lemma isTrivia_iff {t : Text} : isTrivia t = true ↔ ∀ c ∈ stripComments t, isBlank c = true :=
  List.all_eq_true

/-- Code is left when comments are taken out. -/
lemma mem_stripFrom_of_mem_codeIn {m : Mode} {t : Text} {c : Char} (h : c ∈ codeIn m t) :
    c ∈ stripFrom m t := by
  induction t generalizing m with
  | nil => exact absurd h (by simp [codeIn, codeChars])
  | cons d t ih =>
    rw [codeIn_cons] at h
    rw [stripFrom]
    rcases hstep : m.step d t.head? with ⟨region, m'⟩
    rw [hstep] at h
    cases region with
    | code =>
      rcases List.mem_cons.mp h with rfl | h
      · exact List.mem_cons_self
      · exact List.mem_cons_of_mem _ (ih h)
    | comment => exact ih h
    | literal => exact List.mem_cons_of_mem _ (ih h)

/-- The code of trivia is white space. -/
lemma isBlank_of_mem_codeIn {t : Text} (h : isTrivia t = true) :
    ∀ c ∈ codeIn .code t, isBlank c = true :=
  fun c hc => isTrivia_iff.mp h c (mem_stripFrom_of_mem_codeIn hc)

/-- **Trivia opens and closes no bracket.** -/
lemma depthOf_trivia {t : Text} (h : isTrivia t = true) : depthOf (codeIn .code t) = 0 :=
  depthOf_unbracketed (bare_of_blanks (isBlank_of_mem_codeIn h)).2

/-- The front of trivia is trivia, when it is not cut inside a comment mark. -/
lemma isTrivia_of_append {u rest : Text} (hcalm : Calm rest) (h : isTrivia (u ++ rest) = true) :
    isTrivia u = true := by
  rw [isTrivia_iff, stripComments, stripFrom_append _ _ hcalm] at h
  exact isTrivia_iff.mpr fun c hc => h c (List.mem_append_left _ hc)

end Esmify.Source
