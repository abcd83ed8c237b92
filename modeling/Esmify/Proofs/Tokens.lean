import Esmify.Proofs.Leaps
import Esmify.Proofs.Parts

/-!
# Taking comments out

A text is a sequence of **tokens** (`tokens`): characters of code, whole literals and whole
comments. Joined, they are the text again (`flatMap_tokensFrom`).

**Taking the comments out leaves all other tokens as they were** (`tokensFrom_stripFrom`): no
comment and no literal comes into being where the two sides of a comment meet. A slash of code is
not followed by a comment, whose own slash would make a line comment of the two; and a literal that
a line break ends is followed by that line break. So code, brackets and literals are read alike with
and without comments, and there is nothing left to take out (`stripComments_reads_alike`). Comments
are taken out as a whole, one turn after the other (`stripComments_turn`). -/

namespace Esmify.Source

open Text

/-! ## Tokens -/

/-- A character of code, a literal or a comment. -/
structure Token where
  region : Region
  text : Text
  deriving DecidableEq, Repr

/-- What a mode is in the middle of. -/
def Mode.region : Mode → Region
  | .code => .code
  | .literal _ | .escaped _ => .literal
  | .lineComment | .commentOpening | .blockComment | .commentClosing => .comment

/-- What is left of a token that is open in mode `m`, when nothing more belongs to it. -/
def Mode.rest (m : Mode) : List Token :=
  if m = .code then [] else [⟨m.region, []⟩]

/-- Puts a character in front of the first token. -/
def extendFirst (c : Char) : List Token → List Token
  | [] => []
  | k :: ks => ⟨k.region, c :: k.text⟩ :: ks

/-- The tokens of a text read in mode `m`; the first one is what is left of the token that is open
then. -/
def tokensFrom (m : Mode) : Text → List Token
  | [] => m.rest
  | c :: cs =>
    match m.step c cs.head? with
    | (.code, m') => m.rest ++ ⟨.code, [c]⟩ :: tokensFrom m' cs
    | (region, m') =>
      if m' = .code then ⟨region, [c]⟩ :: tokensFrom m' cs else extendFirst c (tokensFrom m' cs)

/-- The tokens of a text. -/
def tokens (t : Text) : List Token :=
  tokensFrom .code t

/-- A character outside code belongs to the token that is open in front of it, and to the one that
is open behind it. -/
lemma Mode.region_of_step {m m' : Mode} {c : Char} {next : Option Char} {region : Region}
    (h : m.step c next = (region, m')) (hregion : region ≠ .code) :
    (m ≠ .code → m.region = region) ∧ (m' ≠ .code → m'.region = region) := by
  cases m with
  | code =>
    rw [Mode.step] at h
    split_ifs at h
    all_goals
      obtain ⟨rfl, rfl⟩ := Prod.mk.inj h
      simp [Mode.region] at hregion ⊢
  | lineComment | blockComment | literal =>
    rw [Mode.step] at h
    split_ifs at h
    all_goals
      obtain ⟨rfl, rfl⟩ := Prod.mk.inj h
      simp [Mode.region] at hregion ⊢
  | commentOpening | commentClosing | escaped =>
    obtain ⟨rfl, rfl⟩ := Prod.mk.inj h
    simp [Mode.region]

/-- A character outside code ends its token, or goes to the front of the one that is open behind
it. -/
lemma tokensFrom_cons {m m' : Mode} {c : Char} {cs : Text} {region : Region}
    (hstep : m.step c cs.head? = (region, m')) (hregion : region ≠ .code) : tokensFrom m (c :: cs) =
      if m' = .code then ⟨region, [c]⟩ :: tokensFrom m' cs else
        extendFirst c (tokensFrom m' cs) := by
  rw [tokensFrom, hstep]
  cases region with
  | code => exact absurd rfl hregion
  | comment => rfl
  | literal => rfl

/-- A character of code ends the token that is open, and is one by itself. -/
lemma tokensFrom_cons_code {m m' : Mode} {c : Char} {cs : Text}
    (hstep : m.step c cs.head? = (.code, m')) :
    tokensFrom m (c :: cs) = m.rest ++ ⟨.code, [c]⟩ :: tokensFrom m' cs := by
  rw [tokensFrom, hstep]

/-- **The first token is the one that is open.** -/
lemma exists_first {m : Mode} (hm : m ≠ .code) (t : Text) :
    ∃ text ks, tokensFrom m t = ⟨m.region, text⟩ :: ks := by
  have hrest : m.rest = [⟨m.region, []⟩] := if_neg hm
  induction t generalizing m with
  | nil => exact ⟨[], [], hrest⟩
  | cons c cs ih =>
    rcases hstep : m.step c cs.head? with ⟨region, m'⟩
    by_cases hregion : region = .code
    · subst hregion
      rw [tokensFrom_cons_code hstep, hrest]
      exact ⟨_, _, rfl⟩
    · obtain ⟨hfront, hbehind⟩ := Mode.region_of_step hstep hregion
      rw [tokensFrom_cons hstep hregion, hfront hm]
      split_ifs with hend
      · exact ⟨_, _, rfl⟩
      · obtain ⟨text, ks, hcs⟩ := ih hend (if_neg hend)
        rw [hcs, hbehind hend]
        exact ⟨_, _, rfl⟩

/-- **The tokens of a text, joined, are the text.** -/
lemma flatMap_tokensFrom (m : Mode) (t : Text) : (tokensFrom m t).flatMap Token.text = t := by
  have hrest : ∀ m : Mode, m.rest.flatMap Token.text = [] := by
    intro m
    unfold Mode.rest
    split_ifs
    all_goals rfl
  induction t generalizing m with
  | nil => exact hrest m
  | cons c cs ih =>
    rcases hstep : m.step c cs.head? with ⟨region, m'⟩
    have hcs := ih m'
    by_cases hregion : region = .code
    · subst hregion
      rw [tokensFrom_cons_code hstep, List.flatMap_append, hrest, List.flatMap_cons, hcs]
      rfl
    · rw [tokensFrom_cons hstep hregion]
      split_ifs with hend
      · rw [List.flatMap_cons, hcs]
        rfl
      · obtain ⟨text, ks, hfirst⟩ := exists_first hend cs
        rw [hfirst] at hcs ⊢
        exact congrArg (c :: ·) hcs

/-- Whether a token is a character of code. -/
def Token.isCode (k : Token) : Bool :=
  k.region = .code

/-- **The code of a text is its tokens of code.** -/
lemma codeIn_eq_flatMap (m : Mode) (t : Text) :
    codeIn m t = ((tokensFrom m t).filter Token.isCode).flatMap Token.text := by
  have hrest : ∀ m : Mode, m.rest.filter Token.isCode = [] := by
    intro m
    cases m with
    | code | lineComment | commentOpening | blockComment | commentClosing | literal | escaped => rfl
  induction t generalizing m with
  | nil =>
    rw [tokensFrom, hrest]
    rfl
  | cons c cs ih =>
    rcases hstep : m.step c cs.head? with ⟨region, m'⟩
    have hcs := ih m'
    by_cases hregion : region = .code
    · subst hregion
      rw [codeIn_cons, hstep, tokensFrom_cons_code hstep, List.filter_append, hrest]
      exact congrArg (c :: ·) hcs
    · have hcode : codeIn m (c :: cs) = codeIn m' cs := by
        rw [codeIn_cons, hstep]
        cases region with
        | code => exact absurd rfl hregion
        | comment => rfl
        | literal => rfl
      have hother : ∀ text, ¬Token.isCode ⟨region, text⟩ = true := fun text => by
        simpa [Token.isCode] using hregion
      rw [hcode, hcs, tokensFrom_cons hstep hregion]
      split_ifs with hend
      · rw [List.filter_cons_of_neg (hother _)]
      · obtain ⟨text, ks, hfirst⟩ := exists_first hend cs
        rw [hfirst, (Mode.region_of_step hstep hregion).2 hend, extendFirst,
          List.filter_cons_of_neg (hother _), List.filter_cons_of_neg (hother _)]

/-! ## Without comments -/

/-- Whether a token is not a comment. -/
def Token.stays (k : Token) : Bool :=
  k.region ≠ .comment

/-- What is left of an open token when the comments are taken out. -/
lemma Mode.rest_uncommented (m : Mode) : m.uncommented.rest = m.rest.filter Token.stays := by
  cases m with
  | code | lineComment | commentOpening | blockComment | commentClosing | literal | escaped => rfl

/-- **Taking the comments out leaves the other tokens as they were.** -/
lemma tokensFrom_stripFrom (m : Mode) (t : Text) :
    tokensFrom m.uncommented (stripFrom m t) = (tokensFrom m t).filter Token.stays := by
  induction t generalizing m with
  | nil => exact m.rest_uncommented
  | cons c cs ih =>
    rcases hstep : m.step c cs.head? with ⟨region, m'⟩
    have hcs := ih m'
    rw [stripFrom, hstep]
    cases region with
    | code =>
      have hread := Mode.step_stripFrom hstep (by decide)
      rw [tokensFrom_cons_code hstep, tokensFrom_cons_code hread, hcs, m.rest_uncommented,
        List.filter_append]
      rfl
    | literal =>
      have hread := Mode.step_stripFrom hstep (by decide)
      rw [tokensFrom_cons hstep (by decide), tokensFrom_cons hread (by decide), hcs,
        Mode.uncommented_of_step hstep (by decide)]
      split_ifs with hend
      · rfl
      · obtain ⟨text, ks, hfirst⟩ := exists_first hend cs
        rw [hfirst, (Mode.region_of_step hstep (by decide)).2 hend]
        rfl
    | comment =>
      rw [tokensFrom_cons hstep (by decide), Mode.uncommented_of_comment hstep, hcs]
      split_ifs with hend
      · rfl
      · obtain ⟨text, ks, hfirst⟩ := exists_first hend cs
        rw [hfirst, (Mode.region_of_step hstep (by decide)).2 hend]
        rfl

/-- Without its comments a text is the tokens that stay, joined. -/
lemma stripComments_eq_flatMap (t : Text) :
    stripComments t = ((tokens t).filter Token.stays).flatMap Token.text := by
  have htokens : tokens (stripComments t) = (tokens t).filter Token.stays :=
    tokensFrom_stripFrom .code t
  rw [← htokens]
  exact (flatMap_tokensFrom .code (stripComments t)).symm

/-- **Code is read alike with comments and without them.** The code of a text and the text without
comments are read off the same tokens, those of code and those that are no comments. Taking the
comments out leaves every other token as it was. So it keeps the characters of code, takes nothing
out the second time, and makes no difference to the brackets left open or to the characters found in
code. One turn keeps a literal or a character of code, or leaps over a comment. -/
theorem stripComments_reads_alike (t : Text) :
    codeText t = ((tokens t).filter Token.isCode).flatMap Token.text
      ∧ stripComments t = ((tokens t).filter Token.stays).flatMap Token.text
      ∧ tokens (stripComments t) = (tokens t).filter Token.stays
      ∧ codeText (stripComments t) = codeText t
      ∧ stripComments (stripComments t) = stripComments t
      ∧ bracketDepth (stripComments t) = bracketDepth t
      ∧ (∀ chars, hasCodeChar (stripComments t) chars = hasCodeChar t chars)
      ∧ stripComments t = match t with
        | [] => []
        | c :: cs =>
          if isQuote c = true then t.take (leap t) ++ stripComments (t.drop (leap t))
          else if leap t = 0 then c :: stripComments cs
          else stripComments (t.drop (leap t)) := by
  have htokens : tokens (stripComments t) = (tokens t).filter Token.stays :=
    tokensFrom_stripFrom .code t
  have hcode : codeText (stripComments t) = codeText t := codeIn_stripFrom .code t
  refine ⟨codeIn_eq_flatMap .code t, stripComments_eq_flatMap t, htokens, hcode, ?_,
    bracketDepth_stripComments t, fun chars => ?_, ?_⟩
  · rw [stripComments_eq_flatMap (stripComments t), htokens, List.filter_filter,
      stripComments_eq_flatMap t]
    simp only [Bool.and_self]
  · have hchars : ∀ u : Text, hasCodeChar u chars = (codeText u).any chars.contains := by
      intro u
      rw [codeText, List.any_map]
      rfl
    rw [hchars, hchars, hcode]
  · cases t with
    | nil => rfl
    | cons c cs => exact stripComments_turn c cs

example : tokens "'/*'/**///a\n".toList =
    [⟨.literal, "'/*'".toList⟩, ⟨.comment, "/**/".toList⟩, ⟨.comment, "//a".toList⟩,
      ⟨.code, ['\n']⟩] := by
  decide

end Esmify.Source
