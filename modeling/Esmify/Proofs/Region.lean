import Mathlib.Data.List.Infix
import Esmify.Proofs.Text
import Esmify.Source.Statement

/-!
# Reading code past a closed piece

**A piece of source that closes what it opens can be read on its own**: when what follows it does
not begin like the second character of a comment mark, the code of both is the code of the one and
then that of the other (`codeChars_append`). A statement does not end inside brackets; so when a
piece has its brackets balanced and no semicolon outside of them, the end of the statement is looked
for behind it (`statementStop?_append`, `statementEnd_append`). -/

namespace Esmify.Source

open Text

/-! ## Code -/

/-- Nothing that would make a comment mark of the character before it. -/
def Calm (rest : Text) : Prop :=
  rest.head? ≠ some '/' ∧ rest.head? ≠ some '*'

/-- Before a calm text a character is read as at the end. -/
lemma Mode.step_calm (m : Mode) (c : Char) {rest : Text} (h : Calm rest) :
    m.step c rest.head? = m.step c none := by
  unfold Mode.step
  cases m with
  | code => simp [h.1, h.2]
  | blockComment => simp [h.1]
  | _ => rfl

/-- A character in front of a piece is read alike, whatever calm text follows the piece. -/
lemma Mode.step_append (m : Mode) (c : Char) (u : Text) {rest : Text} (h : Calm rest) :
    m.step c (u ++ rest).head? = m.step c u.head? := by
  cases u with
  | nil => exact m.step_calm c h
  | cons d u => rfl

/-- **The code of a piece and a calm rest** is that of the piece, and then that of the rest. -/
lemma codeChars_append (m : Mode) (offset : Nat) (u : Text) {rest : Text} (h : Calm rest) :
    codeChars m offset (u ++ rest) =
      codeChars m offset u ++ codeChars (modeAfter m u) (offset + u.length) rest := by
  induction u generalizing m offset with
  | nil => rfl
  | cons c u ih =>
    rw [List.cons_append, codeChars, codeChars, modeAfter, m.step_append c u h]
    have hlength : offset + (c :: u).length = offset + 1 + u.length := by
      rw [List.length_cons]
      omega
    rw [hlength]
    obtain ⟨region, m'⟩ := m.step c u.head?
    cases region with
    | code => exact congrArg ((offset, c) :: ·) (ih _ _)
    | comment => exact ih _ _
    | literal => exact ih _ _

/-- Where the reading begins does not change what is code. -/
lemma map_snd_codeChars (m : Mode) (offset offset' : Nat) (u : Text) :
    (codeChars m offset u).map Prod.snd = (codeChars m offset' u).map Prod.snd := by
  induction u generalizing m offset offset' with
  | nil => rfl
  | cons c u ih =>
    rw [codeChars, codeChars]
    obtain ⟨region, m'⟩ := m.step c u.head?
    cases region with
    | code => exact congrArg (c :: ·) (ih _ _ _)
    | comment => exact ih _ _ _
    | literal => exact ih _ _ _

/-- Code is made of characters of the text. -/
lemma mem_of_mem_codeChars {m : Mode} {offset : Nat} {u : Text} {c : Char}
    (h : c ∈ (codeChars m offset u).map Prod.snd) : c ∈ u := by
  induction u generalizing m offset with
  | nil => exact absurd h (by simp [codeChars])
  | cons d u ih =>
    rw [codeChars] at h
    rcases hstep : m.step d u.head? with ⟨region, m'⟩
    rw [hstep] at h
    cases region with
    | code =>
      rcases List.mem_cons.mp h with rfl | h
      · exact List.mem_cons_self
      · exact List.mem_cons_of_mem _ (ih h)
    | comment => exact List.mem_cons_of_mem _ (ih h)
    | literal => exact List.mem_cons_of_mem _ (ih h)

/-! ## Text without literals and comments -/

/-- No quote and no slash stands in a text. -/
def Bare (u : Text) : Prop :=
  ∀ c ∈ u, isQuote c = false ∧ c ≠ '/'

/-- A character that is no quote and no slash stays in code. -/
lemma Mode.step_bare {c : Char} (hquote : isQuote c = false) (hslash : c ≠ '/')
    (next : Option Char) : Mode.code.step c next = (.code, .code) := by
  simp [Mode.step, hquote, hslash]

/-- Nothing is stripped of a bare text. -/
lemma stripComments_bare {u : Text} (h : Bare u) : stripComments u = u := by
  unfold stripComments
  induction u with
  | nil => rfl
  | cons c u ih =>
    obtain ⟨hquote, hslash⟩ := h c List.mem_cons_self
    rw [stripFrom, Mode.step_bare hquote hslash]
    exact congrArg (c :: ·) (ih fun d hd => h d (List.mem_cons_of_mem _ hd))

/-- Every character of a bare text is code. -/
lemma codeChars_bare_cons {c : Char} (hquote : isQuote c = false) (hslash : c ≠ '/') (offset : Nat)
    (rest : Text) :
    codeChars .code offset (c :: rest) = (offset, c) :: codeChars .code (offset + 1) rest := by
  rw [codeChars, Mode.step_bare hquote hslash]

/-- The characters of code in a text. -/
def codeText (t : Text) : Text :=
  (code t).map Prod.snd

/-! ## Brackets -/

/-- How many brackets characters of code leave open. -/
def depthOf : Text → Int
  | [] => 0
  | c :: cs => bracketStep c + depthOf cs

/-- The first character counts for itself. -/
lemma depthOf_cons (c : Char) (cs : Text) : depthOf (c :: cs) = bracketStep c + depthOf cs :=
  rfl

/-- Neither an opening nor a closing bracket stands in a text. -/
def Unbracketed (u : Text) : Prop :=
  ∀ c ∈ u, isOpener c = false ∧ isCloser c = false

/-- A bare text without brackets is passed over in the search for a closing one. -/
lemma closingIn_append {u : Text} (hbare : Bare u) (hbrackets : Unbracketed u) (awaited : List Char)
    (offset : Nat) (rest : Text) :
    closingIn awaited (codeChars .code offset (u ++ rest)) =
      closingIn awaited (codeChars .code (offset + u.length) rest) := by
  induction u generalizing offset with
  | nil => rfl
  | cons c u ih =>
    obtain ⟨hquote, hslash⟩ := hbare c List.mem_cons_self
    obtain ⟨hopen, hclose⟩ := hbrackets c List.mem_cons_self
    have hnone : closerOf? c = none := by simpa [isOpener] using hopen
    have hrest := ih (fun d hd => hbare d (List.mem_cons_of_mem _ hd))
      (fun d hd => hbrackets d (List.mem_cons_of_mem _ hd)) (offset + 1)
    rw [List.cons_append, codeChars_bare_cons hquote hslash, closingIn.eq_def]
    simp only [hnone, hclose, Bool.false_eq_true, if_false]
    rw [hrest, List.length_cons, Nat.add_assoc, Nat.add_comm 1]

/-- The brace that closes a bare text without brackets is found. -/
lemma closing?_braces {inner : Text} (hbare : Bare inner) (hbrackets : Unbracketed inner)
    (front rest : Text) :
    closing? (front ++ '\x7b' :: (inner ++ '\x7d' :: rest)) front.length =
      some (front.length + 1 + inner.length) := by
  have hopen : closingIn [] (codeChars .code front.length ('\x7b' :: (inner ++ '\x7d' :: rest))) =
      closingIn ['\x7d'] (codeChars .code (front.length + 1) (inner ++ '\x7d' :: rest)) := rfl
  rw [closing?, codeFrom, List.drop_left, hopen, closingIn_append hbare hbrackets]
  rfl

/-- A character that is neither quote, slash, bracket nor comma belongs to the part that follows. -/
lemma splitTopLevel_cons {c : Char} {u : Text} (hbare : Bare (c :: u))
    (hbrackets : Unbracketed (c :: u)) (hcomma : ',' ∉ c :: u) (t : Text) :
    splitTopLevel (c :: t) ',' = consFirst c (splitTopLevel t ',') := by
  obtain ⟨hquote, hslash⟩ := hbare c List.mem_cons_self
  obtain ⟨hopen, hclose⟩ := hbrackets c List.mem_cons_self
  have hstep : bracketStep c = 0 := by simp [bracketStep, hopen, hclose]
  have hne : c ≠ ',' := by
    rintro rfl
    exact hcomma List.mem_cons_self
  rw [splitTopLevel, splitFrom, Mode.step_bare hquote hslash]
  simp only [hstep, hne, false_and, and_false, if_false, Int.add_zero]
  rfl

/-- The first comma behind a bare text without brackets ends the first part. -/
lemma splitTopLevel_append_cons {u : Text} (hbare : Bare u) (hbrackets : Unbracketed u)
    (hcomma : ',' ∉ u) (rest : Text) :
    splitTopLevel (u ++ ',' :: rest) ',' = u :: splitTopLevel rest ',' := by
  induction u with
  | nil => rfl
  | cons c u ih =>
    rw [List.cons_append, splitTopLevel_cons hbare hbrackets hcomma,
      ih (fun d hd => hbare d (List.mem_cons_of_mem _ hd))
        (fun d hd => hbrackets d (List.mem_cons_of_mem _ hd))
        (fun hmem => hcomma (List.mem_cons_of_mem _ hmem))]
    rfl

/-- Without a comma there is one part. -/
lemma splitTopLevel_of_not_mem {u : Text} (hbare : Bare u) (hbrackets : Unbracketed u)
    (hcomma : ',' ∉ u) : splitTopLevel u ',' = [u] := by
  induction u with
  | nil => rfl
  | cons c u ih =>
    rw [splitTopLevel_cons hbare hbrackets hcomma,
      ih (fun d hd => hbare d (List.mem_cons_of_mem _ hd))
        (fun d hd => hbrackets d (List.mem_cons_of_mem _ hd))
        (fun hmem => hcomma (List.mem_cons_of_mem _ hmem))]
    rfl

/-- Code that closes the brackets it opens, and no others, and has no semicolon outside of them. -/
structure Contained (cs : Text) : Prop where
  nested : ∀ front, front <+: cs → 0 ≤ depthOf front
  closed : depthOf cs = 0
  semicolon : ∀ front, front ++ [';'] <+: cs → depthOf front ≠ 0

/-- A statement is contained in its brackets, as can be seen from its fronts. -/
lemma contained_iff (cs : Text) : Contained cs ↔ (∀ front ∈ cs.inits, 0 ≤ depthOf front)
    ∧ depthOf cs = 0 ∧ ∀ front ∈ cs.inits, front ++ [';'] <+: cs → depthOf front ≠ 0 := by
  constructor
  · intro h
    exact ⟨fun front hfront => h.nested front ((List.mem_inits _ _).mp hfront), h.closed,
      fun front _ => h.semicolon front⟩
  · rintro ⟨hnested, hclosed, hsemicolon⟩
    refine ⟨fun front hfront => hnested front ((List.mem_inits _ _).mpr hfront), hclosed, ?_⟩
    intro front hfront
    exact hsemicolon front ((List.mem_inits _ _).mpr
      ((List.prefix_append front [';']).trans hfront)) hfront

instance (cs : Text) : Decidable (Contained cs) :=
  decidable_of_iff _ (contained_iff cs).symm

/-- The end of a statement is not found in code that stays inside brackets, or has neither semicolon
nor line break outside of them. -/
lemma statementStop?_append {ι : Type} (ends : ι → Bool) (depth : Nat) {cs : List (ι × Char)}
    (rest : List (ι × Char))
    (hnested : ∀ front, front <+: cs.map Prod.snd → 0 ≤ depth + depthOf front)
    (hsemicolon : ∀ front, front ++ [';'] <+: cs.map Prod.snd → depth + depthOf front ≠ 0)
    (hbreak : '\n' ∉ cs.map Prod.snd) :
    statementStop? ends depth (cs ++ rest) =
      statementStop? ends (depth + depthOf (cs.map Prod.snd)).toNat rest := by
  induction cs generalizing depth with
  | nil => simp [depthOf]
  | cons p cs ih =>
    obtain ⟨i, c⟩ := p
    rw [List.map_cons] at hnested hsemicolon hbreak ⊢
    dsimp only at hnested hsemicolon hbreak ⊢
    rw [List.mem_cons, not_or] at hbreak
    -- what is asked of the rest, once the depth behind the first character is known
    have hnext : ∀ depth' : Nat, (depth' : Int) = depth + bracketStep c →
        statementStop? ends depth' (cs ++ rest) =
          statementStop? ends (depth + depthOf (c :: cs.map Prod.snd)).toNat rest := by
      intro depth' hdepth
      rw [ih depth' ?_ ?_ hbreak.2]
      · rw [depthOf_cons, hdepth, Int.add_assoc]
      · intro front hfront
        have := hnested (c :: front) (List.cons_prefix_cons.mpr ⟨rfl, hfront⟩)
        rw [depthOf_cons] at this
        omega
      · intro front hfront
        have := hsemicolon (c :: front) (List.cons_prefix_cons.mpr ⟨rfl, hfront⟩)
        rw [depthOf_cons] at this
        omega
    have hstep : bracketStep c = if isOpener c then 1 else if isCloser c then -1 else 0 := rfl
    rw [List.cons_append, statementStop?.eq_def]
    dsimp only
    by_cases hopen : isOpener c = true
    · rw [if_pos hopen] at hstep ⊢
      exact hnext (depth + 1) (by rw [hstep]; rfl)
    rw [if_neg hopen] at hstep ⊢
    by_cases hclose : isCloser c = true
    · rw [if_pos hclose] at hstep ⊢
      have hfirst := hnested [c] (List.cons_prefix_cons.mpr ⟨rfl, List.nil_prefix⟩)
      rw [depthOf_cons, hstep] at hfirst
      cases depth with
      | zero => exact absurd hfirst (by decide)
      | succ d => exact hnext d (by rw [hstep]; push_cast; omega)
    rw [if_neg hclose] at hstep ⊢
    have hsign : ¬(depth = 0 ∧ c = ';') := by
      rintro ⟨rfl, rfl⟩
      exact hsemicolon [] (List.cons_prefix_cons.mpr ⟨rfl, List.nil_prefix⟩) rfl
    have hline : ¬(depth = 0 ∧ c = '\n' ∧ ends i = true) := by
      rintro ⟨-, rfl, -⟩
      exact hbreak.1 rfl
    rw [if_neg hsign, if_neg hline]
    exact hnext depth (by rw [hstep, Int.add_zero])

/-- **A statement ends at the semicolon behind a piece** of one line that closes what it opens and
has no semicolon outside brackets. -/
lemma statementEnd_append {v : Text} (hmode : modeAfter .code v = .code)
    (hcontained : Contained (codeText v)) (hbreak : '\n' ∉ v) (front rest : Text) :
    statementEnd (front ++ (v ++ ';' :: rest)) front.length =
      (front.length + v.length, front.length + v.length + 1) := by
  have hcalm : Calm (';' :: rest) := ⟨by simp, by simp⟩
  have hchars : (codeChars .code front.length v).map Prod.snd = codeText v :=
    map_snd_codeChars .code _ 0 v
  have hcode : codeFrom (front ++ (v ++ ';' :: rest)) front.length =
      codeChars .code front.length v ++
        (front.length + v.length, ';') :: codeChars .code (front.length + v.length + 1) rest := by
    rw [codeFrom, List.drop_left, codeChars_append _ _ _ hcalm, hmode]
    rfl
  have hnested : ∀ u, u <+: (codeChars .code front.length v).map Prod.snd →
      0 ≤ ((0 : Nat) : Int) + depthOf u := by
    simpa [hchars] using hcontained.nested
  have hstop := statementStop?_append (endsAtBreak (front ++ (v ++ ';' :: rest)) front.length) 0
    ((front.length + v.length, ';') :: codeChars .code (front.length + v.length + 1) rest)
    hnested (by simpa [hchars] using hcontained.semicolon)
    (fun hmem => hbreak (mem_of_mem_codeChars hmem))
  rw [hchars, hcontained.closed] at hstop
  rw [statementEnd, hcode, hstop]
  rfl

end Esmify.Source
