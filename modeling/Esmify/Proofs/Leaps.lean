import Esmify.Proofs.Balance

/-!
# Literals and comments as a whole

Comments and literals are told from code one character at a time, by a machine with a few modes.
**They can as well be left as a whole**: `leap` measures the literal or comment that a text begins
with.

`Passes` says that reading passes over a number of characters, all of them of one region, and is
back in code behind them. A line comment, a literal and a block comment are passed over, each by an
induction of its own, and so is what `leap` measures (`passes_leap`). What is read of the code and
what is left without comments both follow from that: one turn reads a character of code, or goes on
behind the leap (`codeFrom_turn`, `stripComments_turn`). -/

namespace Esmify.Source

open Text

/-! ## Measuring -/

/-- How many characters of a text belong to a literal that `quote` has opened in front of it. A
backslash takes the character behind it along, and the literal ends in front of a line break unless
it is a template. -/
def literalRest (quote : Char) : Text → Nat
  | [] => 0
  | c :: cs =>
    if c = '\\' then
      match cs with
      | [] => 1
      | _ :: cs => literalRest quote cs + 2
    else if c = quote then 1
    else if c = '\n' ∧ quote ≠ templateQuote then 0
    else literalRest quote cs + 1

/-- How many characters of a text belong to a block comment that has been opened in front of it. -/
def blockRest (t : Text) : Nat :=
  match indexOf? ['*', '/'] t with
  | some i => i + 2
  | none => t.length

/-- How many characters the literal or comment has that a text begins with; none when it begins with
code. -/
def leap : Text → Nat
  | '/' :: '/' :: cs => (cs.takeWhile (· != '\n')).length + 2
  | '/' :: '*' :: cs => blockRest cs + 2
  | c :: cs => if isQuote c then literalRest c cs + 1 else 0
  | [] => 0

/-! ## Passing over -/

/-- **Reading in mode `m` passes over `k` characters of a region** and comes back to code behind
them, or to the end of the text. -/
inductive Passes (region : Region) : Mode → Text → Nat → Prop
  | ended (m : Mode) (k : Nat) : Passes region m [] k
  | back (t : Text) : Passes region .code t 0
  | stopped {m m' : Mode} {c : Char} {cs : Text} (hstep : m.step c cs.head? = (.code, m')) :
    Passes region m (c :: cs) 0
  | past {m m' : Mode} {c : Char} {cs : Text} {k : Nat} (hstep : m.step c cs.head? = (region, m'))
    (h : Passes region m' cs k) : Passes region m (c :: cs) (k + 1)

/-- **What a mode finds to be code, reading that begins there finds too.** -/
lemma Mode.step_code_of_code {m m' : Mode} {c : Char} {next : Option Char}
    (h : m.step c next = (.code, m')) : Mode.code.step c next = (.code, .code) := by
  obtain ⟨rfl, hmode⟩ := Mode.step_eq_code h
  by_cases hbreak : c = '\n'
  · rw [hbreak]
    exact Mode.step_bare (by decide) (by decide) next
  · rwa [hmode hbreak] at h

/-- What is passed over has no code in it. -/
lemma Passes.codeChars {region : Region} {m : Mode} {t : Text} {k : Nat} (h : Passes region m t k)
    (hregion : region ≠ .code) (offset : Nat) :
    codeChars m offset t = codeChars .code (offset + k) (t.drop k) := by
  induction h generalizing offset with
  | ended m k =>
    rw [List.drop_nil]
    rfl
  | back t => rfl
  | stopped hstep =>
    rw [Source.codeChars, hstep, (Mode.step_eq_code hstep).1, List.drop_zero, Source.codeChars,
      Mode.step_code_of_code hstep]
    rfl
  | @past m m' c cs k hstep h ih =>
    have hrest : Source.codeChars m offset (c :: cs) = Source.codeChars m' (offset + 1) cs := by
      rw [Source.codeChars, hstep]
      cases region with
      | code => exact absurd rfl hregion
      | comment => rfl
      | literal => rfl
    rw [hrest, ih (offset + 1), List.drop_succ_cons, Nat.add_assoc, Nat.add_comm 1]

/-- A comment that is passed over is gone when comments are taken out. -/
lemma Passes.stripFrom_comment {m : Mode} {t : Text} {k : Nat} (h : Passes .comment m t k) :
    stripFrom m t = stripFrom .code (t.drop k) := by
  induction h with
  | ended m k =>
    rw [List.drop_nil]
    rfl
  | back t => rfl
  | stopped hstep =>
    rw [stripFrom, hstep, (Mode.step_eq_code hstep).1, List.drop_zero, stripFrom,
      Mode.step_code_of_code hstep]
  | past hstep h ih => rw [stripFrom, hstep, List.drop_succ_cons, ← ih]

/-- A literal that is passed over stays when comments are taken out. -/
lemma Passes.stripFrom_literal {m : Mode} {t : Text} {k : Nat} (h : Passes .literal m t k) :
    stripFrom m t = t.take k ++ stripFrom .code (t.drop k) := by
  induction h with
  | ended m k =>
    rw [List.drop_nil, List.take_nil]
    rfl
  | back t => rfl
  | stopped hstep =>
    rw [stripFrom, hstep, (Mode.step_eq_code hstep).1, List.drop_zero, stripFrom,
      Mode.step_code_of_code hstep]
    rfl
  | past hstep h ih =>
    rw [stripFrom, hstep, List.drop_succ_cons, List.take_succ_cons, List.cons_append, ← ih]

/-- **A line comment is left in front of the line break that ends it.** -/
lemma passes_lineComment (t : Text) :
    Passes .comment .lineComment t (t.takeWhile (· != '\n')).length := by
  induction t with
  | nil => exact .ended _ _
  | cons c cs ih =>
    by_cases hbreak : c = '\n'
    · have hstep : Mode.lineComment.step c cs.head? = (.code, .code) := if_pos hbreak
      rw [List.takeWhile_cons_of_neg (by simp [hbreak])]
      exact .stopped hstep
    · have hstep : Mode.lineComment.step c cs.head? = (.comment, .lineComment) := if_neg hbreak
      rw [List.takeWhile_cons_of_pos (by simp [hbreak])]
      exact .past hstep ih

/-- **A literal is left behind its closing quote**, or in front of the line break that ends it. -/
lemma passes_literal (quote : Char) (t : Text) :
    Passes .literal (.literal quote) t (literalRest quote t) := by
  fun_induction literalRest quote t with
  | case1 => exact .ended _ _
  | case2 => exact .past rfl (.ended _ _)
  | case3 d cs ih =>
    -- the character behind the backslash is passed over, whatever it is
    have hescaped : (Mode.escaped quote).step d cs.head? = (.literal, .literal quote) := rfl
    have hescape : (Mode.literal quote).step '\\' (d :: cs).head?
        = (.literal, .escaped quote) := rfl
    exact .past hescape (.past hescaped ih)
  | case4 cs hescape =>
    have hstep : (Mode.literal quote).step quote cs.head? = (.literal, .code) := by
      simp [Mode.step, hescape]
    exact .past hstep (.back cs)
  | case5 c cs hescape hquote hbreak =>
    obtain ⟨rfl, htemplate⟩ := hbreak
    have hstep : (Mode.literal quote).step '\n' cs.head? = (.code, .code) := by
      simp [Mode.step, hquote, htemplate]
    exact .stopped hstep
  | case6 c cs hescape hquote hbreak ih =>
    have hstep : (Mode.literal quote).step c cs.head? = (.literal, .literal quote) := by
      simp [Mode.step, hescape, hquote, hbreak]
    exact .past hstep ih

/-- A block comment goes on behind a character that does not begin the mark that closes it. -/
lemma blockRest_cons {c : Char} {cs : Text} (h : ¬(c = '*' ∧ cs.head? = some '/')) :
    blockRest (c :: cs) = blockRest cs + 1 := by
  have hmark : ¬['*', '/'].isPrefixOf (c :: cs) = true := by
    rw [List.isPrefixOf_iff_prefix]
    rintro ⟨rest, hrest⟩
    obtain ⟨rfl, rfl⟩ := List.cons.inj hrest
    exact h ⟨rfl, rfl⟩
  unfold blockRest
  rw [indexOf?, if_neg hmark]
  cases indexOf? ['*', '/'] cs with
  | none => rfl
  | some i => exact Nat.add_right_comm i 1 2

/-- **A block comment is left behind the mark that closes it.** -/
lemma passes_blockComment (t : Text) : Passes .comment .blockComment t (blockRest t) := by
  induction t with
  | nil => exact .ended _ _
  | cons c cs ih =>
    by_cases hclose : c = '*' ∧ cs.head? = some '/'
    · obtain ⟨rfl, hslash⟩ := hclose
      obtain ⟨rest, rfl⟩ := List.head?_eq_some_iff.mp hslash
      have hlast : Mode.commentClosing.step '/' rest.head? = (.comment, .code) := rfl
      have hstar : Mode.blockComment.step '*' ('/' :: rest).head?
          = (.comment, .commentClosing) := rfl
      exact .past hstar (.past hlast (.back rest))
    · have hstep : Mode.blockComment.step c cs.head? = (.comment, .blockComment) := if_neg hclose
      rw [blockRest_cons hclose]
      exact .past hstep ih

/-- **The literal or comment that a text begins with is passed over.** A quote begins a literal. -/
lemma passes_leap (c : Char) (cs : Text) :
    Passes (if isQuote c = true then .literal else .comment) .code (c :: cs) (leap (c :: cs)) := by
  generalize hregion : (if isQuote c = true then Region.literal else .comment) = region
  unfold leap
  split
  · next rest heq =>
    obtain ⟨rfl, rfl⟩ := List.cons.inj heq
    obtain rfl : Region.comment = region := hregion
    have hsecond : Mode.lineComment.step '/' rest.head? = (.comment, .lineComment) := rfl
    have hfirst : Mode.code.step '/' ('/' :: rest).head? = (.comment, .lineComment) := rfl
    exact .past hfirst (.past hsecond (passes_lineComment rest))
  · next rest heq =>
    obtain ⟨rfl, rfl⟩ := List.cons.inj heq
    obtain rfl : Region.comment = region := hregion
    have hsecond : Mode.commentOpening.step '*' rest.head? = (.comment, .blockComment) := rfl
    have hfirst : Mode.code.step '/' ('*' :: rest).head? = (.comment, .commentOpening) := rfl
    exact .past hfirst (.past hsecond (passes_blockComment rest))
  · next heq =>
    obtain ⟨rfl, rfl⟩ := List.cons.inj heq
    split_ifs at hregion ⊢ with hquote
    · subst hregion
      have hstep : Mode.code.step c cs.head? = (.literal, .literal c) := if_pos hquote
      exact .past hstep (passes_literal c cs)
    · exact .back _
  · next heq => cases heq

/-- Where there is nothing to leap over, a character of code is read. -/
lemma step_of_leap_eq_zero {c : Char} {cs : Text} (h : leap (c :: cs) = 0) :
    Mode.code.step c cs.head? = (.code, .code) := by
  unfold leap at h
  split at h
  · cases h
  · cases h
  · next hline hblock heq =>
    obtain ⟨rfl, rfl⟩ := List.cons.inj heq
    split_ifs at h with hquote
    have hslashes : ¬(c = '/' ∧ cs.head? = some '/') := by
      rintro ⟨rfl, hhead⟩
      obtain ⟨rest, rfl⟩ := List.head?_eq_some_iff.mp hhead
      exact hline rest rfl rfl
    have hopening : ¬(c = '/' ∧ cs.head? = some '*') := by
      rintro ⟨rfl, hhead⟩
      obtain ⟨rest, rfl⟩ := List.head?_eq_some_iff.mp hhead
      exact hblock rest rfl rfl
    rw [Mode.step, if_neg hquote, if_neg hslashes, if_neg hopening]
  · next heq => cases heq

/-! ## Turns -/

/-- **One turn of the reading**: a character of code is read, or a literal or comment is leapt
over. -/
lemma codeFrom_turn {t : Text} {start : Nat} {c : Char} (h : t[start]? = some c) :
    codeFrom t start =
      if leap (t.drop start) = 0 then (start, c) :: codeFrom t (start + 1)
      else codeFrom t (start + leap (t.drop start)) := by
  obtain ⟨hlt, hc⟩ := List.getElem?_eq_some_iff.mp h
  have hdrop : t.drop start = c :: t.drop (start + 1) := by rw [List.drop_eq_getElem_cons hlt, hc]
  split_ifs with hleap
  · rw [hdrop] at hleap
    rw [codeFrom, hdrop, codeChars, step_of_leap_eq_zero hleap]
    rfl
  · have hregion : (if isQuote c = true then Region.literal else .comment) ≠ .code := by
      split_ifs <;> decide
    rw [hdrop] at hleap ⊢
    rw [codeFrom, hdrop, (passes_leap c (t.drop (start + 1))).codeChars hregion, ← hdrop,
      List.drop_drop]
    rfl

/-- **One turn of taking comments out**: a literal is kept as a whole, a comment is left out as a
whole, and a character of code is kept. -/
lemma stripComments_turn (c : Char) (cs : Text) : stripComments (c :: cs) =
    if isQuote c = true then
      (c :: cs).take (leap (c :: cs)) ++ stripComments ((c :: cs).drop (leap (c :: cs)))
    else if leap (c :: cs) = 0 then c :: stripComments cs
    else stripComments ((c :: cs).drop (leap (c :: cs))) := by
  have hleap := passes_leap c cs
  unfold stripComments
  split_ifs with hquote hzero
  · rw [if_pos hquote] at hleap
    exact hleap.stripFrom_literal
  · rw [stripFrom, step_of_leap_eq_zero hzero]
  · rw [if_neg hquote] at hleap
    exact hleap.stripFrom_comment

end Esmify.Source
