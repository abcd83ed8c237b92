import Esmify.Proofs.StatementStop

/-!
# The end of a statement

**Where a statement ends is well placed** (`statementEnd_eq_iff`). The two offsets that are found
are the only ones with these properties (`StatementSpan`): up to the first of them the code closes
no bracket that it has not opened, has no semicolon outside brackets, and goes on behind every line
break outside brackets. There the text ends, or all brackets are closed and there stands a
semicolon, a closing bracket, or a line break behind which the statement does not go on (`EndsAt`).
Only a semicolon belongs to the statement.

The code up to an offset is read from the text as if it ended there. That it is the same code as
inside the text (`codeBetween_eq`) needs that the offset is one of code: neither a comment mark nor
a literal runs over it. -/

namespace Esmify.Source

open Text

/-! ## Going on behind a line break -/

/-- A statement that has come to `head` goes on behind the line break that `rest` begins with:
nothing but white space and comments stands in front of it, or the last character in front keeps it
going, or the first one behind goes on with it. -/
def Continues (head rest : Text) : Prop :=
  (∀ c ∈ (trimEnd (stripComments head)).getLast?, keepsGoing c = true)
    ∨ ∃ c ∈ (trimStart rest).head?, goesOn c = true

/-- No statement goes on with a comment mark. -/
lemma beginsAnew_eq_false_iff {t : Text} :
    beginsAnew t = false ↔ ∃ c ∈ (trimStart t).head?, goesOn c = true := by
  have hslash : goesOn '/' = false := by decide
  unfold beginsAnew
  split
  · next hcomment => simp [hcomment, hslash]
  · next hcomment => simp [hcomment, hslash]
  · next hfirst => simp [hfirst]
  · next hempty => simp [hempty]

/-- **A statement ends at a line break behind which it does not go on.** -/
lemma endsBetween_eq_false_iff {head rest : Text} :
    endsBetween head rest = false ↔ Continues head rest := by
  unfold endsBetween Continues
  rw [← beginsAnew_eq_false_iff]
  cases (trimEnd (stripComments head)).getLast? with
  | none => simp
  | some last =>
    change (!keepsGoing last && beginsAnew rest) = false ↔ _
    simp only [Bool.and_eq_false_iff, Bool.not_eq_false', Option.mem_def,
      Option.some.injEq, forall_eq']

/-! ## The search that finds no end -/

section Search

variable {ι : Type} {ends : ι → Bool} {cs : List (ι × Char)}

/-- Code in which a statement does not end has no place in it at which one could. -/
lemma not_terminator {front back : List (ι × Char)} {i : ι} {c : Char}
    (h : statementStop? ends 0 (front ++ (i, c) :: back) = none)
    (hdepth : depthOf (front.map Prod.snd) = 0) :
    ¬(c = ';' ∨ isCloser c = true ∨ (c = '\n' ∧ ends i = true)) := by
  intro hc
  obtain ⟨semicolon, hsome⟩ := statementStop?_isSome back hc
  rw [statementStop?_append_or, Option.or_eq_none_iff, hdepth] at h
  exact absurd (hsome.symm.trans h.2) (by simp)

/-- **A statement does not end in some code** when the code closes no bracket that it has not
opened, has no semicolon outside brackets, and no line break outside brackets ends the statement. -/
lemma statementStop?_eq_none_iff : statementStop? ends 0 cs = none ↔
    (∀ front, front <+: cs.map Prod.snd → 0 ≤ depthOf front)
      ∧ (∀ front, front ++ [';'] <+: cs.map Prod.snd → depthOf front ≠ 0)
      ∧ ∀ front i back, cs = front ++ (i, '\n') :: back → depthOf (front.map Prod.snd) = 0 →
        ends i = false := by
  constructor
  · intro h
    refine ⟨?_, ?_, ?_⟩
    · intro front hfront
      obtain ⟨read, ⟨back, rfl⟩, rfl⟩ := List.prefix_map_iff.mp hfront
      rw [statementStop?_append_or, Option.or_eq_none_iff] at h
      simpa using depth_of_statementStop?_eq_none h.1
    · intro front hfront hdepth
      obtain ⟨read, ⟨back, rfl⟩, hread⟩ := List.prefix_map_iff.mp hfront
      obtain ⟨inFront, last, rfl, rfl, hlast⟩ := List.append_eq_map_iff.mp hread
      obtain ⟨⟨i, c⟩, rfl, rfl⟩ := List.map_eq_singleton_iff.mp hlast
      rw [List.append_assoc] at h
      exact not_terminator h hdepth (Or.inl rfl)
    · rintro front i back rfl hdepth
      have hnot := not_terminator h hdepth
      rw [← Bool.not_eq_true]
      exact fun hends => hnot (Or.inr (Or.inr ⟨rfl, hends⟩))
  · rintro ⟨hnested, hsemicolon, hbreak⟩
    cases hstop : statementStop? ends 0 cs with
    | none => rfl
    | some p =>
      obtain ⟨i, semicolon⟩ := p
      obtain ⟨front, c, back, rfl, -, hdepth, hc, -⟩ := statementStop?_eq_some hstop
      have hclosed : depthOf (front.map Prod.snd) = 0 := by omega
      have hprefix : front.map Prod.snd ++ [c] <+: (front ++ (i, c) :: back).map Prod.snd :=
        ⟨back.map Prod.snd, by simp⟩
      rcases hc with rfl | hclose | ⟨rfl, hends⟩
      · exact absurd hclosed (hsemicolon _ hprefix)
      · have hle := hnested _ hprefix
        rw [depthOf_append, hclosed, depthOf_cons, (bracketStep_of_isCloser hclose).1] at hle
        exact absurd hle (by decide)
      · rw [hbreak front i back rfl hclosed] at hends
        exact absurd hends (by decide)

end Search

/-! ## Code up to an offset -/

section Between

variable {t : Text} {start : Nat}

/-- The code between two offsets is that of the text between them. -/
lemma map_snd_codeBetween (stop : Nat) :
    (codeBetween t start stop).map Prod.snd = codeText (t.slice start stop) :=
  map_snd_codeChars .code start 0 _

/-- The depth of the code between two offsets is that of the text between them. -/
lemma depthOf_codeBetween (stop : Nat) :
    depthOf ((codeBetween t start stop).map Prod.snd) = bracketDepth (t.slice start stop) := by
  rw [map_snd_codeBetween, bracketDepth_eq]
  rfl

/-- The code up to the end of the text is all of it. -/
lemma codeBetween_length : codeBetween t start t.length = codeFrom t start := by
  rw [codeBetween, List.take_length]

/-- **The code in front of a character of code is the code up to its offset.** -/
lemma codeBetween_eq {i : Nat} {c : Char} {front back : List (Nat × Char)}
    (h : codeFrom t start = front ++ (i, c) :: back) :
    codeBetween t start i = front ∧ start ≤ i ∧ t[i]? = some c := by
  obtain ⟨u, v, hdrop, rfl, rfl, -⟩ := exists_of_codeChars_eq h
  have htake : (t.take (start + u.length)).drop start = u := by
    rw [List.drop_take, hdrop, Nat.add_sub_cancel_left, List.take_left]
  refine ⟨?_, Nat.le_add_right _ _, ?_⟩
  · rw [codeBetween, codeFrom, htake]
  · rw [← List.getElem?_drop, hdrop, List.getElem?_append_right le_rfl, Nat.sub_self]
    rfl

end Between

/-! ## The end of a statement -/

/-- What ends the statement from `start` at the offset `e`, and where the statement is over then. -/
inductive EndsAt (t : Text) (start e : Nat) : (s : Nat) → Prop
  | semicolon : t[e]? = some ';' → EndsAt t start e (e + 1)
  | bracket {c : Char} : t[e]? = some c → isCloser c = true → EndsAt t start e e
  | lineBreak : t[e]? = some '\n' → ¬Continues (t.slice start e) (t.drop e) → EndsAt t start e e

/-- **The extent of a statement**: its expression runs from `start` to `e` and the statement itself
to `s`. -/
structure StatementSpan (t : Text) (start e s : Nat) : Prop where
  start_le : start ≤ e
  le_stop : e ≤ s
  stop_le : s ≤ t.length
  /-- No bracket is closed that has not been opened. -/
  nested : ∀ front, front <+: codeText (t.slice start e) → 0 ≤ depthOf front
  /-- No semicolon stands outside brackets. -/
  semicolon : ∀ front, front ++ [';'] <+: codeText (t.slice start e) → depthOf front ≠ 0
  /-- Behind a line break outside brackets the statement goes on. -/
  lineBreak : ∀ front i back, codeBetween t start e = front ++ (i, '\n') :: back →
    depthOf (front.map Prod.snd) = 0 → Continues (t.slice start i) (t.drop i)
  /-- In front of the end of the text all brackets are closed. -/
  closed : e < t.length → bracketDepth (t.slice start e) = 0
  /-- In front of the end of the text a character of code ends the statement. -/
  ended : e < t.length → e ∈ (codeFrom t start).map Prod.fst ∧ EndsAt t start e s
  /-- At the end of the text the statement is over. -/
  whole : e = t.length → s = e

/-- What ends a statement, said by the character that stands there. -/
lemma endsAt_iff {t : Text} {start e s : Nat} {c : Char} (hget : t[e]? = some c) :
    EndsAt t start e s ↔
      (c = ';' ∨ isCloser c = true ∨ (c = '\n' ∧ endsAtBreak t start e = true))
        ∧ s = if c = ';' then e + 1 else e := by
  have hbreak : endsAtBreak t start e = true ↔ ¬Continues (t.slice start e) (t.drop e) := by
    rw [← endsBetween_eq_false_iff, Bool.not_eq_false]
    rfl
  rw [hbreak]
  constructor
  · rintro (hsemicolon | ⟨hbracket, hclose⟩ | ⟨hline, hends⟩)
    · obtain rfl := Option.some.inj (hget.symm.trans hsemicolon)
      exact ⟨Or.inl rfl, rfl⟩
    · obtain rfl := Option.some.inj (hget.symm.trans hbracket)
      obtain ⟨-, -, -, -, hne⟩ := bracketStep_of_isCloser hclose
      exact ⟨Or.inr (Or.inl hclose), (if_neg hne).symm⟩
    · obtain rfl := Option.some.inj (hget.symm.trans hline)
      exact ⟨Or.inr (Or.inr ⟨rfl, hends⟩), rfl⟩
  · rintro ⟨rfl | hclose | ⟨rfl, hends⟩, rfl⟩
    · exact .semicolon hget
    · obtain ⟨-, -, -, -, hne⟩ := bracketStep_of_isCloser hclose
      rw [if_neg hne]
      exact .bracket hget hclose
    · exact .lineBreak hget hends

/-- The extent of a statement has no end of one in it. -/
lemma stop_codeBetween_eq_none_iff {t : Text} {start e : Nat} :
    statementStop? (endsAtBreak t start) 0 (codeBetween t start e) = none ↔
      (∀ front, front <+: codeText (t.slice start e) → 0 ≤ depthOf front)
        ∧ (∀ front, front ++ [';'] <+: codeText (t.slice start e) → depthOf front ≠ 0)
        ∧ ∀ front i back, codeBetween t start e = front ++ (i, '\n') :: back →
          depthOf (front.map Prod.snd) = 0 → Continues (t.slice start i) (t.drop i) := by
  simp only [statementStop?_eq_none_iff, map_snd_codeBetween, endsAtBreak, endsBetween_eq_false_iff]

section Extent

variable {t : Text} {start e s : Nat}

/-- **Where the search stops**: at a character of code, up to which it does not stop and all
brackets are closed. -/
lemma exists_terminator {i : Nat} {semicolon : Bool}
    (h : statementStop? (endsAtBreak t start) 0 (codeFrom t start) = some (i, semicolon)) :
    ∃ c, (i, c) ∈ codeFrom t start ∧ start ≤ i ∧ t[i]? = some c
      ∧ statementStop? (endsAtBreak t start) 0 (codeBetween t start i) = none
      ∧ bracketDepth (t.slice start i) = 0
      ∧ (c = ';' ∨ isCloser c = true ∨ (c = '\n' ∧ endsAtBreak t start i = true))
      ∧ statementEnd t start = (i, if c = ';' then i + 1 else i) := by
  obtain ⟨front, c, back, hcode, hnone, hdepth, hc, hsemicolon⟩ := statementStop?_eq_some h
  obtain ⟨rfl, hle, hget⟩ := codeBetween_eq hcode
  refine ⟨c, ?_, hle, hget, hnone, ?_, hc, ?_⟩
  · rw [hcode]
    exact List.mem_append_right _ List.mem_cons_self
  · rw [← depthOf_codeBetween]
    omega
  · unfold statementEnd
    rw [h, hsemicolon]
    by_cases hchar : c = ';'
    · subst hchar
      rfl
    · rw [beq_false_of_ne hchar, if_neg hchar]

/-- A statement that nothing ends runs to the end of the text. -/
lemma StatementSpan.of_none (hstart : start ≤ t.length)
    (h : statementStop? (endsAtBreak t start) 0 (codeFrom t start) = none) :
    StatementSpan t start t.length t.length := by
  rw [← codeBetween_length, stop_codeBetween_eq_none_iff] at h
  obtain ⟨hnested, hsemicolon, hbreak⟩ := h
  exact ⟨hstart, le_rfl, le_rfl, hnested, hsemicolon, hbreak, fun hlt => absurd hlt (lt_irrefl _),
    fun hlt => absurd hlt (lt_irrefl _), fun _ => rfl⟩

/-- A statement that something ends runs to it. -/
lemma StatementSpan.of_some {i : Nat} {semicolon : Bool} (hend : statementEnd t start = (e, s))
    (h : statementStop? (endsAtBreak t start) 0 (codeFrom t start) = some (i, semicolon)) :
    StatementSpan t start e s := by
  obtain ⟨c, hmem, hle, hget, hnone, hclosed, hc, hfound⟩ := exists_terminator h
  obtain ⟨rfl, hs⟩ := Prod.mk.inj (hfound.symm.trans hend)
  obtain ⟨hnested, hsemicolon, hbreak⟩ := stop_codeBetween_eq_none_iff.mp hnone
  obtain ⟨hlt, -⟩ := List.getElem?_eq_some_iff.mp hget
  have hbounds : i ≤ s ∧ s ≤ t.length := by
    rw [← hs]
    split_ifs
    all_goals omega
  exact ⟨hle, hbounds.1, hbounds.2, hnested, hsemicolon, hbreak, fun _ => hclosed,
    fun _ => ⟨List.mem_map_of_mem hmem, (endsAt_iff hget).mpr ⟨hc, hs.symm⟩⟩, fun heq => by omega⟩

/-- **The extent of a statement is found.** -/
lemma StatementSpan.statementEnd_eq (h : StatementSpan t start e s) :
    statementEnd t start = (e, s) := by
  have hnone : statementStop? (endsAtBreak t start) 0 (codeBetween t start e) = none :=
    stop_codeBetween_eq_none_iff.mpr ⟨h.nested, h.semicolon, h.lineBreak⟩
  rcases (h.le_stop.trans h.stop_le).lt_or_eq with hlt | rfl
  · obtain ⟨hmem, hends⟩ := h.ended hlt
    obtain ⟨⟨i, c⟩, hpair, heq⟩ := List.mem_map.mp hmem
    obtain rfl : i = e := heq
    obtain ⟨front, back, hcode⟩ := List.append_of_mem hpair
    obtain ⟨rfl, -, hget⟩ := codeBetween_eq hcode
    obtain ⟨hc, rfl⟩ := (endsAt_iff hget).mp hends
    -- the search comes to the character with no bracket open, and stops there
    obtain ⟨semicolon, hsome⟩ := statementStop?_isSome back hc
    have hstop : statementStop? (endsAtBreak t start) 0 (codeFrom t start)
        = some (i, semicolon) := by
      rw [hcode, statementStop?_append_or, hnone, depthOf_codeBetween, h.closed hlt]
      exact hsome
    obtain ⟨d, -, -, hget', -, -, -, hfound⟩ := exists_terminator hstop
    obtain rfl := Option.some.inj (hget.symm.trans hget')
    exact hfound
  · rw [codeBetween_length] at hnone
    unfold statementEnd
    rw [hnone, h.whole rfl]

end Extent

/-- **The end of a statement is well placed.** The offsets that are found are those to which the
expression and the statement run, and no others. -/
theorem statementEnd_eq_iff {t : Text} {start e s : Nat} (hstart : start ≤ t.length) :
    statementEnd t start = (e, s) ↔ StatementSpan t start e s := by
  refine ⟨fun h => ?_, StatementSpan.statementEnd_eq⟩
  cases hstop : statementStop? (endsAtBreak t start) 0 (codeFrom t start) with
  | none =>
    obtain ⟨rfl, rfl⟩ : t.length = e ∧ t.length = s := by
      unfold statementEnd at h
      rw [hstop] at h
      exact Prod.mk.inj h
    exact .of_none hstart hstop
  | some p => exact .of_some h hstop

/-- A semicolon in a string, one in brackets, and a line break behind which the statement goes on do
not end it. -/
theorem statementEnd_eq_iff_broken :
    StatementSpan "a = ';' // b\n  + f(c; d)\n\x7d".toList 4 24 24
      ∧ StatementSpan "if (x[0] /* ; */) ; y".toList 3 18 19 :=
  ⟨(statementEnd_eq_iff (by decide)).mp (by decide),
    (statementEnd_eq_iff (by decide)).mp (by decide)⟩

end Esmify.Source
