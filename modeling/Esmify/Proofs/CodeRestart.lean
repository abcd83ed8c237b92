import Esmify.Source.FromEnd
import Esmify.Proofs.Leaps
import Esmify.Proofs.Nesting
import Esmify.Proofs.StatementEnd

/-!
# Cutting the reading of code and taking it up again

**Reading code can be cut and taken up again at any place of code** (`codeFrom_restarts`). What
stands in front of a character of code is read as if the text ended there, and what is left as if
the reading began there (`codeFrom_cut`): no comment mark, escape or literal reaches over such a
place. So a piece that is cut out of a text from one place of code to another is read as it is read
inside the text.

Literals and comments are left as a whole (`codeFrom_turn`). A place inside of one may look like
code, with nothing to leap over, and is no place to cut at (`mem_codeFrom_iff`), as reading from
there is not in step with reading from further in front.

Reading up to an offset does not look at what stands behind it. **It is reading the text that ends
there** (`codeUpTo_eq`), be the offset one of code or not.

All offsets count from the front. An index below zero counts from the end of a text and so stands
for another place in a text that is cut. **Reading from there runs over the end of the text**
(`codeFromEnd?_eq`): the last characters are read first, and then the text from its front, unless a
comment begins among the last characters. -/

namespace Esmify.Source

open Text

/-! ## The reading, cut and taken up again -/

/-- **What is left of the code is read by beginning at its first character.** -/
lemma codeChars_restart {m : Mode} {offset i : Nat} {t : Text} {c : Char}
    {front back : List (Nat × Char)} (h : codeChars m offset t = front ++ (i, c) :: back) :
    codeChars .code i (t.drop (i - offset)) = (i, c) :: back := by
  induction t generalizing m offset front with
  | nil => simp [codeChars] at h
  | cons d t ih =>
    rcases hstep : m.step d t.head? with ⟨region, m'⟩
    -- the character stands further behind
    have hbehind : ∀ {front'}, codeChars m' (offset + 1) t = front' ++ (i, c) :: back →
        codeChars .code i ((d :: t).drop (i - offset)) = (i, c) :: back := by
      intro front' hrest
      have hmem : (i, c) ∈ codeChars m' (offset + 1) t := by
        rw [hrest]
        exact List.mem_append_right _ List.mem_cons_self
      have hlt : offset + 1 ≤ i := (codeChars_bounds _ hmem).1
      have hdrop : i - offset = i - (offset + 1) + 1 := by omega
      rw [hdrop, List.drop_succ_cons]
      exact ih hrest
    rw [codeChars, hstep] at h
    cases region with
    | code =>
      cases front with
      | nil =>
        obtain ⟨hpair, rfl⟩ := List.cons.inj h
        obtain ⟨rfl, rfl⟩ := Prod.mk.inj hpair
        rw [Nat.sub_self, List.drop_zero, codeChars, Mode.step_code_of_code hstep,
          (Mode.step_eq_code hstep).1]
      | cons p front => exact hbehind (List.cons.inj h).2
    | comment => exact hbehind h
    | literal => exact hbehind h

section Restart

variable {t : Text} {start : Nat}

/-- **Reading can be cut at a character of code**: what stands in front of it is read as if the text
ended there, and what is left as if the reading began there. -/
lemma codeFrom_cut {e : Nat} {c : Char} (h : (e, c) ∈ codeFrom t start) :
    t[e]? = some c ∧ (e, c) ∈ codeFrom t e
      ∧ codeFrom t start = codeFrom (t.take e) start ++ codeFrom t e := by
  obtain ⟨front, back, hcode⟩ := List.append_of_mem h
  obtain ⟨hfront, hle, hget⟩ := codeBetween_eq hcode
  have hback : codeFrom t e = (e, c) :: back := by
    have hrestart := codeChars_restart hcode
    rwa [List.drop_drop, Nat.add_sub_cancel' hle] at hrestart
  refine ⟨hget, ?_, ?_⟩
  · rw [hback]
    exact List.mem_cons_self
  · calc codeFrom t start = front ++ (e, c) :: back := hcode
      _ = codeFrom (t.take e) start ++ codeFrom t e := by rw [← hfront, hback, codeBetween]

/-- **The places of code** are those with nothing to leap over at which the reading can be cut. -/
lemma mem_codeFrom_iff {e : Nat} : e ∈ (codeFrom t start).map Prod.fst ↔
    e < t.length ∧ leap (t.drop e) = 0
      ∧ codeFrom t start = codeFrom (t.take e) start ++ codeFrom t e := by
  constructor
  · intro h
    obtain ⟨⟨i, c⟩, hmem, rfl⟩ := List.mem_map.mp h
    obtain ⟨hget, hhere, hcut⟩ := codeFrom_cut hmem
    obtain ⟨hlt, -⟩ := List.getElem?_eq_some_iff.mp hget
    refine ⟨hlt, ?_, hcut⟩
    -- behind a leap no offset is as small as this one
    by_contra hleap
    rw [codeFrom_turn hget, if_neg hleap] at hhere
    have hle := (codeChars_bounds _ hhere).1
    dsimp only at hle hleap
    omega
  · rintro ⟨hlt, hleap, hcut⟩
    have hturn := codeFrom_turn (List.getElem?_eq_getElem hlt)
    rw [hcut, hturn, if_pos hleap, List.map_append]
    exact List.mem_append_right _ List.mem_cons_self

end Restart

/-- **Reading up to an offset is reading the text up to there.** -/
lemma codeUpTo_eq (stop : Nat) (m : Mode) (offset : Nat) (t : Text) :
    codeUpTo stop m offset t = codeChars m offset (t.take (stop - offset)) := by
  induction t generalizing m offset with
  | nil =>
    rw [List.take_nil]
    rfl
  | cons c cs ih =>
    rw [codeUpTo]
    by_cases hstop : offset < stop
    · have hlength : stop - offset = stop - (offset + 1) + 1 := by omega
      -- the last character in front of `stop` has nothing behind it in the text that ends there
      have hnext : (if offset + 1 < stop then cs.head? else none)
          = (cs.take (stop - (offset + 1))).head? := by
        rw [List.head?_take]
        by_cases hlast : offset + 1 < stop
        · rw [if_pos hlast, if_neg (by omega)]
        · rw [if_neg hlast, if_pos (by omega)]
      rw [if_pos hstop, hlength, List.take_succ_cons, codeChars, hnext]
      rcases m.step c (cs.take (stop - (offset + 1))).head? with ⟨region, m'⟩
      cases region with
      | code => exact congrArg ((offset, c) :: ·) (ih m' (offset + 1))
      | comment => exact ih m' (offset + 1)
      | literal => exact ih m' (offset + 1)
    · rw [if_neg hstop, Nat.sub_eq_zero_of_le (Nat.le_of_not_lt hstop)]
      rfl

/-- **Reading code can be cut and taken up again at any place of code.** The places of code are
those with nothing to leap over at which the code of the text is the code of what stands in front
and then the code from there on. One turn reads a character of code or leaps over the literal or
comment that stands there. The offsets increase, each comes with its own character, and reading up
to an offset of the text is reading the text that ends there. -/
theorem codeFrom_restarts (t : Text) (start : Nat) :
    (∀ e, e ∈ (codeFrom t start).map Prod.fst ↔ e < t.length ∧ leap (t.drop e) = 0
        ∧ codeFrom t start = codeFrom (t.take e) start ++ codeFrom t e)
      ∧ (∀ c, t[start]? = some c → codeFrom t start =
        if leap (t.drop start) = 0 then (start, c) :: codeFrom t (start + 1)
        else codeFrom t (start + leap (t.drop start)))
      ∧ ((codeFrom t start).map Prod.fst).Pairwise (· < ·)
      ∧ (∀ p ∈ codeFrom t start, t[p.1]? = some p.2)
      ∧ ∀ stop ≤ t.length, codeWithin? t start stop = some (codeFrom (t.take stop) start) := by
  refine ⟨fun e => mem_codeFrom_iff, fun c => codeFrom_turn, ?_, ?_, ?_⟩
  · exact List.pairwise_map.mpr (codeChars_pairwise .code start (t.drop start))
  · rintro ⟨i, c⟩ hmem
    exact (codeFrom_cut hmem).1
  · intro stop hstop
    rw [codeWithin?, if_pos (Or.inl hstop), codeUpTo_eq, ← List.drop_take]
    rfl

/-- A division, a product, a comment that looks like another one, a string that a line break ends
and one with an escaped quote. -/
def slashes : Text :=
  "a / b * c//*\n\"d\n'\\'/*' e".toList

/-- The star of the product and the line break that ends the string are places to cut at. The star
behind the two slashes looks like code, and is none. -/
theorem codeFrom_restarts_slashes :
    codeFrom slashes 0 = codeFrom (slashes.take 6) 0 ++ codeFrom slashes 6
      ∧ codeFrom slashes 0 = codeFrom (slashes.take 15) 0 ++ codeFrom slashes 15
      ∧ codeFrom slashes 0 ≠ codeFrom (slashes.take 11) 0 ++ codeFrom slashes 11
      ∧ codeFrom slashes 16 = codeFrom slashes 22
      ∧ codeWithin? slashes 2 10 = some (codeFrom (slashes.take 10) 2) := by
  obtain ⟨hplaces, -⟩ := codeFrom_restarts slashes 0
  obtain ⟨-, hturn, -⟩ := codeFrom_restarts slashes 16
  obtain ⟨-, -, -, -, hwithin⟩ := codeFrom_restarts slashes 2
  have hdrop : slashes.drop 16 = ['\'', '\\', '\'', '/', '*', '\'', ' ', 'e'] := by decide
  have hleap : leap (slashes.drop 16) = 6 := by
    rw [hdrop]
    decide
  refine ⟨((hplaces 6).mp (by decide)).2.2, ((hplaces 15).mp (by decide)).2.2, ?_, ?_,
    hwithin 10 (by decide)⟩
  · intro hcut
    exact absurd ((hplaces 11).mpr ⟨by decide, by decide, hcut⟩) (by decide)
  · rw [hturn '\'' (by decide), hleap, if_neg (by decide)]

/-! ## An index below zero -/

/-- Code read from another offset is the same code elsewhere. -/
lemma codeChars_shift (m : Mode) (offset : Nat) (t : Text) :
    codeChars m offset t = (codeChars m 0 t).map fun p => (p.1 + offset, p.2) := by
  induction t generalizing m offset with
  | nil => rfl
  | cons c cs ih =>
    rw [codeChars, codeChars]
    rcases m.step c cs.head? with ⟨region, m'⟩
    have hcs : codeChars m' (offset + 1) cs
        = (codeChars m' 1 cs).map fun p => (p.1 + offset, p.2) := by
      rw [ih m' (offset + 1), ih m' 1, List.map_map]
      refine List.map_congr_left fun p _ => ?_
      simp only [Function.comp_apply, Prod.mk.injEq, and_true]
      omega
    cases region with
    | code =>
      rw [Nat.zero_add, List.map_cons, Nat.zero_add]
      exact congrArg ((offset, c) :: ·) hcs
    | comment => exact hcs
    | literal => exact hcs

/-- Only a slash begins a comment. -/
lemma Mode.step_ne_comment {m m' : Mode} {c : Char} {next : Option Char} (hm : m.uncommented = m)
    (hc : c ≠ '/') : m.step c next ≠ (.comment, m') := by
  intro h
  cases m with
  | code =>
    rw [Mode.step] at h
    split_ifs at h with hquote hline hblock
    · cases h
    · exact hc hline.1
    · exact hc hblock.1
    · cases h
  | literal quote =>
    rw [Mode.step] at h
    split_ifs at h <;> cases h
  | escaped quote => cases h
  | lineComment | commentOpening | blockComment | commentClosing => cases hm

/-- **The last characters of a text are read as if its front followed them**, when no comment begins
among them. -/
lemma leadIn_eq {t front : Text} {m : Mode} (hm : m.uncommented = m) {tail : Text}
    (h : '/' ∉ tail) :
    ∃ code m', leadIn t front 0 m tail = (code, some (m', 0))
      ∧ code ++ indexed (codeChars m' 0 front)
        = (codeChars m 0 (tail ++ front)).map fun p => ((p.1 : Int) - tail.length, p.2) := by
  induction tail generalizing m with
  | nil =>
    refine ⟨[], m, rfl, ?_⟩
    simp [indexed]
  | cons c cs ih =>
    obtain ⟨hc, hcs⟩ := not_or.mp (mt List.mem_cons.mpr h)
    have hnext : cs.head?.or front.head? = (cs ++ front).head? := List.head?_append.symm
    rcases hstep : m.step c (cs ++ front).head? with ⟨region, m'⟩
    have hshift : (codeChars m' 1 (cs ++ front)).map
        (fun p => ((p.1 : Int) - (c :: cs).length, p.2))
        = (codeChars m' 0 (cs ++ front)).map fun p => ((p.1 : Int) - cs.length, p.2) := by
      rw [codeChars_shift m' 1, List.map_map]
      refine List.map_congr_left fun p _ => ?_
      simp only [Function.comp_apply, Prod.mk.injEq, and_true, List.length_cons]
      omega
    rw [leadIn, hnext, hstep, List.cons_append, codeChars, hstep]
    cases region with
    | comment => exact absurd hstep (Mode.step_ne_comment hm (Ne.symm hc))
    | literal =>
      obtain ⟨code, m'', hlead, hcode⟩ := ih (Mode.uncommented_of_step hstep (by decide)) hcs
      exact ⟨code, m'', hlead, hcode.trans hshift.symm⟩
    | code =>
      obtain ⟨code, m'', hlead, hcode⟩ := ih (Mode.uncommented_of_step hstep (by decide)) hcs
      dsimp only
      rw [hlead]
      refine ⟨(0 - (cs.length + 1), c) :: code, m'', rfl, ?_⟩
      rw [List.cons_append, hcode, ← hshift]
      simp

/-- **Reading from an index below zero runs over the end of the text**: it is reading the last
characters with the text from its front behind them, when no comment begins among them. -/
lemma codeFromEnd?_eq {t : Text} {n stop : Nat} (hn : n < t.length) (hstop : stop ≤ t.length)
    (h : '/' ∉ t.drop (t.length - (n + 1))) :
    codeFromEnd? t (.negSucc n) stop = some ((code (t.drop (t.length - (n + 1)) ++ t.take stop)).map
      fun p => ((p.1 : Int) - (n + 1 : Nat), p.2)) := by
  have hlength : (t.drop (t.length - (n + 1))).length = n + 1 := by
    rw [List.length_drop]
    omega
  have htail : t.slice (t.place (.negSucc n)) t.length = t.drop (t.length - (n + 1)) := by
    rw [slice, List.take_length]
    rfl
  obtain ⟨code, m, hlead, hcode⟩ := @leadIn_eq t (t.take stop) .code rfl _ h
  rw [hlength] at hcode
  have hmin : min (stop : Int) 0 = 0 := by omega
  unfold codeFromEnd?
  rw [if_neg (by omega), if_neg (by omega), if_neg (by omega)]
  dsimp only
  rw [Int.toNat_natCast, htail, hmin, hlead]
  dsimp only
  rw [if_pos (Or.inl (by omega)), List.drop_zero, hcode]
  rfl

/-- Brackets are matched by the characters alone. -/
lemma closingIn_map {ι κ : Type} (f : ι → κ) (awaited : List Char) (ps : List (ι × Char)) :
    closingIn awaited (ps.map fun p => (f p.1, p.2)) = (closingIn awaited ps).map f := by
  induction ps generalizing awaited with
  | nil => rfl
  | cons p ps ih =>
    obtain ⟨i, c⟩ := p
    rw [List.map_cons]
    unfold closingIn
    cases closerOf? c with
    | some k => exact ih (k :: awaited)
    | none =>
      dsimp only
      split_ifs
      · cases awaited with
        | nil => rfl
        | cons k ks =>
          dsimp only
          split_ifs
          · rfl
          · exact ih ks
          · rfl
      · exact ih awaited

/-- The bracket that closes one given by an index below zero is looked for behind the end of the
text too. -/
lemma closingFromEnd?_eq {t : Text} {n : Nat} (hn : n < t.length)
    (h : '/' ∉ t.drop (t.length - (n + 1))) :
    closingFromEnd? t (.negSucc n) = some ((closing? (t.drop (t.length - (n + 1)) ++ t) 0).map
      fun i : Nat => (i : Int) - (n + 1 : Nat)) := by
  unfold closingFromEnd?
  rw [codeFromEnd?_eq hn (Nat.le_refl _) h, List.take_length, Option.map_some]
  exact congrArg some (closingIn_map (fun i : Nat => (i : Int) - (n + 1 : Nat)) [] _)

end Esmify.Source
