import Mathlib.Order.Bounds.Defs
import Esmify.Proofs.Balance
import Esmify.Proofs.GlobalSource

/-!
# The matching bracket

A word over the three kinds of brackets is **well nested** (`WellNested`) when every bracket that it
opens is closed in it, by its own kind and in the right order. The stack of awaited closers accepts
just these words (`wellNested_iff`); characters that are no brackets do not change it
(`awaitedAfter_brackets`).

**The search for a closing bracket finds the matching one** (`closing?_isLeast`): the first offset
up to which the brackets of code are well nested, and nothing when there is no such offset, whatever
brackets follow. That the loop gives up at the first closer of a wrong kind loses nothing, since no
word that goes on behind it is well nested (`closingIn_eq_none`). -/

namespace Esmify.Source

open Text

/-! ## Well nested words -/

/-- Words over the brackets in which each bracket is closed by its own kind. -/
inductive WellNested : Text → Prop
  | nil : WellNested []
  | pair {o k : Char} {inner rest : Text} :
      closerOf? o = some k → WellNested inner → WellNested rest →
      WellNested (o :: (inner ++ k :: rest))

/-- Whether a character opens or closes a bracket. -/
def isBracket (c : Char) : Bool :=
  isOpener c || isCloser c

/-- What closes a bracket is a closer, and opens none. -/
lemma isCloser_of_closerOf? {o k : Char} (h : closerOf? o = some k) :
    isCloser k = true ∧ closerOf? k = none := by
  unfold closerOf? at h
  split_ifs at h
  all_goals
    obtain rfl := Option.some.inj h
    decide

/-- A closing bracket ends the wait for it. -/
lemma awaitStep_close {o k : Char} (h : closerOf? o = some k) (awaited : List Char) :
    awaitStep (k :: awaited) k = some awaited := by
  obtain ⟨hclose, hnone⟩ := isCloser_of_closerOf? h
  unfold awaitStep
  simp [hnone, hclose]

/-- **A well nested word leaves awaited what was awaited before it.** -/
lemma WellNested.awaitedAfter {w : Text} (h : WellNested w) (awaited : List Char) :
    awaitedAfter awaited w = some awaited := by
  induction h generalizing awaited with
  | nil => rfl
  | pair hk _ _ ihinner ihrest =>
    rw [awaitedAfter_cons (awaitStep_open hk awaited), awaitedAfter_append, ihinner,
      Option.bind_some, awaitedAfter_cons (awaitStep_close hk awaited), ihrest]

/-- **The innermost awaited closer comes behind a well nested word**, in a word of brackets that
leaves nothing awaited. -/
lemma exists_inner {w : Text} (hw : ∀ c ∈ w, isBracket c = true) {k : Char} {awaited : List Char}
    (h : awaitedAfter (k :: awaited) w = some []) :
    ∃ inner rest, w = inner ++ k :: rest ∧ WellNested inner
      ∧ awaitedAfter awaited rest = some [] := by
  induction hlength : w.length using Nat.strong_induction_on generalizing w k awaited with
  | _ n ih =>
    cases w with
    | nil => exact absurd (Option.some.inj h) (List.cons_ne_nil _ _)
    | cons c w =>
      obtain ⟨hc, hw⟩ := List.forall_mem_cons.mp hw
      rw [List.length_cons] at hlength
      obtain ⟨next, hstep, hrest⟩ := Option.bind_eq_some_iff.mp h
      rcases awaitStep_eq_some hstep with ⟨k', hk', rfl⟩ | ⟨-, -, hclosed⟩ | ⟨hnone, hclose, -⟩
      · -- the word goes on with a pair, behind which the rest of the inner word comes
        obtain ⟨inner, between, rfl, hinner, hbetween⟩ := ih w.length (by omega) hw hrest rfl
        rw [List.length_append, List.length_cons] at hlength
        obtain ⟨-, hbrackets⟩ := List.forall_mem_cons.mp (List.forall_mem_append.mp hw).2
        obtain ⟨inner', rest, rfl, hinner', hrest⟩ :=
          ih between.length (by omega) hbrackets hbetween rfl
        exact ⟨c :: (inner ++ k' :: inner'), rest, by simp, .pair hk' hinner hinner', hrest⟩
      · obtain ⟨rfl, rfl⟩ := List.cons.inj hclosed
        exact ⟨[], w, rfl, .nil, hrest⟩
      · simp [isBracket, isOpener, hnone, hclose] at hc

/-- **The well nested words are those that the stack accepts.** -/
lemma wellNested_iff {w : Text} (hw : ∀ c ∈ w, isBracket c = true) :
    WellNested w ↔ awaitedAfter [] w = some [] := by
  refine ⟨fun h => h.awaitedAfter [], fun h => ?_⟩
  induction hlength : w.length using Nat.strong_induction_on generalizing w with
  | _ n ih =>
    cases w with
    | nil => exact .nil
    | cons c w =>
      obtain ⟨hc, hw⟩ := List.forall_mem_cons.mp hw
      rw [List.length_cons] at hlength
      obtain ⟨next, hstep, hrest⟩ := Option.bind_eq_some_iff.mp h
      rcases awaitStep_eq_some hstep with ⟨k, hk, rfl⟩ | ⟨-, -, hclosed⟩ | ⟨hnone, hclose, -⟩
      · obtain ⟨inner, rest, rfl, hinner, hrest⟩ := exists_inner hw hrest
        rw [List.length_append, List.length_cons] at hlength
        obtain ⟨-, hbrackets⟩ := List.forall_mem_cons.mp (List.forall_mem_append.mp hw).2
        exact .pair hk hinner (ih rest.length (by omega) hbrackets hrest rfl)
      · exact absurd hclosed.symm (List.cons_ne_nil _ _)
      · simp [isBracket, isOpener, hnone, hclose] at hc

/-- What is no bracket does not change what is awaited. -/
lemma awaitedAfter_brackets (awaited : List Char) (cs : Text) :
    awaitedAfter awaited (cs.filter isBracket) = awaitedAfter awaited cs := by
  induction cs generalizing awaited with
  | nil => rfl
  | cons c cs ih =>
    by_cases hc : isBracket c = true
    · rw [List.filter_cons_of_pos hc]
      unfold awaitedAfter
      rw [List.foldlM_cons, List.foldlM_cons]
      exact congrArg _ (funext ih)
    · rw [Bool.not_eq_true, isBracket, isOpener, Bool.or_eq_false_iff, Option.isSome_eq_false_iff,
        Option.isNone_iff_eq_none] at hc
      have hstep : awaitStep awaited c = some awaited := by simp [awaitStep, hc]
      rw [List.filter_cons_of_neg (by simp [isBracket, isOpener, hc]), awaitedAfter_cons hstep, ih]

/-! ## The first place at which nothing is awaited -/

section Search

variable {ι : Type} {awaited : List Char} {ps : List (ι × Char)}

/-- **Where the search stops**: nothing is awaited behind the character there, and something is
awaited behind every front of what stands before it. -/
lemma closingIn_eq_some_first {i : ι} (hne : awaited ≠ []) (h : closingIn awaited ps = some i) :
    ∃ front c back, ps = front ++ (i, c) :: back
      ∧ awaitedAfter awaited (front.map Prod.snd ++ [c]) = some []
      ∧ ∀ u, u <+: front.map Prod.snd → awaitedAfter awaited u ≠ some [] := by
  induction ps generalizing awaited with
  | nil => exact absurd h (by simp [closingIn])
  | cons p ps ih =>
    obtain ⟨j, d⟩ := p
    rw [closingIn_cons hne] at h
    obtain ⟨next, hstep, h⟩ := Option.bind_eq_some_iff.mp h
    have hstart : awaitedAfter awaited [] ≠ some [] := fun heq => hne (Option.some.inj heq)
    split_ifs at h with hnext
    · obtain rfl := Option.some.inj h
      refine ⟨[], d, ps, rfl, ?_, ?_⟩
      · rw [List.map_nil, List.nil_append, awaitedAfter_cons hstep, hnext]
        rfl
      · intro u hu
        rwa [List.prefix_nil.mp hu]
    · obtain ⟨front, c, back, rfl, hclosed, hfront⟩ := ih hnext h
      refine ⟨(j, d) :: front, c, back, rfl, ?_, ?_⟩
      · rw [List.map_cons, List.cons_append, awaitedAfter_cons hstep, hclosed]
      · intro u hu
        cases u with
        | nil => exact hstart
        | cons c u =>
          obtain ⟨rfl, hbehind⟩ := List.cons_prefix_cons.mp hu
          rw [awaitedAfter_cons hstep]
          exact hfront u hbehind

/-- Where the search gives up, something is awaited behind every front of the characters. -/
lemma closingIn_eq_none (hne : awaited ≠ []) (h : closingIn awaited ps = none) :
    ∀ u, u <+: ps.map Prod.snd → awaitedAfter awaited u ≠ some [] := by
  induction ps generalizing awaited with
  | nil =>
    intro u hu heq
    rw [List.prefix_nil.mp hu] at heq
    exact hne (Option.some.inj heq)
  | cons p ps ih =>
    obtain ⟨j, d⟩ := p
    rw [closingIn_cons hne] at h
    intro u hu heq
    cases u with
    | nil => exact hne (Option.some.inj heq)
    | cons c u =>
      obtain ⟨rfl, hbehind⟩ := List.cons_prefix_cons.mp hu
      obtain ⟨next, hstep, hrest⟩ := Option.bind_eq_some_iff.mp heq
      rw [hstep, Option.bind_some] at h
      split_ifs at h with hnext
      exact ih hnext h u hbehind hrest

end Search

/-! ## Offsets -/

/-- **The offsets of code increase.** -/
lemma codeChars_pairwise (m : Mode) (offset : Nat) (t : Text) :
    (codeChars m offset t).Pairwise fun p q => p.1 < q.1 := by
  induction t generalizing m offset with
  | nil => exact List.Pairwise.nil
  | cons c cs ih =>
    rw [codeChars]
    rcases m.step c cs.head? with ⟨region, m'⟩
    cases region with
    | code =>
      refine List.pairwise_cons.mpr ⟨fun q hq => ?_, ih m' (offset + 1)⟩
      exact (codeChars_bounds q hq).1
    | comment => exact ih m' (offset + 1)
    | literal => exact ih m' (offset + 1)

/-- What stands up to an offset is a front of characters whose offsets increase. -/
lemma filter_le_prefix {ps : List (Nat × Char)} (h : ps.Pairwise fun p q => p.1 < q.1)
    (stop : Nat) :
    ps.filter (fun p => p.1 ≤ stop) <+: ps := by
  induction ps with
  | nil => exact List.nil_prefix
  | cons p ps ih =>
    obtain ⟨hp, hps⟩ := List.pairwise_cons.mp h
    by_cases hle : p.1 ≤ stop
    · rw [List.filter_cons_of_pos (by simpa using hle)]
      exact List.cons_prefix_cons.mpr ⟨rfl, ih hps⟩
    · have hnone : ps.filter (fun q => q.1 ≤ stop) = [] := by
        refine List.filter_eq_nil_iff.mpr fun q hq => ?_
        have hlt := hp q hq
        simp only [decide_eq_true_eq]
        omega
      rw [List.filter_cons_of_neg (by simpa using hle), hnone]
      exact List.nil_prefix

section Offsets

variable {front back : List (Nat × Char)} {i : Nat} {c : Char}

/-- What stands up to the offset of a character is the characters in front of it and itself. -/
lemma filter_le_self (h : (front ++ (i, c) :: back).Pairwise fun p q => p.1 < q.1) :
    (front ++ (i, c) :: back).filter (fun p => p.1 ≤ i) = front ++ [(i, c)] := by
  obtain ⟨-, hback, hfront⟩ := List.pairwise_append.mp h
  have hin : front.filter (fun p => p.1 ≤ i) = front := by
    refine List.filter_eq_self.mpr fun p hp => ?_
    exact decide_eq_true (hfront p hp _ List.mem_cons_self).le
  have hout : back.filter (fun p => p.1 ≤ i) = [] := by
    refine List.filter_eq_nil_iff.mpr fun p hp => ?_
    have hlt := (List.pairwise_cons.mp hback).1 p hp
    simp only [decide_eq_true_eq]
    omega
  rw [List.filter_append, hin, List.filter_cons_of_pos (by simp), hout]

/-- What stands up to an earlier offset is a front of the characters in front. -/
lemma filter_le_of_lt (h : (front ++ (i, c) :: back).Pairwise fun p q => p.1 < q.1) {stop : Nat}
    (hlt : stop < i) : (front ++ (i, c) :: back).filter (fun p => p.1 ≤ stop) <+: front := by
  obtain ⟨hfront, hback, -⟩ := List.pairwise_append.mp h
  have hout : ((i, c) :: back).filter (fun p => p.1 ≤ stop) = [] := by
    refine List.filter_eq_nil_iff.mpr fun p hp => ?_
    have hle : i ≤ p.1 := by
      rcases List.mem_cons.mp hp with rfl | hp
      · exact le_rfl
      · exact ((List.pairwise_cons.mp hback).1 p hp).le
    simp only [decide_eq_true_eq]
    omega
  rw [List.filter_append, hout, List.append_nil]
  exact filter_le_prefix hfront stop

end Offsets

/-! ## The matching bracket -/

/-- The brackets of code from one offset up to and including another one. -/
def bracketsUpTo (t : Text) (start stop : Nat) : Text :=
  (((codeFrom t start).filter fun p => p.1 ≤ stop).map Prod.snd).filter isBracket

/-- The code from an opening bracket on begins with it. -/
lemma codeFrom_bracket {t : Text} {start : Nat} {c k : Char} (hget : t[start]? = some c)
    (hk : closerOf? c = some k) :
    codeFrom t start = (start, c) :: codeChars .code (start + 1) (t.drop (start + 1)) := by
  obtain ⟨⟨hquote, hslash, -, -⟩, -⟩ := bracket_pair hk
  obtain ⟨hlt, hc⟩ := List.getElem?_eq_some_iff.mp hget
  rw [codeFrom, List.drop_eq_getElem_cons hlt, hc, codeChars_bare_cons hquote hslash]

section Matching

variable {t : Text} {start : Nat} {c k : Char} (hget : t[start]? = some c)
    (hk : closerOf? c = some k)

include hget hk

/-- Behind its first bracket the search waits for the closer of that bracket. -/
lemma closing?_eq_closingIn :
    closing? t start = closingIn [k] (codeChars .code (start + 1) (t.drop (start + 1))) := by
  rw [closing?, codeFrom_bracket hget hk, closingIn.eq_def]
  simp only [hk]

/-- The brackets from an opening one on are well nested where nothing is awaited any more. -/
lemma wellNested_bracketsUpTo {stop : Nat} (hle : start ≤ stop) :
    WellNested (bracketsUpTo t start stop) ↔ awaitedAfter [k]
      (((codeChars .code (start + 1) (t.drop (start + 1))).filter fun p => p.1 ≤ stop).map Prod.snd)
        = some [] := by
  unfold bracketsUpTo
  rw [wellNested_iff fun d hd => (List.mem_filter.mp hd).2, awaitedAfter_brackets,
    codeFrom_bracket hget hk, List.filter_cons_of_pos (by simpa using hle), List.map_cons,
    awaitedAfter_cons (awaitStep_open hk [])]

/-- **Where the search stops, the brackets are well nested for the first time.** -/
lemma isLeast_of_closing? {i : Nat} (h : closing? t start = some i) :
    IsLeast {j | start ≤ j ∧ WellNested (bracketsUpTo t start j)} i := by
  have hlt := closing?_bounds h
  have hsorted := codeChars_pairwise .code (start + 1) (t.drop (start + 1))
  rw [closing?_eq_closingIn hget hk] at h
  obtain ⟨front, d, back, hcode, hclosed, hfirst⟩ :=
    closingIn_eq_some_first (List.cons_ne_nil k []) h
  rw [hcode] at hsorted
  constructor
  · refine ⟨hlt.1, ?_⟩
    rw [wellNested_bracketsUpTo hget hk hlt.1, hcode, filter_le_self hsorted, List.map_append]
    exact hclosed
  · rintro j ⟨hle, hnested⟩
    rw [wellNested_bracketsUpTo hget hk hle, hcode] at hnested
    by_contra hlater
    obtain ⟨u, hu⟩ := filter_le_of_lt hsorted (Nat.lt_of_not_le hlater)
    refine hfirst _ ⟨u.map Prod.snd, ?_⟩ hnested
    rw [← List.map_append, hu]

/-- Where the search gives up, the brackets are nowhere well nested. -/
lemma not_wellNested_of_closing? (h : closing? t start = none) {j : Nat} (hle : start ≤ j) :
    ¬WellNested (bracketsUpTo t start j) := by
  rw [closing?_eq_closingIn hget hk] at h
  rw [wellNested_bracketsUpTo hget hk hle]
  obtain ⟨u, hu⟩ := filter_le_prefix (codeChars_pairwise .code (start + 1) (t.drop (start + 1))) j
  refine closingIn_eq_none (List.cons_ne_nil k []) h _ ⟨u.map Prod.snd, ?_⟩
  rw [← List.map_append, hu]

end Matching

/-- **The closing bracket that is found is the matching one.** For a bracket that opens at `start`,
the search gives the least offset up to which the brackets of code are well nested, and gives none
exactly when there is no such offset. -/
theorem closing?_isLeast {t : Text} {start : Nat} {c : Char} (hget : t[start]? = some c)
    (hopen : isOpener c = true) :
    (∀ i, closing? t start = some i ↔
        IsLeast {j | start ≤ j ∧ WellNested (bracketsUpTo t start j)} i)
      ∧ (closing? t start = none ↔ ¬∃ j, start ≤ j ∧ WellNested (bracketsUpTo t start j)) := by
  obtain ⟨k, hk⟩ := Option.isSome_iff_exists.mp hopen
  cases hfound : closing? t start with
  | none =>
    have hno : ¬∃ j, start ≤ j ∧ WellNested (bracketsUpTo t start j) := by
      rintro ⟨j, hle, hnested⟩
      exact not_wellNested_of_closing? hget hk hfound hle hnested
    refine ⟨fun i => ⟨fun h => absurd h (by simp), fun h => absurd ⟨i, h.1⟩ hno⟩,
      iff_of_true rfl hno⟩
  | some i =>
    have hleast := isLeast_of_closing? hget hk hfound
    refine ⟨fun j => ?_, iff_of_false (by simp) fun hno => hno ⟨i, hleast.1⟩⟩
    rw [Option.some.injEq]
    constructor
    · rintro rfl
      exact hleast
    · intro hj
      exact Nat.le_antisymm (hleast.2 hj.1) (hj.2 hleast.1)

/-- Brackets in a string and in a comment do not count, and a closer of another kind leaves nothing
to find. -/
theorem closing?_isLeast_quoted :
    IsLeast {j | 0 ≤ j ∧ WellNested (bracketsUpTo "([')'/*]*/])]".toList 0 j)} 11
      ∧ ¬∃ j, 3 ≤ j ∧ WellNested (bracketsUpTo "f /(a] )[]".toList 3 j) := by
  have hfound : closing? "([')'/*]*/])]".toList 0 = some 11 := by decide
  have hnone : closing? "f /(a] )[]".toList 3 = none := by decide
  exact ⟨((closing?_isLeast (c := '(') rfl rfl).1 11).mp hfound,
    (closing?_isLeast (c := '(') rfl rfl).2.mp hnone⟩

end Esmify.Source
