import Esmify.Proofs.Balance

/-!
# Splitting at the top level

**Splitting a text loses nothing and splits completely** (`splitTopLevel_complete`), whatever
character separates the parts: joined by it they give the text back, none of them is split again
when it is read from its own start, and the text is cut exactly at the separators of code outside
brackets (`CutAt`, `OutsideBrackets`).

That a part is read alone as it is read inside the text needs no assumption on the separator. One
that is itself part of a comment mark, such as a slash, is code only where no mark is made with the
character in front of it (`Mode.step_before_code`). -/

namespace Esmify.Source

open Text

/-! ## Joining the parts -/

/-- There is always a piece. -/
lemma splitFrom_ne_nil (sep : Char) (m : Mode) (depth : Int) (t : Text) :
    splitFrom sep m depth t ≠ [] := by
  rcases splitFrom_cases sep m depth t with hwhole | ⟨first, rest, -, -, -, -, hparts⟩
  · rw [hwhole]
    exact List.cons_ne_nil _ _
  · rw [hparts]
    exact List.cons_ne_nil _ _

/-- A character in front of the first piece stands in front of the text. -/
lemma intercalate_consFirst (sep c : Char) (ps : List Text) :
    [sep].intercalate (consFirst c ps) = c :: [sep].intercalate ps := by
  cases ps with
  | nil => rfl
  | cons p ps =>
    cases ps with
    | nil => rfl
    | cons q ps => rw [consFirst, List.intercalate_cons_cons, List.intercalate_cons_cons]; rfl

/-- An empty piece in front is a separator in front. -/
lemma intercalate_nil_cons (sep : Char) {ps : List Text} (hne : ps ≠ []) :
    [sep].intercalate ([] :: ps) = sep :: [sep].intercalate ps :=
  intercalate_append sep (List.cons_ne_nil [] []) hne

/-- **No character is lost**: the parts joined by the separator are the text. -/
lemma intercalate_splitFrom (sep : Char) (m : Mode) (depth : Int) (t : Text) :
    [sep].intercalate (splitFrom sep m depth t) = t := by
  induction t generalizing m depth with
  | nil => rfl
  | cons c cs ih =>
    rw [splitFrom]
    rcases m.step c cs.head? with ⟨region, m'⟩
    cases region with
    | code =>
      dsimp only
      split_ifs with hsep
      · rw [intercalate_nil_cons sep (splitFrom_ne_nil _ _ _ _), ih, hsep.2.1]
      · rw [intercalate_consFirst, ih]
    | comment => rw [intercalate_consFirst, ih]
    | literal => rw [intercalate_consFirst, ih]

/-! ## Reading a part alone -/

/-- **A part is not split again.** -/
lemma splitTopLevel_of_mem {t part : Text} {sep : Char} (hpart : part ∈ splitTopLevel t sep) :
    splitTopLevel part sep = [part] := by
  induction hlength : t.length using Nat.strong_induction_on generalizing t with
  | _ n ih =>
    rcases splitFrom_cases sep .code 0 t with hwhole | ⟨first, rest, rfl, -, -, halone, hparts⟩
    · rw [splitTopLevel, hwhole, List.mem_singleton] at hpart
      rw [hpart]
      exact hwhole
    · rw [splitTopLevel, hparts, List.mem_cons] at hpart
      rcases hpart with rfl | hpart
      · exact halone
      · have hlt : rest.length < n := by
          rw [← hlength, List.length_append, List.length_cons]
          omega
        exact ih rest.length hlt hpart rfl

/-! ## Where a text is cut -/

/-- Parts joined by `sep`, the first of which begins at `offset`, have a seam at `i`. -/
def CutAt (sep : Char) (offset : Nat) (parts : List Text) (i : Nat) : Prop :=
  ∃ front back, front ≠ [] ∧ back ≠ [] ∧ parts = front ++ back
    ∧ i = offset + ([sep].intercalate front).length

/-- Among characters of code, with `depth` brackets open in front of them, `sep` stands at `i`
outside brackets. -/
def OutsideBrackets (sep : Char) (depth : Int) (cs : List (Nat × Char)) (i : Nat) : Prop :=
  bracketStep sep = 0
    ∧ ∃ front back, cs = front ++ (i, sep) :: back ∧ depth + depthOf (front.map Prod.snd) = 0

section seams

variable {sep c : Char} {offset i : Nat} {ps : List Text}

/-- A character in front of the first part moves the seams. -/
lemma cutAt_consFirst (hne : ps ≠ []) :
    CutAt sep offset (consFirst c ps) i ↔ CutAt sep (offset + 1) ps i := by
  have hlength : ∀ front : List Text, offset + ([sep].intercalate (consFirst c front)).length =
      offset + 1 + ([sep].intercalate front).length := by
    intro front
    rw [intercalate_consFirst, List.length_cons]
    omega
  constructor
  · rintro ⟨front, back, hfront, hback, hsplit, rfl⟩
    obtain ⟨p, ps, rfl⟩ := List.exists_cons_of_ne_nil hne
    obtain ⟨q, front, rfl⟩ := List.exists_cons_of_ne_nil hfront
    obtain ⟨rfl, rfl⟩ := List.cons.inj hsplit
    exact ⟨p :: front, back, List.cons_ne_nil _ _, hback, rfl, hlength (p :: front)⟩
  · rintro ⟨front, back, hfront, hback, rfl, rfl⟩
    obtain ⟨p, front, rfl⟩ := List.exists_cons_of_ne_nil hfront
    exact ⟨(c :: p) :: front, back, List.cons_ne_nil _ _, hback, rfl, (hlength (p :: front)).symm⟩

/-- A separator in front of the first part makes one more seam. -/
lemma cutAt_nil_cons (hne : ps ≠ []) :
    CutAt sep offset ([] :: ps) i ↔ offset = i ∨ CutAt sep (offset + 1) ps i := by
  have hlength : ∀ {front : List Text}, front ≠ [] →
      offset + ([sep].intercalate ([] :: front)).length =
        offset + 1 + ([sep].intercalate front).length := by
    intro front hfront
    rw [intercalate_nil_cons sep hfront, List.length_cons]
    omega
  constructor
  · rintro ⟨front, back, hfront, hback, hsplit, rfl⟩
    obtain ⟨p, front, rfl⟩ := List.exists_cons_of_ne_nil hfront
    obtain ⟨rfl, rfl⟩ := List.cons.inj hsplit
    by_cases hempty : front = []
    · rw [hempty]
      exact Or.inl rfl
    · exact Or.inr ⟨front, back, hempty, hback, rfl, hlength hempty⟩
  · rintro (rfl | ⟨front, back, hfront, hback, rfl, rfl⟩)
    · exact ⟨[[]], ps, List.cons_ne_nil _ _, hne, rfl, rfl⟩
    · exact ⟨[] :: front, back, List.cons_ne_nil _ _, hback, rfl, (hlength hfront).symm⟩

/-- A separator stands outside brackets if it is the first character or stands so among the rest. -/
lemma outsideBrackets_cons {depth : Int} {k : Nat} {cs : List (Nat × Char)} :
    OutsideBrackets sep depth ((k, c) :: cs) i ↔
      (bracketStep c = 0 ∧ c = sep ∧ depth = 0 ∧ k = i)
        ∨ OutsideBrackets sep (depth + bracketStep c) cs i := by
  constructor
  · rintro ⟨hsep, front, back, hsplit, hdepth⟩
    cases front with
    | nil =>
      obtain ⟨hpair, -⟩ := List.cons.inj hsplit
      obtain ⟨rfl, rfl⟩ := Prod.mk.inj hpair
      exact Or.inl ⟨hsep, rfl, (Int.add_zero depth).symm.trans hdepth, rfl⟩
    | cons p front =>
      obtain ⟨rfl, rfl⟩ := List.cons.inj hsplit
      rw [List.map_cons, depthOf_cons, ← Int.add_assoc] at hdepth
      exact Or.inr ⟨hsep, front, back, rfl, hdepth⟩
  · rintro (⟨hsep, rfl, rfl, rfl⟩ | ⟨hsep, front, back, rfl, hdepth⟩)
    · exact ⟨hsep, [], cs, rfl, rfl⟩
    · refine ⟨hsep, (k, c) :: front, back, rfl, ?_⟩
      rw [List.map_cons, depthOf_cons, ← Int.add_assoc]
      exact hdepth

end seams

/-- **A text is cut at the separators outside brackets** and nowhere else. -/
lemma cutAt_splitFrom (sep : Char) (m : Mode) (depth : Int) (offset : Nat) (t : Text) (i : Nat) :
    CutAt sep offset (splitFrom sep m depth t) i ↔
      OutsideBrackets sep depth (codeChars m offset t) i := by
  induction t generalizing m depth offset with
  | nil =>
    constructor
    · rintro ⟨front, back, hfront, hback, hsplit, -⟩
      rcases List.singleton_eq_append_iff.mp hsplit with ⟨hnil, -⟩ | ⟨-, hnil⟩
      · exact absurd hnil hfront
      · exact absurd hnil hback
    · rintro ⟨-, front, back, hsplit, -⟩
      exact absurd hsplit (by simp [codeChars])
  | cons c cs ih =>
    rw [splitFrom, codeChars]
    rcases m.step c cs.head? with ⟨region, m'⟩
    cases region with
    | code =>
      dsimp only
      rw [outsideBrackets_cons]
      split_ifs with hsep
      · obtain ⟨hbracket, rfl, rfl⟩ := hsep
        rw [cutAt_nil_cons (splitFrom_ne_nil _ _ _ _), ih, hbracket]
        simp
      · rw [cutAt_consFirst (splitFrom_ne_nil _ _ _ _), ih]
        refine (or_iff_right ?_).symm
        rintro ⟨hbracket, heq, hdepth, -⟩
        exact hsep ⟨hbracket, heq, hdepth⟩
    | comment => rw [cutAt_consFirst (splitFrom_ne_nil _ _ _ _), ih]
    | literal => rw [cutAt_consFirst (splitFrom_ne_nil _ _ _ _), ih]

/-- **Splitting loses nothing and splits completely.** For every separator the parts joined by it
are the text, each part is indivisible, and the seams are the separators of code outside
brackets. -/
theorem splitTopLevel_complete (t : Text) (sep : Char) :
    [sep].intercalate (splitTopLevel t sep) = t
      ∧ (∀ part ∈ splitTopLevel t sep, splitTopLevel part sep = [part])
      ∧ ∀ i, CutAt sep 0 (splitTopLevel t sep) i ↔ OutsideBrackets sep 0 (code t) i := by
  refine ⟨intercalate_splitFrom sep .code 0 t, fun part hpart => splitTopLevel_of_mem hpart,
    fun i => ?_⟩
  exact cutAt_splitFrom sep .code 0 0 t i

/-- Slashes in comments, literals and brackets separate nothing; a piece is not cut again. -/
theorem splitTopLevel_complete_slashes :
    splitTopLevel "a/ b/* / *//'/'(c/d)".toList '/' =
        ["a".toList, " b/* / */".toList, "'/'(c/d)".toList]
      ∧ splitTopLevel " b/* / */".toList '/' = [" b/* / */".toList] := by
  have hparts : splitTopLevel "a/ b/* / *//'/'(c/d)".toList '/' =
      ["a".toList, " b/* / */".toList, "'/'(c/d)".toList] := by decide
  refine ⟨hparts, (splitTopLevel_complete "a/ b/* / *//'/'(c/d)".toList '/').2.1 _ ?_⟩
  rw [hparts]
  exact List.mem_cons_of_mem _ List.mem_cons_self

end Esmify.Source
