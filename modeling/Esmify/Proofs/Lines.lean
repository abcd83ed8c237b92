import Mathlib.Data.List.Nodup
import Esmify.Proofs.Scan
import Esmify.Source.Lexeme

/-!
# Texts made of lines

Lines stand one below the other (`linesText`). **A word without a line break stands in one of them**
(`exists_line_of_word`), and **where a line begins, one of them begins**
(`exists_line_of_beginsLine`); so a pattern that matches at the starts of lines only has to be asked
at those (`nowhere_linesText`). -/

namespace Esmify.Text

open Source

variable {ended : Bool} {lines : List Text}

/-- Lines one below the other; `ended` says whether a line break follows the last one too. -/
def linesText (ended : Bool) : List Text → Text
  | [] => []
  | line :: lines => line ++ if lines.isEmpty && !ended then [] else '\n' :: linesText ended lines

/-- What follows a line with the given lines below it. -/
def lineTail (ended : Bool) (below : List Text) : Text :=
  if below.isEmpty && !ended then [] else '\n' :: linesText ended below

/-- The first line, and the others below it. -/
lemma linesText_cons (ended : Bool) (line : Text) (below : List Text) :
    linesText ended (line :: below) = line ++ lineTail ended below :=
  rfl

/-- Nothing follows a line, or a line break. -/
lemma lineTail_cases (ended : Bool) (below : List Text) :
    (below = [] ∧ ended = false ∧ lineTail ended below = []) ∨
      lineTail ended below = '\n' :: linesText ended below := by
  unfold lineTail
  split_ifs with h
  · rw [Bool.and_eq_true, List.isEmpty_iff, Bool.not_eq_true'] at h
    exact Or.inl ⟨h.1, h.2, rfl⟩
  · exact Or.inr rfl

/-- A line that is converted once its key is among those `done`. -/
def shownAs (done : List Text) (key converted source : Text) : Text :=
  if key ∈ done then converted else source

/-- When one more item is done, it alone is shown another way. -/
lemma map_done_cons {α : Type} (key converted source : α → Text) (done : List Text)
    {items above below : List α} {x : α} (hitems : items = above ++ x :: below)
    (hnodup : (items.map key).Nodup) :
    items.map (fun a => shownAs (key x :: done) (key a) (converted a) (source a)) =
      above.map (fun a => shownAs done (key a) (converted a) (source a)) ++ converted x ::
        below.map (fun a => shownAs done (key a) (converted a) (source a)) := by
  rw [hitems, List.map_append, List.map_cons, List.nodup_append, List.nodup_cons] at hnodup
  obtain ⟨-, ⟨hbelow, -⟩, habove⟩ := hnodup
  have hother : ∀ {others : List α}, (∀ a ∈ others, key a ≠ key x) →
      others.map (fun a => shownAs (key x :: done) (key a) (converted a) (source a)) =
        others.map (fun a => shownAs done (key a) (converted a) (source a)) := by
    intro others hne
    refine List.map_congr_left fun a ha => ?_
    simp only [shownAs, List.mem_cons, hne a ha, false_or]
  have hx : shownAs (key x :: done) (key x) (converted x) (source x) = converted x :=
    if_pos List.mem_cons_self
  rw [hitems, List.map_append, List.map_cons, hx, hother, hother]
  · intro a ha heq
    exact hbelow (heq ▸ List.mem_map_of_mem ha)
  · intro a ha heq
    exact habove _ (List.mem_map_of_mem ha) _ List.mem_cons_self heq

/-- The lines above a line all end with a line break. -/
lemma linesText_append_cons (ended : Bool) (above : List Text) (line : Text) (below : List Text) :
    linesText ended (above ++ line :: below) =
      linesText true above ++ (line ++ lineTail ended below) := by
  induction above with
  | nil => rfl
  | cons first above ih =>
    have htail : lineTail ended (above ++ line :: below) =
        '\n' :: linesText ended (above ++ line :: below) := by simp [lineTail]
    have htrue : lineTail true above = '\n' :: linesText true above := by simp [lineTail]
    rw [List.cons_append, linesText_cons, htail, ih, linesText_cons, htrue]
    simp

/-- Below lines that all end a line begins. -/
lemma beginsLine_linesText (lines : List Text) :
    beginsLine (linesText true lines).getLast? = true := by
  induction lines with
  | nil => rfl
  | cons line lines ih =>
    have htail : lineTail true lines = '\n' :: linesText true lines := by simp [lineTail]
    rw [linesText_cons, htail, List.append_cons, List.getLast?_append]
    cases hlast : (linesText true lines).getLast? with
    | none => simp [beginsLine]
    | some c =>
      rw [hlast] at ih
      exact ih

/-- **A word without a line break stands in one of the lines.** -/
lemma exists_line_of_word {front w back : Text} (hw : w ≠ []) (hbreak : '\n' ∉ w)
    (h : linesText ended lines = front ++ (w ++ back)) :
    ∃ above line below m m', lines = above ++ line :: below ∧ line = m ++ (w ++ m')
      ∧ front = linesText true above ++ m ∧ back = m' ++ lineTail ended below := by
  induction lines generalizing front with
  | nil =>
    have hnil := List.append_eq_nil_iff.mp (List.append_eq_nil_iff.mp h.symm).2
    exact absurd hnil.1 hw
  | cons line lines ih =>
    rw [linesText_cons] at h
    rcases lineTail_cases ended lines with ⟨-, -, htail⟩ | htail
    · rw [htail, List.append_nil] at h
      exact ⟨[], line, lines, front, back, rfl, h, rfl, by rw [htail, List.append_nil]⟩
    · rw [htail] at h
      rcases append_cons_eq_append_word hbreak h with ⟨m, hline, hback⟩ | ⟨m, hfront, hrest⟩
      · exact ⟨[], line, lines, front, m, rfl, hline, rfl, by rw [htail, hback]⟩
      · obtain ⟨above, line', below, m', m'', rfl, hline, hm, hback⟩ := ih hrest
        refine ⟨line :: above, line', below, m', m'', rfl, hline, ?_, hback⟩
        rw [hfront, hm, linesText_cons]
        simp [lineTail]

/-- **Where a line begins, one of the lines begins.** -/
lemma exists_line_of_beginsLine {front back : Text} (hlines : ∀ line ∈ lines, '\n' ∉ line)
    (h : linesText ended lines = front ++ back) (hbegins : beginsLine front.getLast? = true)
    (hne : back ≠ []) :
    ∃ above line below, lines = above ++ line :: below ∧ front = linesText true above
      ∧ back = line ++ lineTail ended below := by
  induction lines generalizing front with
  | nil => exact absurd (List.append_eq_nil_iff.mp h.symm).2 hne
  | cons line lines ih =>
    rw [linesText_cons] at h
    rcases List.eq_nil_or_concat' front with rfl | ⟨front, c, rfl⟩
    · exact ⟨[], line, lines, rfl, rfl, h.symm⟩
    · obtain rfl : c = '\n' := by simpa [beginsLine] using hbegins
      rw [List.append_assoc, List.singleton_append] at h
      obtain ⟨m, rfl, hm⟩ := append_eq_append_cons_of_not_mem (hlines line List.mem_cons_self) h
      rcases lineTail_cases ended lines with ⟨-, -, htail⟩ | htail
      · rw [htail] at hm
        exact absurd hm (by simp)
      -- the break in front of the place is that of the first line, or one further down
      · obtain ⟨front', hfront, hrest, hlast⟩ : ∃ front', m ++ ['\n'] = '\n' :: front'
            ∧ linesText ended lines = front' ++ back ∧ beginsLine front'.getLast? = true := by
          rw [htail] at hm
          cases m with
          | nil => exact ⟨[], rfl, (List.cons.inj hm).2, rfl⟩
          | cons d m =>
            obtain ⟨rfl, hm⟩ := List.cons.inj hm
            exact ⟨m ++ ['\n'], rfl, by simpa using hm, by simp [beginsLine]⟩
        obtain ⟨above, line', below, rfl, hm', hback⟩ :=
          ih (fun l hl => hlines l (List.mem_cons_of_mem _ hl)) hrest hlast
        refine ⟨line :: above, line', below, rfl, ?_, hback⟩
        rw [List.append_assoc, hfront, hm', linesText_cons]
        simp [lineTail]

/-- A pattern that matches at the starts of lines only matches nowhere when it matches at none of
the lines. -/
lemma nowhere_linesText {α : Type} {p : Pattern α}
    (hguard : ∀ before t a, p before t = some a → beginsLine before = true ∧ t ≠ [])
    (hlines : ∀ line ∈ lines, '\n' ∉ line)
    (hnone : ∀ line ∈ lines, ∀ before rest, p before (line ++ rest) = none) :
    Nowhere p (linesText ended lines) := by
  intro front back h
  rw [Option.eq_none_iff_forall_ne_some]
  intro a hsome
  obtain ⟨hbegins, hne⟩ := hguard _ _ _ hsome
  obtain ⟨above, line, below, rfl, -, rfl⟩ := exists_line_of_beginsLine hlines h hbegins hne
  rw [hnone line (by simp) _ _] at hsome
  exact absurd hsome (by simp)

/-- Where keys are distinct, the place of an item is known by its key. -/
lemma eq_of_nodup_key {α β : Type} (key : α → β) {a b a' b' : List α} {x x' : α}
    (hnodup : ((a ++ x :: b).map key).Nodup) (h : a ++ x :: b = a' ++ x' :: b')
    (hkey : key x = key x') : a = a' ∧ x = x' ∧ b = b' := by
  -- the two places would hold the same key
  have htwice : ∀ (u m v : List α) (y z : α), key y = key z →
      ¬ ((u ++ y :: (m ++ z :: v)).map key).Nodup := by
    intro u m v y z hyz hnodup
    simp only [List.map_append, List.map_cons, List.nodup_append, List.nodup_cons] at hnodup
    exact hnodup.2.1.1 (by simp [hyz])
  rcases List.append_eq_append_iff.mp h with ⟨m, rfl, hm⟩ | ⟨m, rfl, hm⟩
  · cases m with
    | nil =>
      obtain ⟨rfl, rfl⟩ := List.cons.inj hm
      exact ⟨(List.append_nil a).symm, rfl, rfl⟩
    | cons y m =>
      obtain ⟨rfl, rfl⟩ := List.cons.inj hm
      exact absurd hnodup (htwice a m b' x x' hkey)
  · cases m with
    | nil =>
      obtain ⟨rfl, rfl⟩ := List.cons.inj hm
      exact ⟨List.append_nil a', rfl, rfl⟩
    | cons y m =>
      obtain ⟨rfl, rfl⟩ := List.cons.inj hm
      rw [h] at hnodup
      exact absurd hnodup (htwice a' m b x' x hkey.symm)

end Esmify.Text
