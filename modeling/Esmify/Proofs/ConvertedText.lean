import Esmify.Proofs.DeclinedLine
import Esmify.Proofs.ImportPass

/-!
# Converted texts and where lines begin in them

**A converted text, piece by piece.** `Converted` relates the pieces of a text to what the import
pass makes of them: characters outside lines and declined lines stay, and each other line has
an import in the place of its statement. A search for lines in the converted text comes to some of
its places only: `Place` says that it is between two pieces or inside a line that was written,
**never inside a line that was kept**. The reason is that a line has no line break behind its first
closing parenthesis, so a match that begins earlier cannot end in the middle of a kept line
(`Place.of_match`). -/

namespace Esmify

open Text Source Requirement

/-! ## The relation -/

section

variable (config : Config) (isDefault : Requirement → Option Bool) (rs : List Requirement)

/-- What the import pass makes of the pieces of a text, `rs` being the requirements it writes. -/
inductive Converted : List (Piece Unit) → Text → Prop
  | done : Converted [] []
  | plain {c : Char} {pieces : List (Piece Unit)} {t : Text} :
    Converted pieces t → Converted (.plain c :: pieces) (c :: t)
  | kept {line : Text} {pieces : List (Piece Unit)} {t : Text} :
    Declined line → Converted pieces t → Converted (.found line () :: pieces) (line ++ t)
  | written {line rest : Text} {r : Requirement} {pieces : List (Piece Unit)} {t : Text} :
    r ∈ rs → WellRead r → '\n' ∉ rest → Converted pieces t →
    Converted (.found line () :: pieces) (importOf config (isDefault r) r ++ rest ++ t)

/-- A place in a converted text, given by what stands before and behind it: between two pieces, or
inside a line that was written. -/
inductive Place : (front back : Text) → Prop
  | between {before : Option Char} {pieces : List (Piece Unit)} {front back : Text} :
    Scan requireLine before pieces → beginsLine before = beginsLine front.getLast? →
    Converted config isDefault rs pieces back → Place front back
  | inside {last : Char} {pieces : List (Piece Unit)} {r : Requirement} {front a b rest t : Text} :
    r ∈ rs → WellRead r → '\n' ∉ rest → importOf config (isDefault r) r ++ rest = a ++ b →
    a ≠ [] → b ≠ [] → last ≠ '\n' → Scan requireLine (some last) pieces →
    Converted config isDefault rs pieces t → Place (front ++ a) (b ++ t)

end

variable {config : Config} {isDefault : Requirement → Option Bool} {rs : List Requirement}

/-! ## The import pass -/

/-- A line that is read gives a requirement that can be written, and nothing but the end of the line
behind its statement. -/
lemma exists_wellRead {content line : Text} {start : Nat} {continued : Bool} {r : Requirement}
    (hline : LineText line) (h : ofLine line continued = .ok r) :
    WellRead (placed content start continued r) ∧ ∃ rest, '\n' ∉ rest ∧ line = r.raw ++ rest := by
  obtain ⟨s, hstatement, hclose, hsplit, -, hquote, hindent, hproper, -⟩ := ofLine_eq_ok h
  refine ⟨⟨⟨s.quote, statement?_quote hstatement, hquote⟩, hindent, hproper⟩, s.rest, ?_, hsplit⟩
  obtain ⟨l, raw, hraw, hl⟩ := List.eq_append_cons_of_mem hclose
  obtain ⟨front, tail, -, hfront, hbreak, hline'⟩ := hline.exists_close
  have hfirst : l ++ ')' :: (raw ++ s.rest) = front ++ ')' :: tail := by
    rw [← hline', hsplit, hraw, List.append_assoc, List.cons_append]
  obtain ⟨-, rfl⟩ := append_cons_inj_left hl hfront hfirst
  exact fun hmem => hbreak (List.mem_append_right raw hmem)

/-- What stands before the requirements is woven in as it is. -/
lemma weave_append {content : Text} (front x back : Text) {rs' : List Requirement}
    (hcontent : content = front ++ (x ++ back)) (h : Standing content (front ++ x).length rs') :
    weave content front.length (rs'.map (importEdit config isDefault)) =
      x ++ weave content (front ++ x).length (rs'.map (importEdit config isDefault)) := by
  have hbound : (front ++ x).length ≤ content.length := by
    simp only [hcontent, List.length_append]
    omega
  have hslice : content.slice front.length (front ++ x).length = x := by
    rw [hcontent, List.length_append]
    exact slice_append front x back
  have hle : front.length ≤ (front ++ x).length := by
    rw [List.length_append]
    omega
  rw [weave_eq_slice_append hle (separated_importEdits hbound h), hslice]

/-- The import of the first requirement is woven in at its place. -/
lemma weave_cons {content : Text} {offset start : Nat} {r : Requirement} {rs' : List Requirement}
    (hstart : r.start = some start) :
    weave content offset ((r :: rs').map (importEdit config isDefault)) =
      content.slice offset start ++ importOf config (isDefault r) r
        ++ weave content (start + r.raw.length) (rs'.map (importEdit config isDefault)) := by
  simp only [List.map_cons, weave, importEdit, hstart, Option.getD_some, place_natCast,
    ← Int.natCast_add]

/-- **The import pass gives a converted text**, piece by piece. -/
lemma converted_weave {content : Text} {before : Option Char} {pieces : List (Piece Unit)}
    (front : Text) (continued : Bool) (hcontent : content = front ++ joined pieces)
    (hscan : Scan requireLine before pieces)
    (hrs : ∀ r ∈ (readLines content continued (places front.length pieces)).value, r ∈ rs) :
    Converted config isDefault rs pieces (weave content front.length
      ((readLines content continued (places front.length pieces)).value.map
        (importEdit config isDefault))) := by
  induction hscan generalizing front continued with
  | done =>
    have hend : weave content front.length [] = [] := by simp [weave, hcontent, joined]
    simp only [places, readLines, Reported.value_pure, List.map_nil, hend]
    exact .done
  | @plain before c pieces hnone hscan ih =>
    have hsplit : content = front ++ ([c] ++ joined pieces) := hcontent
    have hcontent' : content = front ++ [c] ++ joined pieces := by rw [hsplit, List.append_assoc]
    have hlength : (front ++ [c]).length = front.length + 1 := List.length_append
    have hstanding := standing_readLines (front ++ [c]) continued hcontent'
    have hrest := ih (front ++ [c]) continued hcontent'
    rw [hlength] at hrest
    rw [places, weave_append front [c] (joined pieces) hsplit (hlength ▸ hstanding), hlength]
    exact .plain (hrest hrs)
  | @found before c m u pieces hsome hscan ih =>
    have hline := (requireLine_append_iff.mp hsome).2.1
    set line := c :: m
    have hsplit : content = front ++ (line ++ joined pieces) := hcontent
    have hcontent' : content = front ++ line ++ joined pieces := by rw [hsplit, List.append_assoc]
    have hlength : (front ++ line).length = front.length + line.length := List.length_append
    have hstanding := fun k => standing_readLines (front ++ line) k hcontent'
    have hrest := fun k => ih (front ++ line) k hcontent'
    simp only [places, readLines, text_of_append hsplit] at hrs ⊢
    rw [← hlength] at hrs ⊢
    cases hread : ofLine line continued with
    | error e =>
      simp only [hread, Reported.value_bind] at hrs ⊢
      have hdeclined : Declined line := by
        intro r hr
        rw [ofLine_continued continued hr] at hread
        exact absurd hread (by simp)
      rw [weave_append front line (joined pieces) hsplit (hstanding false)]
      exact .kept hdeclined (hrest false hrs)
    | ok r =>
      simp only [hread, Reported.value_bind, Reported.value_pure] at hrs ⊢
      rw [List.forall_mem_cons] at hrs
      obtain ⟨hwell, rest, hbreak, hraw⟩ := exists_wellRead hline hread
      have hself : content.slice front.length front.length = [] := by simp [slice]
      have hlength' : front.length + r.raw.length = (front ++ r.raw).length :=
        List.length_append.symm
      have hwhole : front ++ r.raw ++ rest = front ++ line := by rw [List.append_assoc, ← hraw]
      rw [weave_cons rfl, hself, List.nil_append]
      change Converted config isDefault rs _ (_ ++ weave content (front.length + r.raw.length) _)
      -- behind the import comes the rest of the line
      rw [hlength', weave_append (front ++ r.raw) rest (joined pieces)
        (by rw [← List.append_assoc, hwhole, hcontent'])
        (by rw [hwhole]; exact hstanding r.chained), hwhole, ← List.append_assoc]
      exact .written hrs.1 hwell hbreak (hrest r.chained hrs.2)

/-! ## Line ends -/

/-- No line begins behind a character that is not followed by a line break. -/
lemma beginsLine_append_cons {front tail : Text} {c : Char} (hc : c ≠ '\n') (htail : '\n' ∉ tail) :
    beginsLine (front ++ c :: tail).getLast? = false := by
  rw [List.getLast?_append, List.getLast?_eq_some_getLast (List.cons_ne_nil c tail), Option.some_or]
  have hmem := List.getLast_mem (List.cons_ne_nil c tail)
  rw [beginsLine, beq_eq_false_iff_ne]
  intro heq
  rw [heq, List.mem_cons] at hmem
  rcases hmem with hmem | hmem
  · exact hc hmem.symm
  · exact htail hmem

/-- No line begins right behind a line. -/
lemma beginsLine_append_line {line : Text} (front : Text) (h : LineText line) :
    beginsLine (front ++ line).getLast? = false := by
  obtain ⟨head, tail, -, -, htail, rfl⟩ := h.exists_close
  rw [← List.append_assoc]
  exact beginsLine_append_cons (by decide) htail

/-- No line begins right behind an import and the rest of its line. -/
lemma beginsLine_append_import {front rest : Text} {r : Requirement} (d : Option Bool)
    (h : WellRead r) (hrest : '\n' ∉ rest) :
    beginsLine (front ++ (importOf config d r ++ rest)).getLast? = false := by
  obtain ⟨q, clause, -, -, htext⟩ := importOf_split config d h
  have hend : front ++ (importOf config d r ++ rest) =
      (front ++ ("import ".toList ++ (clause ++ q :: (writtenTarget config r.target ++ [q]))))
        ++ ';' :: rest := by
    rw [htext]
    simp only [List.append_assoc, List.cons_append, List.nil_append]
  rw [hend]
  exact beginsLine_append_cons (by decide) hrest

/-- What the search found as a line is one; it ends as lines do, and the search goes on behind it in
the middle of a line. -/
lemma scan_found {before : Option Char} {line : Text} {pieces : List (Piece Unit)}
    (h : Scan requireLine before (.found line () :: pieces)) :
    beginsLine before = true ∧ LineText line ∧ EndsLine (joined pieces)
      ∧ ∃ last, last ≠ '\n' ∧ Scan requireLine (some last) pieces := by
  cases h with
  | @found _ c m _ _ hsome hrest =>
    obtain ⟨hbegins, hline, hends⟩ := requireLine_append_iff.mp hsome
    refine ⟨hbegins, hline, hends, _, fun heq => ?_, hrest⟩
    have hlast := beginsLine_append_line [] hline
    rw [List.nil_append, List.getLast?_eq_some_getLast (List.cons_ne_nil c m), heq] at hlast
    exact absurd hlast (by decide)

/-- What follows a line in the text follows it in the converted text as well. -/
lemma Converted.endsLine {pieces : List (Piece Unit)} {t : Text} {last : Char}
    (h : Converted config isDefault rs pieces t) (hlast : last ≠ '\n')
    (hscan : Scan requireLine (some last) pieces) (hends : EndsLine (joined pieces)) :
    EndsLine t := by
  have hnot : beginsLine (some last) = false := by simpa [beginsLine] using hlast
  cases h with
  | done => exact Or.inl rfl
  | plain h =>
    rcases hends with hnil | ⟨r, hr⟩
    · exact absurd hnil (by simp [joined, Piece.text])
    · exact Or.inr ⟨_, by rw [(List.cons.inj hr).1]⟩
  | kept => exact absurd (scan_found hscan).1 (by simp [hnot])
  | written => exact absurd (scan_found hscan).1 (by simp [hnot])

/-! ## Reaching a place -/

/-- The place behind `a` and before `b` lies inside a line that was kept. -/
def InsideKept (front a b : Text) : Prop :=
  ∃ a₀ l₁ l₂ t, a = a₀ ++ l₁ ∧ b = l₂ ++ t ∧ l₁ ≠ [] ∧ l₂ ≠ [] ∧ LineText (l₁ ++ l₂) ∧ EndsLine t
    ∧ beginsLine (front ++ a₀).getLast? = true

/-- A place inside a kept line is one when more is counted as standing ahead of it. -/
lemma InsideKept.append {front a₁ a b : Text} (h : InsideKept (front ++ a₁) a b) :
    InsideKept front (a₁ ++ a) b := by
  obtain ⟨a₀, l₁, l₂, t, rfl, rfl, h₁, h₂, hline, hends, hbegins⟩ := h
  exact ⟨a₁ ++ a₀, l₁, l₂, t, (List.append_assoc _ _ _).symm, rfl, h₁, h₂, hline, hends,
    by rwa [← List.append_assoc]⟩

/-- Every place behind a place between pieces is one, unless it lies inside a kept line. -/
lemma Converted.place_append {pieces : List (Piece Unit)} {t : Text}
    (h : Converted config isDefault rs pieces t) {before : Option Char} (front a : Text) {b : Text}
    (hscan : Scan requireLine before pieces)
    (hbefore : beginsLine before = beginsLine front.getLast?) (hsplit : t = a ++ b) :
    Place config isDefault rs (front ++ a) b ∨ InsideKept front a b := by
  have hnot : ∀ {last : Char}, last ≠ '\n' → beginsLine (some last) = false := by
    intro last hlast
    simpa [beginsLine] using hlast
  induction h generalizing before front a with
  | done =>
    obtain ⟨rfl, rfl⟩ := List.append_eq_nil_iff.mp hsplit.symm
    rw [List.append_nil]
    exact Or.inl (.between hscan hbefore .done)
  | @plain c pieces t h ih =>
    cases a with
    | nil =>
      rw [List.append_nil, ← (show c :: t = b from hsplit)]
      exact Or.inl (.between hscan hbefore (.plain h))
    | cons d a =>
      obtain ⟨rfl, rfl⟩ := List.cons.inj hsplit
      cases hscan with
      | plain _ hrest =>
        rcases ih (front ++ [c]) a hrest (by simp) rfl with hplace | hkept
        · rw [List.append_assoc] at hplace
          exact Or.inl hplace
        · exact Or.inr hkept.append
  | @kept line pieces t hdeclined h ih =>
    obtain ⟨hbegins, hline, hends, last, hlast, hrest⟩ := scan_found hscan
    have hbehind : beginsLine (some last) = beginsLine (front ++ line).getLast? := by
      rw [hnot hlast, beginsLine_append_line _ hline]
    rcases List.append_eq_append_iff.mp hsplit with ⟨a', rfl, rfl⟩ | ⟨l₂, rfl, rfl⟩
    · rcases ih (front ++ line) a' hrest hbehind rfl with hplace | hkept
      · rw [List.append_assoc] at hplace
        exact Or.inl hplace
      · exact Or.inr hkept.append
    · by_cases ha : a = []
      · subst ha
        rw [List.append_nil]
        exact Or.inl (.between hscan hbefore (.kept hdeclined h))
      · by_cases hl : l₂ = []
        · subst hl
          rw [List.append_nil] at hbehind
          exact Or.inl (.between hrest hbehind h)
        · refine Or.inr ⟨[], a, l₂, t, rfl, rfl, ha, hl, hline, h.endsLine hlast hrest hends, ?_⟩
          rwa [List.append_nil, ← hbefore]
  | @written line rest r pieces t hr hread hrest h ih =>
    obtain ⟨-, -, -, last, hlast, hscan'⟩ := scan_found hscan
    have hbehind : beginsLine (some last) =
        beginsLine (front ++ (importOf config (isDefault r) r ++ rest)).getLast? := by
      rw [hnot hlast, beginsLine_append_import _ hread hrest]
    rcases List.append_eq_append_iff.mp hsplit with ⟨a', rfl, rfl⟩ | ⟨l₂, hl, rfl⟩
    · rcases ih _ a' hscan' hbehind rfl with hplace | hkept
      · rw [List.append_assoc] at hplace
        exact Or.inl hplace
      · exact Or.inr hkept.append
    · by_cases ha : a = []
      · subst ha
        rw [List.append_nil, ← (show _ = l₂ from hl)]
        exact Or.inl (.between hscan hbefore (.written hr hread hrest h))
      · by_cases hl₂ : l₂ = []
        · subst hl₂
          rw [List.append_nil] at hl
          rw [hl] at hbehind
          exact Or.inl (.between hscan' hbehind h)
        · exact Or.inl (.inside hr hread hrest hl ha hl₂ hlast hscan' h)

/-- Every place behind a place of a converted text is one, unless it lies inside a kept line. -/
lemma Place.append {front a b : Text} (h : Place config isDefault rs front (a ++ b)) :
    Place config isDefault rs (front ++ a) b ∨ InsideKept front a b := by
  generalize hback : a ++ b = back at h
  cases h with
  | between hscan hbefore hconverted =>
    exact hconverted.place_append front a hscan hbefore hback.symm
  | @inside last pieces r front a₁ b₁ rest t hr hread hrest htext ha₁ hb₁ hlast hscan hconverted =>
    have hbehind : beginsLine (some last) = beginsLine (front ++ a₁ ++ b₁).getLast? := by
      rw [List.append_assoc, ← htext, beginsLine_append_import _ hread hrest]
      simpa [beginsLine] using hlast
    rcases List.append_eq_append_iff.mp hback.symm with ⟨a', rfl, rfl⟩ | ⟨l₂, rfl, rfl⟩
    · rcases hconverted.place_append (front ++ a₁ ++ b₁) a' hscan hbehind rfl with hplace | hkept
      · rw [List.append_assoc _ b₁] at hplace
        exact Or.inl hplace
      · exact Or.inr hkept.append
    · by_cases hl : l₂ = []
      · subst hl
        rw [List.append_nil] at hbehind
        exact Or.inl (.between hscan hbehind hconverted)
      · rw [List.append_assoc]
        refine Or.inl (.inside hr hread hrest ?_ (by simp [ha₁]) hl hlast hscan hconverted)
        rw [htext, List.append_assoc]

/-- Behind a character at which no line begins is a place again. -/
lemma Place.of_plain {front back : Text} {c : Char}
    (h : Place config isDefault rs front (c :: back))
    (hnone : requireLine front.getLast? (c :: back) = none) :
    Place config isDefault rs (front ++ [c]) back := by
  rcases Place.append (a := [c]) h with hplace
    | ⟨a₀, l₁, l₂, t, ha, hb, hl₁, -, hline, hends, hbegins⟩
  · exact hplace
  · -- a kept line begins here, so it is matched
    obtain ⟨d, l, rfl⟩ := List.exists_cons_of_ne_nil hl₁
    obtain ⟨rfl, hd, rfl⟩ : a₀ = [] ∧ c = d ∧ l = [] := by
      cases a₀ with
      | nil => simpa using ha
      | cons e a₀ => simp at ha
    subst hb
    rw [List.append_nil] at hbegins
    have hmatch := requireLine_append_iff (u := ()).mpr ⟨hbegins, hline, hends⟩
    rw [List.append_assoc, List.singleton_append, ← hd, hnone] at hmatch
    exact absurd hmatch (by simp)

/-- **Behind a match is a place again**: no match ends inside a line that was kept. -/
lemma Place.of_match {front line back : Text} {u : Unit}
    (h : Place config isDefault rs front (line ++ back))
    (hmatch : requireLine front.getLast? (line ++ back) = some (u, back)) :
    Place config isDefault rs (front ++ line) back := by
  obtain ⟨-, hline, hends⟩ := requireLine_append_iff.mp hmatch
  rcases h.append with hplace | ⟨a₀, l₁, l₂, t, rfl, rfl, -, hl₂, hkept, -, hbegins⟩
  · exact hplace
  · -- the kept line goes on with a line break, so its parenthesis comes later
    obtain ⟨l, rfl⟩ : ∃ l, l₂ = '\n' :: l := by
      obtain ⟨d, l, rfl⟩ := List.exists_cons_of_ne_nil hl₂
      rcases hends with hnil | ⟨r, hr⟩
      · exact absurd hnil (by simp)
      · exact ⟨l, by rw [(List.cons.inj hr).1]⟩
    obtain ⟨head, tail, -, hclose, hbreak, hsplit⟩ := hkept.exists_close
    have hl₁ : ')' ∉ l₁ := by
      rcases append_eq_append_cons hsplit with ⟨l', -, rfl⟩ | ⟨a', rfl, -⟩
      · exact absurd (by simp) hbreak
      · exact fun hmem => hclose (List.mem_append_left a' hmem)
    -- so the match has its parenthesis before the kept line, and a line break behind it
    obtain ⟨head', tail', -, hclose', hbreak', hsplit'⟩ := hline.exists_close
    obtain ⟨a₁, rfl, rfl⟩ : ∃ a₁, a₀ = head' ++ ')' :: a₁ ∧ tail' = a₁ ++ l₁ := by
      rcases append_eq_append_cons hsplit' with ⟨a₁, ha₀, htail⟩ | ⟨a', -, hmem⟩
      · exact ⟨a₁, ha₀, htail⟩
      · exact absurd (by rw [hmem]; simp) hl₁
    have hnot : '\n' ∉ a₁ := fun hmem => hbreak' (List.mem_append_left l₁ hmem)
    rw [← List.append_assoc, beginsLine_append_cons (by decide) hnot] at hbegins
    exact absurd hbegins (by decide)

end Esmify
