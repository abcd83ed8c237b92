import Esmify.Proofs.Text
import Esmify.Source.Pattern

/-!
# A text cut at the matches of a pattern

**Searching for a pattern cuts a text into pieces**: single characters at which no match begins, and
matches. `Scan` says so as a judgment on the list of pieces, each with the text behind it present,
so that whoever changes some of the pieces can ask again what matches where. A pattern whose matches
are never empty cuts every text in exactly such a way (`exists_scan`); `occurrences` lists its
matches with the offsets at which they stand (`occurrences_eq_places`), `first?` gives the first of
them (`first?_eq_some`), and `replaceAll` puts values in their place (`replaceAll_eq_replaced`). -/

namespace Esmify.Source

open Text

variable {α : Type}

/-! ## Pieces -/

/-- A piece of a text that has been searched: a character at which no match begins, or a match. -/
inductive Piece (α : Type)
  | plain (c : Char)
  | found (text : Text) (value : α)

/-- The characters of a piece. -/
def Piece.text : Piece α → Text
  | .plain c => [c]
  | .found text _ => text

/-- The text that is cut into the given pieces. -/
def joined : List (Piece α) → Text
  | [] => []
  | piece :: pieces => piece.text ++ joined pieces

/-- Every match of a pattern takes something off the front of the text. -/
def Consumes (p : Pattern α) : Prop :=
  ∀ before t a rest, p before t = some (a, rest) → ∃ m, m ≠ [] ∧ t = m ++ rest

/-- A pattern that takes something off finds nothing at the end of a text. -/
lemma Consumes.eq_none_of_nil {p : Pattern α} (hp : Consumes p) (before : Option Char) :
    p before [] = none := by
  rw [Option.eq_none_iff_forall_ne_some]
  rintro ⟨a, rest⟩ h
  obtain ⟨m, hm, heq⟩ := hp before [] a rest h
  exact hm (List.append_eq_nil_iff.mp heq.symm).1

/-- The pieces into which a pattern cuts the text behind the character `before`. -/
inductive Scan (p : Pattern α) : (before : Option Char) → List (Piece α) → Prop
  | done {before : Option Char} : p before [] = none → Scan p before []
  | plain {before : Option Char} {c : Char} {pieces : List (Piece α)} :
    p before (c :: joined pieces) = none → Scan p (some c) pieces →
    Scan p before (.plain c :: pieces)
  | found {before : Option Char} {c : Char} {m : Text} {a : α} {pieces : List (Piece α)} :
    p before (c :: m ++ joined pieces) = some (a, joined pieces) →
    Scan p (some ((c :: m).getLast (List.cons_ne_nil c m))) pieces →
    Scan p before (.found (c :: m) a :: pieces)

/-- A pattern whose matches are never empty cuts every text into pieces. -/
lemma exists_scan {p : Pattern α} (hp : Consumes p) (t : Text) (before : Option Char) :
    ∃ pieces, joined pieces = t ∧ Scan p before pieces := by
  induction hn : t.length using Nat.strongRecOn generalizing t before with
  | ind n ih =>
    cases t with
    | nil => exact ⟨[], rfl, .done (hp.eq_none_of_nil before)⟩
    | cons c cs =>
      rw [List.length_cons] at hn
      cases hmatch : p before (c :: cs) with
      | none =>
        obtain ⟨pieces, hjoined, hscan⟩ := ih cs.length (by omega) cs (some c) rfl
        exact ⟨.plain c :: pieces, by simp [joined, Piece.text, hjoined],
          .plain (by rwa [hjoined]) hscan⟩
      | some found =>
        obtain ⟨a, rest⟩ := found
        obtain ⟨m, hm, heq⟩ := hp before (c :: cs) a rest hmatch
        obtain ⟨d, m, rfl⟩ := List.exists_cons_of_ne_nil hm
        have hlength : (c :: cs).length = (d :: m).length + rest.length := by
          rw [heq, List.length_append]
        simp only [List.length_cons] at hlength
        obtain ⟨pieces, hjoined, hscan⟩ :=
          ih rest.length (by omega) rest (some ((d :: m).getLast (List.cons_ne_nil d m))) rfl
        refine ⟨.found (d :: m) a :: pieces, ?_, .found ?_ hscan⟩
        · simp only [joined, Piece.text, hjoined, heq]
        · rwa [hjoined, ← heq]

/-! ## Offsets -/

/-- The matches among pieces whose first character stands at `offset`. -/
def places : (offset : Nat) → List (Piece α) → List (Occurrence α)
  | _, [] => []
  | offset, .plain _ :: pieces => places (offset + 1) pieces
  | offset, .found text value :: pieces =>
    ⟨offset, offset + text.length, value⟩ :: places (offset + text.length) pieces

/-- Characters that belong to an earlier match are passed over. -/
lemma occurrencesFrom_skip (p : Pattern α) (m t : Text) (c : Char) (offset : Nat) :
    occurrencesFrom p (some c) offset m.length (m ++ t) =
      occurrencesFrom p (some ((c :: m).getLast (List.cons_ne_nil c m)))
        (offset + m.length) 0 t := by
  induction m generalizing c offset with
  | nil => rfl
  | cons d m ih =>
    rw [List.length_cons, List.cons_append, occurrencesFrom, ih d (offset + 1),
      List.getLast_cons (List.cons_ne_nil d m), Nat.add_right_comm, Nat.add_assoc]

/-- The search for a pattern finds the matches among the pieces. -/
lemma occurrencesFrom_eq_places {p : Pattern α} {before : Option Char} {pieces : List (Piece α)}
    (h : Scan p before pieces) (offset : Nat) :
    occurrencesFrom p before offset 0 (joined pieces) = places offset pieces := by
  induction h generalizing offset with
  | done hnone => simp only [joined, occurrencesFrom, hnone, places]
  | plain hnone _ ih =>
    simp only [joined, Piece.text, List.singleton_append, occurrencesFrom, hnone, places]
    exact ih (offset + 1)
  | @found before c m a pieces hsome _ ih =>
    have hsize : (c :: (m ++ joined pieces)).length - (joined pieces).length = m.length + 1 := by
      simp only [List.length_cons, List.length_append]
      omega
    rw [List.cons_append] at hsome
    simp only [joined, Piece.text, List.cons_append, occurrencesFrom, hsome, places, hsize,
      Nat.add_sub_cancel]
    rw [occurrencesFrom_skip, ih, List.length_cons, Nat.add_assoc, Nat.add_comm 1]

/-- The text of a match is what stands between its offsets. -/
lemma text_of_append {content front m back : Text} {a : α} (h : content = front ++ (m ++ back)) :
    (⟨front.length, front.length + m.length, a⟩ : Occurrence α).text content = m := by
  rw [h]
  exact slice_append front m back

/-- **The search finds exactly the matches among the pieces.** -/
lemma occurrences_eq_places {p : Pattern α} {pieces : List (Piece α)} (h : Scan p none pieces) :
    occurrences p (joined pieces) = places 0 pieces :=
  occurrencesFrom_eq_places h 0

/-- Matches stand one behind the other. -/
lemma pairwise_places (offset : Nat) (pieces : List (Piece α)) :
    (∀ o ∈ places offset pieces, offset ≤ o.start)
      ∧ (places offset pieces).Pairwise fun a b => a.stop ≤ b.start := by
  induction pieces generalizing offset with
  | nil => simp [places]
  | cons piece pieces ih =>
    cases piece with
    | plain c =>
      obtain ⟨hstart, hpairs⟩ := ih (offset + 1)
      exact ⟨fun o ho => Nat.le_of_succ_le (hstart o ho), hpairs⟩
    | found text value =>
      obtain ⟨hstart, hpairs⟩ := ih (offset + text.length)
      refine ⟨fun o ho => ?_, List.pairwise_cons.mpr ⟨hstart, hpairs⟩⟩
      rcases List.mem_cons.mp ho with rfl | ho
      · exact le_rfl
      · exact Nat.le_trans (Nat.le_add_right _ _) (hstart o ho)

/-- A character that stands in none of the single ones stands in a match. -/
lemma exists_place_of_not_plain {pieces : List (Piece α)} {front back : Text} {c : Char}
    (hc : Piece.plain c ∉ pieces) (h : joined pieces = front ++ c :: back) (offset : Nat) :
    ∃ o ∈ places offset pieces, o.start ≤ offset + front.length
      ∧ offset + front.length < o.stop := by
  induction pieces generalizing front offset with
  | nil => exact absurd h (by simp [joined])
  | cons piece pieces ih =>
    rw [List.mem_cons, not_or] at hc
    cases piece with
    | plain d =>
      cases front with
      | nil =>
        obtain ⟨rfl, -⟩ := List.cons.inj h
        exact absurd rfl hc.1
      | cons e front =>
        obtain ⟨o, ho, hstart, hstop⟩ := ih hc.2 (List.cons.inj h).2 (offset + 1)
        exact ⟨o, ho, by rw [List.length_cons]; omega, by rw [List.length_cons]; omega⟩
    | found text value =>
      have hsplit : text ++ joined pieces = front ++ c :: back := h
      rcases append_eq_append_cons hsplit with ⟨m, rfl, -⟩ | ⟨m, rfl, hm⟩
      · refine ⟨_, List.mem_cons_self, by simp, ?_⟩
        simp only [List.length_append, List.length_cons]
        omega
      · obtain ⟨o, ho, hstart, hstop⟩ := ih hc.2 hm (offset + text.length)
        refine ⟨o, List.mem_cons_of_mem _ ho, ?_, ?_⟩
        all_goals rw [List.length_append]; omega

/-- The text of pieces one behind the other. -/
lemma joined_append (pieces pieces' : List (Piece α)) :
    joined (pieces ++ pieces') = joined pieces ++ joined pieces' := by
  induction pieces with
  | nil => rfl
  | cons piece pieces ih => rw [List.cons_append, joined, joined, ih, List.append_assoc]

/-- The matches among pieces are those of a first part, and those of the rest behind it. -/
lemma places_append (offset : Nat) (pieces pieces' : List (Piece α)) :
    places offset (pieces ++ pieces') =
      places offset pieces ++ places (offset + (joined pieces).length) pieces' := by
  induction pieces generalizing offset with
  | nil => rfl
  | cons piece pieces ih =>
    cases piece with
    | plain c =>
      rw [List.cons_append, places, ih, places, joined, List.length_append, ← Nat.add_assoc]
      rfl
    | found text value =>
      rw [List.cons_append, places, ih, places, joined, List.length_append, ← Nat.add_assoc]
      rfl

/-- Single characters one after the other. -/
lemma joined_map_plain (u : Text) (pieces : List (Piece α)) :
    joined (u.map Piece.plain ++ pieces) = u ++ joined pieces := by
  induction u with
  | nil => rfl
  | cons c u ih =>
    simp only [List.map_cons, List.cons_append, joined, Piece.text, ih, List.nil_append]

/-- Single characters move the matches behind them. -/
lemma places_map_plain (offset : Nat) (u : Text) (pieces : List (Piece α)) :
    places offset (u.map Piece.plain ++ pieces) = places (offset + u.length) pieces := by
  induction u generalizing offset with
  | nil => rfl
  | cons c u ih =>
    rw [List.map_cons, List.cons_append, places, ih, List.length_cons, Nat.add_assoc,
      Nat.add_comm 1]

/-- A part of a text in which no match begins is cut into single characters. -/
lemma Scan.map_plain {p : Pattern α} {u : Text} {pieces : List (Piece α)} {before : Option Char}
    (hu : ∀ before a b, u = a ++ b → b ≠ [] → p before (b ++ joined pieces) = none)
    (h : ∀ before, Scan p before pieces) : Scan p before (u.map Piece.plain ++ pieces) := by
  induction u generalizing before with
  | nil => exact h before
  | cons c u ih =>
    rw [List.map_cons, List.cons_append]
    refine .plain ?_ (ih ?_)
    · rw [joined_map_plain]
      exact hu before [] (c :: u) rfl (List.cons_ne_nil c u)
    · intro before' a b hsplit hne
      exact hu before' (c :: a) b (by rw [hsplit]; rfl) hne

/-- The pieces behind others are those of the text behind them. -/
lemma Scan.behind {p : Pattern α} {before : Option Char} {ahead pieces : List (Piece α)}
    (h : Scan p before (ahead ++ pieces)) : Scan p ((joined ahead).getLast?.or before) pieces := by
  induction ahead generalizing before with
  | nil => exact h
  | cons piece ahead ih =>
    cases h with
    | @plain _ c _ _ hscan =>
      have hlast : (joined (.plain c :: ahead)).getLast?.or before
          = (joined ahead).getLast?.or (some c) := by
        rw [joined, Piece.text, List.getLast?_append, Option.or_assoc]
        rfl
      rw [hlast]
      exact ih hscan
    | @found _ c m a _ _ hscan =>
      have hlast : (joined (.found (c :: m) a :: ahead)).getLast?.or before =
          (joined ahead).getLast?.or (some ((c :: m).getLast (List.cons_ne_nil c m))) := by
        rw [joined, Piece.text, List.getLast?_append, Option.or_assoc,
          List.getLast?_eq_some_getLast (List.cons_ne_nil c m), Option.some_or]
      rw [hlast]
      exact ih hscan

/-! ## Replacing -/

/-- The text with the value of each match in its place. -/
def replaced : List (Piece Text) → Text
  | [] => []
  | .plain c :: pieces => c :: replaced pieces
  | .found _ value :: pieces => value ++ replaced pieces

/-- Single characters are kept. -/
lemma replaced_map_plain (u : Text) (pieces : List (Piece Text)) :
    replaced (u.map Piece.plain ++ pieces) = u ++ replaced pieces := by
  induction u with
  | nil => rfl
  | cons c u ih => rw [List.map_cons, List.cons_append, replaced, ih, List.cons_append]

/-- Characters that belong to an earlier match are left out. -/
lemma replaceFrom_skip (p : Pattern Text) (m t : Text) (c : Char) :
    replaceFrom p (some c) m.length (m ++ t) =
      replaceFrom p (some ((c :: m).getLast (List.cons_ne_nil c m))) 0 t := by
  induction m generalizing c with
  | nil => rfl
  | cons d m ih =>
    rw [List.length_cons, List.cons_append, replaceFrom, ih d,
      List.getLast_cons (List.cons_ne_nil d m)]

/-- Replacing puts the values in the place of the matches. -/
lemma replaceFrom_eq_replaced {p : Pattern Text} {before : Option Char} {pieces : List (Piece Text)}
    (h : Scan p before pieces) : replaceFrom p before 0 (joined pieces) = replaced pieces := by
  induction h with
  | done _ => rfl
  | plain hnone _ ih =>
    simp only [joined, Piece.text, List.singleton_append, replaceFrom, hnone, replaced, ih]
  | @found before c m a pieces hsome _ ih =>
    have hsize : (m ++ joined pieces).length - (joined pieces).length = m.length := by
      rw [List.length_append]
      omega
    rw [List.cons_append] at hsome
    simp only [joined, Piece.text, List.cons_append, replaceFrom, hsome, replaced, hsize]
    rw [replaceFrom_skip, ih]

/-- **Replacing puts the value of each match among the pieces in its place.** -/
lemma replaceAll_eq_replaced {p : Pattern Text} {pieces : List (Piece Text)}
    (h : Scan p none pieces) :
    replaceAll p (joined pieces) = replaced pieces :=
  replaceFrom_eq_replaced h

/-! ## First matches -/

/-- The first match stands at its offset and stops where what follows it begins. -/
lemma firstFrom_span {p : Pattern α} {before : Option Char} {offset : Nat} {t : Text}
    {m : Occurrence α} (h : firstFrom p before offset t = some m) :
    ∃ front back rest, t = front ++ back ∧ m.start = offset + front.length
      ∧ m.stop = m.start + (back.length - rest.length)
      ∧ p (front.getLast?.or before) back = some (m.value, rest) := by
  induction t generalizing before offset with
  | nil =>
    rw [firstFrom] at h
    obtain ⟨⟨a, rest⟩, hp, rfl⟩ := Option.map_eq_some_iff.mp h
    exact ⟨[], [], rest, rfl, rfl, by simp, hp⟩
  | cons c cs ih =>
    rw [firstFrom] at h
    cases hp : p before (c :: cs) with
    | none =>
      rw [hp] at h
      obtain ⟨front, back, rest, rfl, hstart, hstop, hp'⟩ := ih h
      refine ⟨c :: front, back, rest, rfl, by rw [hstart, List.length_cons]; omega, hstop, ?_⟩
      rwa [List.getLast?_cons, Option.some_or, ← Option.or_some]
    | some found =>
      obtain ⟨a, rest⟩ := found
      rw [hp] at h
      obtain ⟨rfl⟩ := Option.some.inj h
      exact ⟨[], c :: cs, rest, rfl, rfl, rfl, hp⟩

/-- **The first match of a pattern stands in the text**, and stops where what follows it begins. -/
lemma first?_span {p : Pattern α} {t : Text} {m : Occurrence α} (h : first? p t = some m) :
    ∃ front back rest, t = front ++ back ∧ m.start = front.length
      ∧ m.stop = m.start + (back.length - rest.length)
      ∧ p front.getLast? back = some (m.value, rest) := by
  obtain ⟨front, back, rest, hsplit, hstart, hstop, hp⟩ := firstFrom_span h
  rw [Option.or_none] at hp
  exact ⟨front, back, rest, hsplit, by omega, hstop, hp⟩

/-- The first match of a pattern stands in the text, and its value comes from there. -/
lemma first?_eq_some {p : Pattern α} {t : Text} {m : Occurrence α} (h : first? p t = some m) :
    ∃ front back rest, t = front ++ back ∧ m.start = front.length
      ∧ p front.getLast? back = some (m.value, rest) := by
  obtain ⟨front, back, rest, hsplit, hstart, -, hp⟩ := first?_span h
  exact ⟨front, back, rest, hsplit, hstart, hp⟩

/-- A search from a place on finds something when there is a match behind it. -/
lemma isSome_firstFrom {p : Pattern α} {before : Option Char} {offset : Nat} {front back : Text}
    (h : (p (front.getLast?.or before) back).isSome = true) :
    (firstFrom p before offset (front ++ back)).isSome = true := by
  induction front generalizing before offset with
  | nil =>
    rw [List.getLast?_nil, Option.none_or] at h
    obtain ⟨⟨a, rest⟩, hp⟩ := Option.isSome_iff_exists.mp h
    cases back with
    | nil => simp only [List.nil_append, firstFrom, hp, Option.map_some, Option.isSome_some]
    | cons c cs => simp only [List.nil_append, firstFrom, hp, Option.isSome_some]
  | cons c front ih =>
    rw [List.getLast?_cons, Option.some_or, ← Option.or_some] at h
    rw [List.cons_append, firstFrom]
    cases hp : p before (c :: (front ++ back)) with
    | none => exact ih h
    | some found => rfl

/-- **A pattern matches somewhere** exactly when the text can be cut in front of a match. -/
lemma holdsSomewhere_iff {p : Pattern α} {t : Text} :
    holdsSomewhere p t = true ↔
      ∃ front back, t = front ++ back ∧ (p front.getLast? back).isSome = true := by
  unfold holdsSomewhere
  constructor
  · intro h
    obtain ⟨m, hm⟩ := Option.isSome_iff_exists.mp h
    obtain ⟨front, back, rest, hsplit, -, hp⟩ := first?_eq_some hm
    exact ⟨front, back, hsplit, Option.isSome_iff_exists.mpr ⟨_, hp⟩⟩
  · rintro ⟨front, back, rfl, h⟩
    exact isSome_firstFrom (by rwa [Option.or_none])

/-! ## Invariants of a search -/

/-- **Every match is found at a place that the search can reach**: what holds where the search
begins and is kept by a character without a match and by a match holds where each match begins. -/
lemma Scan.exists_of_mem_places {p : Pattern α} {Reached : Text → Text → Prop}
    (hplain : ∀ front c back, Reached front (c :: back) → p front.getLast? (c :: back) = none →
      Reached (front ++ [c]) back)
    (hfound : ∀ front m back a, Reached front (m ++ back) →
      p front.getLast? (m ++ back) = some (a, back) → Reached (front ++ m) back)
    {before : Option Char} {pieces : List (Piece α)} (h : Scan p before pieces) (front : Text)
    (hbefore : before = front.getLast?) (hreached : Reached front (joined pieces)) :
    ∀ o ∈ places front.length pieces, ∃ front' m back, o.start = front'.length
      ∧ o.stop = front'.length + m.length ∧ front ++ joined pieces = front' ++ (m ++ back)
      ∧ Reached front' (m ++ back) ∧ p front'.getLast? (m ++ back) = some (o.value, back) := by
  induction h generalizing front with
  | done hnone => simp [places]
  | @plain before c pieces hnone _ ih =>
    subst hbefore
    have hnext := ih (front ++ [c]) (by simp) (hplain front c (joined pieces) hreached hnone)
    simpa only [places, joined, Piece.text, List.length_append, List.length_singleton,
      List.append_assoc] using hnext
  | @found before c m a pieces hsome _ ih =>
    subst hbefore
    have hlast : some ((c :: m).getLast (List.cons_ne_nil c m)) = (front ++ c :: m).getLast? := by
      rw [List.getLast?_append, List.getLast?_eq_some_getLast (List.cons_ne_nil c m),
        Option.some_or]
    have hnext := ih (front ++ c :: m) hlast
      (hfound front (c :: m) (joined pieces) a hreached hsome)
    intro o ho
    rcases List.mem_cons.mp ho with rfl | ho
    · exact ⟨front, c :: m, joined pieces, rfl, rfl, rfl, hreached, hsome⟩
    · rw [List.length_append, List.append_assoc] at hnext
      exact hnext o ho

/-- The matches of a pattern stand in the text. -/
lemma exists_of_mem_occurrences {p : Pattern α} (hp : Consumes p) {t : Text} {o : Occurrence α}
    (h : o ∈ occurrences p t) :
    ∃ front m back, t = front ++ (m ++ back) ∧ o.start = front.length
      ∧ o.stop = front.length + m.length ∧ o.text t = m
      ∧ p front.getLast? (m ++ back) = some (o.value, back) := by
  obtain ⟨pieces, rfl, hscan⟩ := exists_scan hp t none
  rw [occurrences_eq_places hscan] at h
  obtain ⟨front, m, back, hstart, hstop, hsplit, -, hmatch⟩ :=
    @Scan.exists_of_mem_places _ p (fun _ _ => True) (fun _ _ _ _ _ => trivial)
      (fun _ _ _ _ _ _ => trivial) _ _ hscan [] rfl trivial o h
  rw [List.nil_append] at hsplit
  refine ⟨front, m, back, hsplit, hstart, hstop, ?_, hmatch⟩
  rw [Occurrence.text, hstart, hstop, hsplit, slice_append]

/-! ## Patterns that match nowhere -/

/-- A pattern matches at no place of a text. -/
def Nowhere (p : Pattern α) (t : Text) : Prop :=
  ∀ front back, t = front ++ back → p front.getLast? back = none

/-- A pattern without a match holds nowhere. -/
lemma Nowhere.holdsSomewhere {p : Pattern α} {t : Text} (h : Nowhere p t) :
    holdsSomewhere p t = false := by
  rw [← Bool.not_eq_true, holdsSomewhere_iff]
  rintro ⟨front, back, hsplit, hsome⟩
  rw [h front back hsplit] at hsome
  exact absurd hsome (by simp)

/-- A pattern without a match has no first one. -/
lemma Nowhere.first? {p : Pattern α} {t : Text} (h : Nowhere p t) : first? p t = none :=
  Option.isNone_iff_eq_none.mp (Option.isSome_eq_false_iff.mp h.holdsSomewhere)

/-- A pattern without a match has no occurrences. -/
lemma Nowhere.occurrences {p : Pattern α} {t : Text} (h : Nowhere p t) (hp : Consumes p) :
    occurrences p t = [] := by
  rw [List.eq_nil_iff_forall_not_mem]
  intro o ho
  obtain ⟨front, m, back, hsplit, -, -, -, hmatch⟩ := exists_of_mem_occurrences hp ho
  rw [h front (m ++ back) hsplit] at hmatch
  exact absurd hmatch (by simp)

/-- Without a match nothing is replaced. -/
lemma Nowhere.replaceAll {p : Pattern Text} {t : Text} (h : Nowhere p t) : replaceAll p t = t := by
  have hfrom : ∀ front back, t = front ++ back → replaceFrom p front.getLast? 0 back = back := by
    intro front back hsplit
    induction back generalizing front with
    | nil => rfl
    | cons c back ih =>
      have hrest := ih (front ++ [c]) (by rw [hsplit, List.append_assoc]; rfl)
      rw [List.getLast?_concat] at hrest
      simp only [replaceFrom, h front (c :: back) hsplit, hrest]
  exact hfrom [] t rfl

end Esmify.Source
