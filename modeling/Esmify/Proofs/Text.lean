import Mathlib.Data.List.Basic
import Mathlib.Data.List.TakeWhile
import Mathlib.Tactic.Lemma
import Esmify.Text.Blank

/-!
# Parts of texts

What cutting and trimming leave of a text, said by writing the text as a concatenation: the other
modules never look at offsets when a decomposition does. `slice_append` and `standsAt_append` read a
middle part back, `dropWhile_split` and `dropEndWhile_split` say what was passed over, and
`trim_split` what trimming removes.
-/

namespace Esmify.Text

/-- What holds of all characters of a text is decided along the text. There are finitely many
characters at all, so that without this instance each of them may be looked at. -/
instance (priority := high) decidableForallMem (p : Char → Prop) [DecidablePred p] (t : Text) :
    Decidable (∀ c ∈ t, p c) :=
  List.decidableBAll p t

/-- What holds of the characters of a literal holds of the literal. A text is evaluated with its
characters written out, since a literal is decoded again at every step. -/
lemma of_chars {P : Text → Prop} {l : List Char} (h : P l) : P (String.ofList l).toList := by
  rwa [String.toList_ofList]

/-! ## Slices -/

/-- The middle of three parts is the slice between the lengths. -/
@[simp] lemma slice_append (front middle back : Text) :
    (front ++ (middle ++ back)).slice front.length (front.length + middle.length) = middle := by
  unfold slice
  rw [List.take_length_add_append, List.drop_left, List.take_left]

/-- A slice up to the end of the text is what stands from its start on. -/
lemma slice_length (t : Text) (start : Nat) : t.slice start t.length = t.drop start := by
  unfold slice
  rw [List.take_length]

/-- A slice is cut in two at any offset inside it. -/
lemma slice_append_slice (t : Text) {a b c : Nat} (hab : a ≤ b) (hbc : b ≤ c) :
    t.slice a b ++ t.slice b c = t.slice a c := by
  unfold slice
  have htake : t.take b = (t.take c).take b := by rw [List.take_take, Nat.min_eq_left hbc]
  rw [htake]
  calc ((t.take c).take b).drop a ++ (t.take c).drop b
      = ((t.take c).take b ++ (t.take c).drop b).drop a := by
        by_cases hb : b ≤ (t.take c).length
        · rw [List.drop_append_of_le_length]
          rwa [List.length_take, Nat.min_eq_left hb]
        · rw [List.drop_eq_nil_of_le (by omega : (t.take c).length ≤ b), List.append_nil,
            List.append_nil]
    _ = (t.take c).drop a := by rw [List.take_append_drop]

/-- A part stands at the length of what is in front of it. -/
lemma standsAt_append (front middle back : Text) :
    standsAt middle (front ++ (middle ++ back)) front.length = true := by
  unfold standsAt
  rw [List.drop_left, Bool.and_eq_true, decide_eq_true_iff, List.length_append]
  exact ⟨by omega, List.isPrefixOf_iff_prefix.mpr (List.prefix_append middle back)⟩

/-- What stands at an offset is the slice from there on, and lies within the text. -/
lemma slice_of_standsAt {needle t : Text} {offset : Nat} (h : standsAt needle t offset = true) :
    t.slice offset (offset + needle.length) = needle ∧ offset + needle.length ≤ t.length := by
  unfold standsAt at h
  rw [Bool.and_eq_true, decide_eq_true_iff, List.isPrefixOf_iff_prefix] at h
  obtain ⟨hle, back, hback⟩ := h
  have hlength : (t.take offset).length = offset := by simp [hle]
  have hsplit : t = t.take offset ++ (needle ++ back) := by
    rw [hback, List.take_append_drop]
  constructor
  · have hslice := slice_append (t.take offset) needle back
    rwa [← hsplit, hlength] at hslice
  · have := congrArg List.length hsplit
    simp only [List.length_append, hlength] at this
    omega

/-! ## Passing over characters -/

/-- A text is what `dropWhile` passes over and what it leaves, which does not begin with another
such character. -/
lemma dropWhile_split (p : Char → Bool) (t : Text) :
    ∃ passed, (∀ c ∈ passed, p c = true) ∧ t = passed ++ t.dropWhile p
      ∧ ∀ c rest, t.dropWhile p = c :: rest → p c = false := by
  refine ⟨t.takeWhile p, fun c hc => List.mem_takeWhile_imp hc,
    List.takeWhile_append_dropWhile.symm, fun c rest h => ?_⟩
  have hhead := List.head?_dropWhile_not p t
  rw [h] at hhead
  simpa using hhead

/-- Passing over characters stops at the first other one. -/
lemma dropWhile_append_cons {p : Char → Bool} {passed : Text} (hp : ∀ c ∈ passed, p c = true)
    {c : Char} (hc : p c = false) (rest : Text) :
    (passed ++ c :: rest).dropWhile p = c :: rest := by
  rw [List.dropWhile_append_of_pos hp, List.dropWhile_cons_of_neg (by simp [hc])]

/-- What is passed over ends before the first other character. -/
lemma takeWhile_append_cons {p : Char → Bool} {passed : Text} (hp : ∀ c ∈ passed, p c = true)
    {c : Char} (hc : p c = false) (rest : Text) :
    (passed ++ c :: rest).takeWhile p = passed := by
  rw [List.takeWhile_append_of_pos hp, List.takeWhile_cons_of_neg (by simp [hc]), List.append_nil]

/-- A text is what `dropEndWhile` leaves and the ending that it takes off. -/
lemma dropEndWhile_split (p : Char → Bool) (t : Text) :
    ∃ ending, (∀ c ∈ ending, p c = true) ∧ t = dropEndWhile p t ++ ending
      ∧ ∀ c, (dropEndWhile p t).getLast? = some c → p c = false := by
  obtain ⟨passed, hpassed, hsplit, hhead⟩ := dropWhile_split p t.reverse
  refine ⟨passed.reverse, fun c hc => hpassed c (List.mem_reverse.mp hc), ?_, fun c hc => ?_⟩
  · have := congrArg List.reverse hsplit
    rwa [List.reverse_reverse, List.reverse_append] at this
  · unfold dropEndWhile at hc
    rw [List.getLast?_reverse] at hc
    obtain ⟨rest, hrest⟩ := List.head?_eq_some_iff.mp hc
    exact hhead c rest hrest

/-! ## First occurrences -/

/-- A text has the last character of what it ends with. -/
lemma getLast?_of_suffix {u t : Text} (hne : u ≠ []) (h : u <:+ t) : u.getLast? = t.getLast? := by
  obtain ⟨front, rfl⟩ := h
  exact (List.getLast?_append_of_ne_nil front hne).symm

/-- A character of a concatenation stands in one of the two parts. -/
lemma append_eq_append_cons {l r a b : Text} {c : Char} (h : l ++ r = a ++ c :: b) :
    (∃ l', l = a ++ c :: l' ∧ b = l' ++ r) ∨ ∃ a', a = l ++ a' ∧ r = a' ++ c :: b := by
  rcases List.append_eq_append_iff.mp h with ⟨m, rfl, hm⟩ | ⟨m, rfl, hm⟩
  · exact Or.inr ⟨m, rfl, hm⟩
  · cases m with
    | nil => exact Or.inr ⟨[], by simp, hm.symm⟩
    | cons d m =>
      rw [List.cons_append, List.cons.injEq] at hm
      exact Or.inl ⟨m, by rw [hm.1], hm.2⟩

/-- A character that the first part lacks stands in the second. -/
lemma append_eq_append_cons_of_not_mem {l r a b : Text} {c : Char} (hc : c ∉ l)
    (h : l ++ r = a ++ c :: b) : ∃ a', a = l ++ a' ∧ r = a' ++ c :: b := by
  rcases append_eq_append_cons h with ⟨l', rfl, -⟩ | hsplit
  · exact absurd (by simp) hc
  · exact hsplit

/-- A word that lacks a character stands on one side of it. -/
lemma append_cons_eq_append_word {l r front w back : Text} {c : Char} (hc : c ∉ w)
    (h : l ++ c :: r = front ++ (w ++ back)) :
    (∃ m, l = front ++ (w ++ m) ∧ back = m ++ c :: r) ∨
      ∃ m, front = l ++ c :: m ∧ r = m ++ (w ++ back) := by
  rcases append_eq_append_cons h.symm with ⟨m, rfl, hr⟩ | ⟨m, rfl, hm⟩
  · exact Or.inr ⟨m, rfl, hr⟩
  · obtain ⟨m', rfl, hback⟩ := append_eq_append_cons_of_not_mem hc hm
    exact Or.inl ⟨m', rfl, hback⟩

/-- The first occurrence of a character is where it is. -/
lemma append_cons_inj_left {a b x y : Text} {c : Char} (ha : c ∉ a) (hb : c ∉ b)
    (h : a ++ c :: x = b ++ c :: y) : a = b ∧ x = y := by
  obtain ⟨m, rfl, hm⟩ := append_eq_append_cons_of_not_mem ha h
  cases m with
  | nil => exact ⟨(List.append_nil a).symm, (List.cons.inj hm).2⟩
  | cons d m =>
    rw [List.cons_append, List.cons.injEq] at hm
    exact absurd (by simp [hm.1]) hb

/-- A text does not have two different characters as its first one of either kind. -/
lemma append_cons_ne {a b x y : Text} {c d : Char} (hne : c ≠ d) (hc : c ∉ b) (hd : d ∉ a) :
    a ++ c :: x ≠ b ++ d :: y := by
  intro h
  obtain ⟨m, rfl, hm⟩ := append_eq_append_cons_of_not_mem hd h
  cases m with
  | nil => exact hne (List.cons.inj hm).1
  | cons e m =>
    rw [List.cons_append, List.cons.injEq] at hm
    exact hc (by simp [hm.1])

/-- A text is cut at its first mark. -/
lemma partition_append_cons {mark : Char} {l : Text} (hl : mark ∉ l) (r : Text) :
    partition mark (l ++ mark :: r) = (l, some r) := by
  have hpassed : ∀ c ∈ l, (c != mark) = true := by
    intro c hc
    rw [bne_iff_ne]
    rintro rfl
    exact hl hc
  unfold partition
  rw [dropWhile_append_cons hpassed (by simp), takeWhile_append_cons hpassed (by simp)]

/-- A text without the mark is not cut. -/
lemma partition_of_not_mem {mark : Char} {t : Text} (h : mark ∉ t) :
    partition mark t = (t, none) := by
  unfold partition
  rw [List.dropWhile_eq_nil_iff.mpr fun c hc => by rw [bne_iff_ne]; rintro rfl; exact h hc]

/-- A text is cut at its first mark, or has none. -/
lemma partition_cases (mark : Char) (t : Text) :
    (mark ∉ t ∧ partition mark t = (t, none)) ∨
      ∃ l r, mark ∉ l ∧ t = l ++ mark :: r ∧ partition mark t = (l, some r) := by
  by_cases hmem : mark ∈ t
  · obtain ⟨l, r, rfl, hl⟩ := List.eq_append_cons_of_mem hmem
    exact Or.inr ⟨l, r, hl, rfl, partition_append_cons hl r⟩
  · exact Or.inl ⟨hmem, partition_of_not_mem hmem⟩

/-! ## Trimming -/

/-- A text is what trimming leaves between two runs of white space; it neither begins nor ends with
white space. -/
lemma trim_split (t : Text) :
    ∃ front back, (∀ c ∈ front, isBlank c = true) ∧ (∀ c ∈ back, isBlank c = true)
      ∧ t = front ++ (trim t ++ back)
      ∧ (∀ c, (trim t).head? = some c → isBlank c = false)
      ∧ ∀ c, (trim t).getLast? = some c → isBlank c = false := by
  obtain ⟨front, hfront, hsplit, hhead⟩ := dropWhile_split isBlank t
  obtain ⟨back, hback, hsplit', hlast⟩ := dropEndWhile_split isBlank (trimStart t)
  refine ⟨front, back, hfront, hback, ?_, fun c hc => ?_, hlast⟩
  · rw [trim, trimEnd, ← hsplit']
    exact hsplit
  · have hmem : (trimStart t).head? = some c := by
      have hc' : (dropEndWhile isBlank (trimStart t)).head? = some c := hc
      rw [hsplit', List.head?_append, hc', Option.some_or]
    obtain ⟨rest, hrest⟩ := List.head?_eq_some_iff.mp hmem
    exact hhead c rest hrest

/-- Trimming the end takes white space off a text that does not end in it. -/
lemma trimEnd_append {t back : Text} (ht : ∀ c, t.getLast? = some c → isBlank c = false)
    (hback : ∀ c ∈ back, isBlank c = true) : trimEnd (t ++ back) = t := by
  have hback' : ∀ c ∈ back.reverse, isBlank c = true := fun c hc => hback c (List.mem_reverse.mp hc)
  unfold trimEnd dropEndWhile
  rw [List.reverse_append, List.dropWhile_append_of_pos hback']
  rcases List.eq_nil_or_concat' t with rfl | ⟨t, c, rfl⟩
  · rfl
  · have hc := ht c List.getLast?_concat
    rw [List.reverse_append, List.reverse_singleton, List.singleton_append,
      List.dropWhile_cons_of_neg (by simp [hc]), List.reverse_cons, List.reverse_reverse]

/-- A text that does not end in white space stays as it is when its end is trimmed. -/
lemma trimEnd_of_getLast? {t : Text} (h : ∀ c, t.getLast? = some c → isBlank c = false) :
    trimEnd t = t := by
  have happend := trimEnd_append h (List.forall_mem_nil _)
  rwa [List.append_nil] at happend

/-- A text that ends visibly has no white space to take off. -/
lemma trimEnd_concat (t : Text) {c : Char} (hc : isBlank c = false) :
    trimEnd (t ++ [c]) = t ++ [c] := by
  refine trimEnd_of_getLast? fun d hd => ?_
  rw [List.getLast?_concat] at hd
  rwa [← Option.some.inj hd]

/-- A text that neither begins nor ends with white space. -/
structure Firm (t : Text) : Prop where
  first : ∃ c rest, t = c :: rest ∧ isBlank c = false
  last : ∃ front c, t = front ++ [c] ∧ isBlank c = false

/-- A text between two firm ones is firm together with them. -/
lemma Firm.around {a b : Text} (ha : Firm a) (hb : Firm b) (middle : Text) :
    Firm (a ++ (middle ++ b)) := by
  obtain ⟨c, rest, rfl, hc⟩ := ha.first
  obtain ⟨front, d, rfl, hd⟩ := hb.last
  exact ⟨⟨c, rest ++ (middle ++ (front ++ [d])), rfl, hc⟩,
    c :: rest ++ (middle ++ front), d, by simp only [List.append_assoc], hd⟩

/-- Trimming takes the white space around a firm text off. -/
lemma Firm.trim_append {t : Text} (h : Firm t) (front back : Text)
    (hfront : ∀ c ∈ front, isBlank c = true) (hback : ∀ c ∈ back, isBlank c = true) :
    trim (front ++ (t ++ back)) = t := by
  obtain ⟨c, rest, hfirst, hc⟩ := h.first
  obtain ⟨init, d, hlast, hd⟩ := h.last
  have hstart : trimStart (front ++ (t ++ back)) = t ++ back := by
    rw [hfirst, trimStart, List.cons_append, dropWhile_append_cons hfront hc]
  rw [trim, hstart]
  refine trimEnd_append (fun x hx => ?_) hback
  rw [hlast, List.getLast?_concat] at hx
  rw [← Option.some.inj hx]
  exact hd

/-- Trimming leaves a firm text as it is. -/
lemma Firm.trim {t : Text} (h : Firm t) : trim t = t := by
  simpa using h.trim_append [] [] (by simp) (by simp)

/-- Trimming adds nothing. -/
lemma mem_of_mem_trim {t : Text} {c : Char} (h : c ∈ trim t) : c ∈ t := by
  obtain ⟨front, back, -, -, hsplit, -⟩ := trim_split t
  rw [hsplit]
  simp [h]

/-- Trimming keeps everything but white space. -/
lemma mem_trim {t : Text} {c : Char} (hc : isBlank c = false) (h : c ∈ t) : c ∈ trim t := by
  obtain ⟨front, back, hfront, hback, hsplit, -, -⟩ := trim_split t
  rw [hsplit, List.mem_append, List.mem_append] at h
  rcases h with h | h | h
  · exact absurd (hfront c h) (by simp [hc])
  · exact h
  · exact absurd (hback c h) (by simp [hc])

/-- Nothing is left of white space. -/
lemma trim_eq_nil {t : Text} (h : ∀ c ∈ t, isBlank c = true) : trim t = [] := by
  unfold trim trimStart
  rw [List.dropWhile_eq_nil_iff.mpr h]
  rfl

/-- What trimming leaves neither begins nor ends with white space. -/
lemma firm_trim {t : Text} (hne : trim t ≠ []) : Firm (trim t) := by
  obtain ⟨-, -, -, -, -, hhead, hlast⟩ := trim_split t
  obtain ⟨c, rest, hcons⟩ := List.exists_cons_of_ne_nil hne
  refine ⟨⟨c, rest, hcons, hhead c (by rw [hcons]; rfl)⟩, (trim t).dropLast, (trim t).getLast hne,
    (List.dropLast_append_getLast hne).symm, hlast _ (List.getLast?_eq_some_getLast hne)⟩

/-- Trimming twice is trimming once. -/
lemma trim_trim (t : Text) : trim (trim t) = trim t := by
  by_cases hnil : trim t = []
  · rw [hnil]
    rfl
  · exact (firm_trim hnil).trim

/-- What begins and ends with something else than white space stays at the front. -/
lemma Firm.exists_trim_append {w : Text} (h : Firm w) (t : Text) :
    ∃ rest, Text.trim (w ++ t) = w ++ rest := by
  obtain ⟨c, cs, hfirst, hc⟩ := h.first
  obtain ⟨front, d, hlast, hd⟩ := h.last
  have hstart : trimStart (w ++ t) = w ++ t := by
    rw [hfirst, List.cons_append]
    exact List.dropWhile_cons_of_neg (by simp [hc])
  obtain ⟨ending, hending, hsplit, -⟩ := dropEndWhile_split isBlank (w ++ t)
  rw [Text.trim, hstart]
  rcases List.append_eq_append_iff.mp hsplit with ⟨m, hm, -⟩ | ⟨m, hw, hm⟩
  · exact ⟨m, hm⟩
  · -- the end of the front is not white space, so none of it is cut off
    rcases List.eq_nil_or_concat' m with rfl | ⟨m, x, rfl⟩
    · rw [List.append_nil] at hw
      exact ⟨[], by rw [List.append_nil]; exact hw.symm⟩
    · rw [hw, ← List.append_assoc] at hlast
      obtain ⟨-, hx⟩ := List.append_inj' hlast rfl
      rw [← (List.cons.inj hx).1, hending x (by rw [hm]; simp)] at hd
      exact absurd hd (by decide)

/-- White space in front is trimmed. -/
lemma trim_blanks_append {blanks : Text} (h : ∀ c ∈ blanks, isBlank c = true) (t : Text) :
    trim (blanks ++ t) = trim t := by
  unfold trim trimStart
  rw [List.dropWhile_append_of_pos h]

/-- White space at the end is trimmed. -/
lemma trim_append_blanks (t : Text) {blanks : Text} (h : ∀ c ∈ blanks, isBlank c = true) :
    trim (t ++ blanks) = trim t := by
  obtain ⟨front, back, hfront, hback, hsplit, -, -⟩ := trim_split t
  by_cases hnil : trim t = []
  · rw [hnil]
    refine trim_eq_nil ?_
    rw [hnil, List.nil_append] at hsplit
    rw [hsplit, List.append_assoc]
    simp only [List.mem_append]
    rintro c (hc | hc | hc)
    · exact hfront c hc
    · exact hback c hc
    · exact h c hc
  · have htrim := (firm_trim hnil).trim_append front (back ++ blanks) hfront (by
      intro c hc
      rcases List.mem_append.mp hc with hc | hc
      · exact hback c hc
      · exact h c hc)
    rw [← htrim]
    nth_rewrite 1 [hsplit]
    simp only [List.append_assoc]

/-! ## Lines -/

/-- A single line is its text. -/
lemma unlines_singleton (line : Text) : unlines [line] = line :=
  List.intercalate_singleton

/-- Parts in front of other parts are joined to them by the mark. -/
lemma intercalate_append (mark : Char) {ts ts' : List Text} (hne : ts ≠ []) (hne' : ts' ≠ []) :
    [mark].intercalate (ts ++ ts') = [mark].intercalate ts ++ mark :: [mark].intercalate ts' := by
  obtain ⟨t', ts', rfl⟩ := List.exists_cons_of_ne_nil hne'
  induction ts with
  | nil => exact absurd rfl hne
  | cons t ts ih =>
    cases ts with
    | nil => rw [List.singleton_append, List.intercalate_cons_cons, List.intercalate_singleton,
        List.append_assoc, List.singleton_append]
    | cons next ts =>
      have hrest := ih (List.cons_ne_nil _ _)
      rw [List.cons_append, List.cons_append, List.intercalate_cons_cons,
        List.intercalate_cons_cons, ← List.cons_append, hrest]
      simp only [List.append_assoc]

/-- Lines above other lines are joined to them by a line break. -/
lemma unlines_append {ls ls' : List Text} (hne : ls ≠ []) (hne' : ls' ≠ []) :
    unlines (ls ++ ls') = unlines ls ++ '\n' :: unlines ls' :=
  intercalate_append '\n' hne hne'

/-! ## Splitting -/

/-- The parts of a text that is split hold nothing but what it does, and no mark. -/
lemma splitOn_parts {mark : Char} {t part : Text} (hpart : part ∈ t.splitOn mark) :
    mark ∉ part ∧ part ⊆ t := by
  induction hn : t.length using Nat.strongRecOn generalizing t with
  | ind n ih =>
    by_cases hmem : mark ∈ t
    · obtain ⟨l, r, rfl, hl⟩ := List.eq_append_cons_of_mem hmem
      rw [List.splitOn_append_cons_self_of_not_mem hl, List.mem_cons] at hpart
      rw [List.length_append, List.length_cons] at hn
      rcases hpart with rfl | hpart
      · exact ⟨hl, List.subset_append_left _ _⟩
      · obtain ⟨hmark, hsub⟩ := ih r.length (by omega) hpart rfl
        exact ⟨hmark, List.Subset.trans hsub fun c hc => by simp [hc]⟩
    · rw [List.splitOn_eq_singleton hmem, List.mem_singleton] at hpart
      subst hpart
      exact ⟨hmem, List.Subset.refl _⟩

end Esmify.Text
