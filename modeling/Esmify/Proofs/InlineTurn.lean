import Esmify.Proofs.GlobalPass
import Esmify.Proofs.GlobalSource
import Esmify.Proofs.InlinePass
import Esmify.Proofs.Region

/-!
# What the writing of an inline export does

**It keeps what its spans do not meet** (`inlinePass_keeps`), with the character that follows, and
takes it where its edits do (`writeInline_keeps`); and **it exports its name**
(`exported_of_writeInline`): as a function, as a constant, at the declaration of the name or behind
its import.

Three things can go wrong. The statement is not there any more, which is reported. It begins inside
the declaration of its name or right behind it, so that its removal takes a part of the declaration
away or lets the name run on (`Overrun`). Or the name is imported with a closing brace in what it
stands for, which ends the list of the re-export too early (`BraceImported`). -/

namespace Esmify

open Text Source

/-! ## Ends of statements -/

/-- A statement ends at one of the characters that are looked at. -/
lemma mem_of_statementStop? {ends : Nat → Bool} {depth : Nat} {cs : List (Nat × Char)} {i : Nat}
    {semicolon : Bool} (h : statementStop? ends depth cs = some (i, semicolon)) :
    ∃ c, (i, c) ∈ cs := by
  fun_induction statementStop? ends depth cs with
  | case1 => cases h
  | case2 _ _ _ _ _ ih | case4 _ _ _ _ _ _ ih | case7 _ _ _ _ _ _ _ _ ih =>
    obtain ⟨c, hc⟩ := ih h
    exact ⟨c, List.mem_cons_of_mem _ hc⟩
  | case3 | case5 | case6 =>
    obtain ⟨rfl, -⟩ := Prod.mk.inj (Option.some.inj h)
    exact ⟨_, List.mem_cons_self⟩

/-- A statement does not end ahead of its start, unless the text does. -/
lemma le_statementEnd (t : Text) (start : Nat) : min start t.length ≤ (statementEnd t start).2 := by
  unfold statementEnd
  split
  · next i hstop =>
    obtain ⟨c, hmem⟩ := mem_of_statementStop? hstop
    have hle : start ≤ i := (codeChars_bounds _ hmem).1
    omega
  · next i hstop =>
    obtain ⟨c, hmem⟩ := mem_of_statementStop? hstop
    have hle : start ≤ i := (codeChars_bounds _ hmem).1
    omega
  · exact Nat.min_le_right _ _

/-- A statement does not end ahead of its start. -/
lemma le_inlineStop {t : Text} (e : InlineExport) {p : Nat} (hp : p ≤ t.length) :
    p ≤ inlineStop t e p := by
  have hend := le_statementEnd t (p + e.raw.length)
  have hskip : (skipLineEnd (t.drop (statementEnd t (p + e.raw.length)).2)).length ≤
      (t.drop (statementEnd t (p + e.raw.length)).2).length :=
    (length_skipOne_le _ _).trans (length_skipIndent_le _)
  rw [List.length_drop] at hskip
  unfold inlineStop
  omega

/-! ## Pieces with exports -/

/-- An export of a name stands in a piece of text, whatever follows the piece. -/
def Carries (name piece : Text) : Prop :=
  ∃ front u rest, piece = front ++ (u ++ rest) ∧ ∀ c : Text, NamedExport name u (rest ++ c).head?

/-- An export in a piece stands wherever the piece does. -/
lemma Carries.stands {name piece : Text} (h : Carries name piece) (a c : Text) :
    Stands (fun _ => true) (NamedExport name) (a ++ (piece ++ c)) := by
  obtain ⟨front, u, rest, rfl, hu⟩ := h
  exact ⟨a ++ front, u, rest ++ c, by simp only [List.append_assoc], rfl, hu c⟩

/-- The declaration of a name behind the word `export` is an export of it. -/
lemma carries_declaration {name head rest : Text} (indent : Text) (hhead : DeclarationHead head)
    (hrest : ∀ c : Text, outsideName (rest ++ c).head? = true) :
    Carries name (indent ++ ("export ".toList ++ (head ++ (name ++ rest)))) :=
  ⟨indent, "export".toList ++ ([' '] ++ (head ++ name)), rest, by simp, fun c =>
    .declared (by decide) (by decide) hhead (hrest c)⟩

/-- A text is found inside the one that is searched. -/
lemma indexOf?_le {needle t : Text} {p : Nat} (h : indexOf? needle t = some p) : p ≤ t.length := by
  obtain ⟨front, back, rfl, rfl⟩ := indexOf?_eq_some h
  simp

/-- What is written for a function value is an export. -/
lemma carries_function {name declaration : Text} (indent : Text)
    (h : FunctionText name declaration) :
    Carries name (indent ++ ("export ".toList ++ declaration)) := by
  obtain ⟨head, tail, hhead, rfl⟩ := h
  exact carries_declaration indent hhead fun _ => rfl

/-- What is written for a constant is an export. -/
lemma carries_constant (name indent : Text) :
    Carries name (indent ++ ("export const ".toList ++ (name ++ " = ".toList))) := by
  have hhead : DeclarationHead ([] ++ ("const".toList ++ [' '])) :=
    .keyword (Or.inl rfl) (by decide) (by decide)
  exact carries_declaration indent hhead fun _ => rfl

/-! ## What is kept -/

/-- The front of a text that goes beyond a part of it has the part and the character behind it. -/
lemma exists_take {a back : Text} {p : Nat} (h : a.length < p) (hp : p ≤ (a ++ back).length) :
    ∃ rest, (a ++ back).take p = a ++ rest ∧ ∀ c : Text, (rest ++ c).head? = back.head? := by
  obtain ⟨k, rfl⟩ := Nat.exists_eq_add_of_lt h
  rw [List.length_append] at hp
  cases back with
  | nil => exact absurd hp (by simp only [List.length_nil]; omega)
  | cons d back =>
    refine ⟨d :: back.take k, ?_, fun c => rfl⟩
    rw [Nat.add_assoc, List.take_length_add_append, List.take_succ_cons]

/-- A text with a piece in the place of a part, as one edit. -/
lemma applyEdits_of_append {t : Text} {p q : Nat} (piece : Text) (hq : q ≤ t.length) :
    applyEdits t [⟨p, q, piece⟩] = .ok (t.take p ++ (piece ++ t.drop q)) := by
  rw [applyEdits_singleton p piece hq, splice, List.append_assoc]

/-- **A step applies its edits**, each of which works on one of its spans. -/
lemma InlineStep.edits {t : Text} {e : InlineExport} {spans : List (Nat × Nat)}
    {r : Except Fault Text} (h : InlineStep t e spans r) :
    r = applyEdits t (inlineEdits t e)
      ∧ ∀ edit ∈ inlineEdits t e, ∃ start stop stop' : Nat, edit.start = start ∧ edit.stop = stop
        ∧ start ≤ stop ∧ start ≤ t.length ∧ stop ≤ stop' ∧ (start - 1, stop') ∈ spans := by
  unfold inlineEdits
  cases h with
  | lost hnone =>
    simp only [hnone]
    exact ⟨(applyEdits_nil t).symm, by simp⟩
  | @function p declaration rest hfound hfunction =>
    have hp := indexOf?_le hfound
    have hrest : rest.length ≤ t.length - p := by
      have hle := (inlineFunction?_eq_some hfunction).2.length_le
      rw [List.length_drop] at hle
      omega
    simp only [hfound, hfunction, List.mem_singleton, forall_eq]
    exact ⟨(applyEdits_of_append _ (Nat.sub_le _ _)).symm, p, t.length - rest.length, _, rfl, rfl,
      by omega, hp, le_rfl, rfl⟩
  | @atDeclaration p d hfound hfunction hd =>
    have hp := indexOf?_le hfound
    have hn : d.start ≤ t.length := exportPlace?_le (by rw [exportPlace?, hd]; rfl)
    simp only [hfound, hfunction, hd, List.mem_cons, List.not_mem_nil, or_false, forall_eq_or_imp,
      forall_eq, true_and]
    exact ⟨⟨p, inlineStop t e p, _, rfl, rfl, le_inlineStop e hp, hp, le_rfl, Or.inl rfl⟩,
      d.start, d.start, _, rfl, rfl, le_rfl, hn, le_rfl, Or.inr rfl⟩
  | @atImport p s hfound hfunction hd hs =>
    have hp := indexOf?_le hfound
    have hn : s.stop ≤ t.length := ImportStatement.stop_le (List.mem_of_find?_eq_some hs)
    simp only [hfound, hfunction, hd, hs, List.mem_cons, List.not_mem_nil, or_false,
      forall_eq_or_imp, forall_eq, true_and]
    exact ⟨⟨p, inlineStop t e p, _, rfl, rfl, le_inlineStop e hp, hp, le_rfl, Or.inl rfl⟩,
      s.stop, s.stop, _, rfl, rfl, le_rfl, hn, le_rfl, Or.inr rfl⟩
  | @constant p hfound hfunction hplace =>
    have hp := indexOf?_le hfound
    obtain ⟨hd, hs⟩ := Option.or_eq_none_iff.mp hplace
    rw [Option.map_eq_none_iff] at hd hs
    have hdrop : t.drop (min (p + e.raw.length) t.length) = t.drop (p + e.raw.length) := by
      rcases Nat.le_total (p + e.raw.length) t.length with hle | hle
      · rw [Nat.min_eq_left hle]
      · rw [Nat.min_eq_right hle, List.drop_length, List.drop_eq_nil_of_le hle]
    simp only [hfound, hfunction, hd, hs, List.mem_singleton, forall_eq]
    refine ⟨?_, p, min (p + e.raw.length) t.length, _, rfl, rfl, by omega, hp,
      Nat.min_le_left _ _, rfl⟩
    rw [applyEdits_of_append _ (Nat.min_le_right _ _), hdrop]

/-- Where the writing of an inline export takes a place of the text. -/
def inlineMove (e : InlineExport) (t : Text) (i : Nat) : Nat :=
  placeAfter (inlineEdits t e) i

/-- **The writing of an inline export keeps what its spans do not meet**, with the character that
follows, and takes it where its edits do. -/
lemma writeInline_keeps {t t' front u back : Text} {e : InlineExport}
    (h : (writeInline t e).run.value = .ok t') (hu : u ≠ []) (ht : t = front ++ (u ++ back))
    (hclear : ∀ span ∈ inlineSpans t e, ¬ Meets front.length (front.length + u.length) span) :
    ∃ front' back', t' = front' ++ (u ++ back') ∧ back'.head? = back.head?
      ∧ front'.length = inlineMove e t front.length := by
  have hlt : front.length < front.length + u.length :=
    Nat.lt_add_of_pos_right (List.length_pos_iff.mpr hu)
  obtain ⟨hvalue, hedits⟩ := (inlineStep t e).edits
  have hproper : ∀ edit ∈ inlineEdits t e, edit.Proper := by
    intro edit hedit
    obtain ⟨start, stop, -, hstart, hstop, hle, -⟩ := hedits edit hedit
    exact ⟨start, stop, hstart, hstop, hle⟩
  have hwithin : ∀ edit ∈ inlineEdits t e, edit.start ≤ t.length := by
    intro edit hedit
    obtain ⟨start, -, -, hstart, -, -, hle, -⟩ := hedits edit hedit
    omega
  have hapart : ∀ edit ∈ inlineEdits t e,
      edit.stop ≤ front.length ∨ ((front.length + u.length : Nat) : Int) < edit.start := by
    intro edit hedit
    obtain ⟨start, stop, stop', hstart, hstop, -, -, hle, hspan⟩ := hedits edit hedit
    have hnot := clear_of_not_meets hlt (hclear _ hspan)
    omega
  obtain ⟨front', back', rfl, hhead, -, hplace⟩ :=
    applyEdits_keeps_next hu ht hproper hwithin hapart (hvalue.symm.trans h)
  exact ⟨front', back', rfl, hhead, hplace⟩

/-- **The pass over inline exports keeps what its spans do not meet.** -/
lemma inlinePass_keeps {P : Text → Option Char → Prop} (hP : ∀ {u next}, P u next → u ≠ []) :
    inlinePass.Keeps (fun _ => true) P := by
  refine Pass.keeps_of_clear (p := inlinePass) (P := P) (fun hact hu ht hclear => ?_) hP
  obtain ⟨front', back', ht', hhead, -⟩ := writeInline_keeps (exists_of_toOption hact) hu ht hclear
  exact ⟨front', back', ht', hhead⟩

/-- **Through all inline exports a part stands where their edits take it**, or one of them cuts into
it. -/
lemma run_inlinePass_follows {t t' front u back : Text} {es : List InlineExport} (hu : u ≠ [])
    (ht : t = front ++ (u ++ back)) (hrun : inlinePass.run t es = some t') :
    (∃ front' back', t' = front' ++ (u ++ back') ∧ back'.head? = back.head?
        ∧ inlinePass.follow inlineMove t front.length es = some front'.length)
      ∨ inlinePass.CutAt inlineMove u.length t front.length es :=
  Pass.run_follows (fun hact => writeInline_keeps (exists_of_toOption hact)) hu ht hrun

/-! ## What is exported -/

/-- The statement of an inline export begins inside the declaration of its name, or right behind
it. -/
def Overrun (e : InlineExport) (t : Text) : Prop :=
  ∃ front head back p, t = front ++ (head ++ (e.property ++ back)) ∧ DeclarationHead head
    ∧ (declaration? t e.property).map (·.start) = some front.length ∧ indexOf? e.full t = some p
    ∧ front.length ≤ p ∧ p ≤ front.length + (head ++ e.property).length

/-- A name is imported with a closing brace in what it stands for. -/
def BraceImported (name t : Text) : Prop :=
  ∃ s n, importBinding? t name = some (s, n) ∧ ¬ NoBrace n

/-- The outcome of a removal and an insertion, by which of them stands first. -/
lemma removal_eq_ok {t t' piece : Text} {p q n : Nat} (hp : p ≤ t.length) (hq : q ≤ t.length)
    (hn : n ≤ t.length) (h : applyEdits t [⟨p, q, []⟩, ⟨n, n, piece⟩] = .ok t') :
    (n ≤ p ∧ t' = t.take n ++ (piece ++ (t.take p ++ t.drop q).drop n))
      ∨ ∃ a, t' = a ++ (piece ++ t.drop n) := by
  -- what stands ahead of both is kept as it was
  have hfront : ∀ {k m : Nat} (tail : Text), k ≤ m → m ≤ t.length →
      (t.take m ++ tail).take k = t.take k := by
    intro k m tail hk hm
    rw [List.take_append_of_le_length (by rw [List.length_take]; omega), List.take_take,
      Nat.min_eq_left hk]
  rw [applyEdits_removal p piece hq hn] at h
  split_ifs at h with hle hover
  · obtain rfl := Except.ok.inj h
    refine Or.inl ⟨hle, ?_⟩
    simp only [splice, List.append_nil, hfront _ hle hp, List.append_assoc]
  · obtain rfl := Except.ok.inj h
    refine Or.inr ⟨t.take p ++ (t.take n).drop q, ?_⟩
    have hback : (t.take n ++ (piece ++ t.drop n)).drop q
        = (t.take n).drop q ++ (piece ++ t.drop n) :=
      List.drop_append_of_le_length (by rw [List.length_take]; omega)
    simp only [splice, List.append_nil, List.append_assoc,
      hfront _ (Nat.le_of_not_le hle) hn, hback]

/-- A marked declaration is an export. -/
lemma stands_declaration {name head back : Text} (front : Text) (hhead : DeclarationHead head)
    (hout : outsideName back.head? = true) :
    Stands (fun _ => true) (NamedExport name)
      (front ++ ("export ".toList ++ (head ++ (name ++ back)))) :=
  ⟨front, "export".toList ++ ([' '] ++ (head ++ name)), back, by simp, rfl,
    .declared (by decide) (by decide) hhead hout⟩

/-- A name whose declaration is marked is exported there, unless the statement that goes away begins
inside the declaration or right behind it. -/
lemma stands_of_marked {t t' : Text} {e : InlineExport} {p : Nat} {d : Occurrence Unit}
    (hfound : indexOf? e.full t = some p) (hd : declaration? t e.property = some d)
    (h : applyEdits t [⟨p, inlineStop t e p, []⟩, ⟨d.start, d.start, "export ".toList⟩] = .ok t') :
    Stands (fun _ => true) (NamedExport e.property) t' ∨ Overrun e t := by
  obtain ⟨front, _, ht, hstart, -, head, back, rfl, hhead, hout⟩ := declaration?_eq_some hd
  have hp := indexOf?_le hfound
  have hstop : inlineStop t e p ≤ t.length := Nat.sub_le _ _
  have hn : d.start ≤ t.length := exportPlace?_le (by rw [exportPlace?, hd]; rfl)
  rcases removal_eq_ok hp hstop hn h with ⟨hle, rfl⟩ | ⟨a, rfl⟩
  · -- the statement stands behind the declaration
    by_cases hover : p ≤ front.length + (head ++ e.property).length
    · exact Or.inr ⟨front, head, back, p, ht, hhead, by rw [hd, Option.map_some, hstart], hfound,
        hstart ▸ hle, hover⟩
    · left
      have hsplit : t = (front ++ (head ++ e.property)) ++ back := by
        rw [ht]
        simp only [List.append_assoc]
      have hbehind : (front ++ (head ++ e.property)).length < p := by
        rw [List.length_append]
        omega
      obtain ⟨rest, htake, hnext⟩ := exists_take hbehind (hsplit ▸ hp)
      have hdrop : (t.take p ++ t.drop (inlineStop t e p)).drop d.start =
          head ++ (e.property ++ (rest ++ t.drop (inlineStop t e p))) := by
        rw [hstart, show t.take p = front ++ (head ++ e.property) ++ rest from hsplit ▸ htake]
        simp only [List.append_assoc, List.drop_left]
      rw [hdrop]
      exact stands_declaration _ hhead ((hnext _).symm ▸ hout)
  · -- the declaration stands behind the statement, as it was
    left
    rw [ht, hstart, List.drop_left]
    exact stands_declaration a hhead hout

/-- A name that is re-exported behind its import is exported there. -/
lemma stands_of_reexported {t t' : Text} {e : InlineExport} {p : Nat} {s : ImportStatement}
    (hfound : indexOf? e.full t = some p) (hs : importOf? t e.property = some s)
    (h : applyEdits t [⟨p, inlineStop t e p, []⟩,
      ⟨s.stop, s.stop, '\n' :: exportFrom s (s.binding? e.property).toList⟩] = .ok t') :
    Stands (fun _ => true) (NamedExport e.property) t' ∨ BraceImported e.property t := by
  have hbound := List.find?_some hs
  obtain ⟨n, hn⟩ := Option.isSome_iff_exists.mp hbound
  have hbinding : importBinding? t e.property = some (s, n) := by
    rw [importBinding?, hs, Option.bind_some, hn]
    rfl
  obtain ⟨-, hmem, -, hname⟩ := importBinding?_eq_some hbinding
  by_cases hbrace : NoBrace n
  · left
    have hexposes : Exposes e.property (exportFrom s [n]) := by
      rw [← hname]
      exact exposes_exportFrom s List.mem_cons_self (by simpa using hbrace)
    obtain ⟨front, u, rest, heq, -, hu⟩ := hexposes
    have hcarries : Carries e.property ('\n' :: exportFrom s [n]) :=
      ⟨'\n' :: front, u, rest, by rw [heq]; rfl, hu⟩
    rw [hn] at h
    have hstop := ImportStatement.stop_le hmem
    rcases removal_eq_ok (indexOf?_le hfound) (Nat.sub_le _ _) hstop h with ⟨-, rfl⟩ | ⟨a, rfl⟩
    · exact hcarries.stands _ _
    · exact hcarries.stands _ _
  · exact Or.inr ⟨s, n, hbinding, hbrace⟩

/-- **An inline export is exported when it is written**, unless it is reported as lost. -/
lemma exported_of_writeInline {t t' : Text} {e : InlineExport}
    (h : (writeInline t e).run.value = .ok t') :
    (indexOf? e.full t = none ∧ .lostExport e.full ∈ (writeInline t e).run.warnings)
      ∨ Stands (fun _ => true) (NamedExport e.property) t' ∨ Overrun e t
      ∨ BraceImported e.property t := by
  have hstep := inlineStep t e
  rw [h] at hstep
  generalize inlineSpans t e = spans, hr : Except.ok t' = r at hstep
  cases hstep with
  | lost hlost =>
    refine Or.inl ⟨hlost, ?_⟩
    rw [writeInline, hlost]
    exact List.mem_singleton_self _
  | function _ hfunction =>
    obtain rfl := Except.ok.inj hr
    exact Or.inr (Or.inl ((carries_function _ (inlineFunction?_eq_some hfunction).1).stands _ _))
  | atDeclaration hfound _ hd =>
    exact Or.inr ((stands_of_marked hfound hd hr.symm).imp_right Or.inl)
  | atImport hfound _ _ hs =>
    exact Or.inr ((stands_of_reexported hfound hs hr.symm).imp_right Or.inr)
  | constant _ _ _ =>
    obtain rfl := Except.ok.inj hr
    exact Or.inr (Or.inl ((carries_constant _ _).stands _ _))

end Esmify
