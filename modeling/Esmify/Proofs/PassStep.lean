import Esmify.Proofs.Exported
import Esmify.Proofs.ImportSpan
import Esmify.Proofs.KeptPart
import Esmify.Proofs.Run

/-!
# Steps of the pass over global exports

The pass changes a text in four ways: it marks a declaration, it edits import statements, it puts a
paragraph in front of the old statement, and it drops that statement. `Step` has one constructor for
each, with the spans of the text that the step works on.

**A step keeps what its spans do not meet** (`Step.keeps`): a part at the start of a line that is
neither blank nor bordered by line breaks stands at the start of a line in the new text as well, and
a name that ended with it still does. Exports of a name are texts of such a kind
(`lasting_exportText`). -/

namespace Esmify

open Text Source

/-! ## Steps -/

/-- An edit within an import statement. -/
def ImportStatement.Holds (s : ImportStatement) (e : Edit) : Prop :=
  ∃ start stop : Nat, e.start = start ∧ e.stop = stop ∧ s.start ≤ start ∧ start ≤ stop
    ∧ stop ≤ s.stop

/-- One step of the pass that replaces the statement `raw`, with the spans that it works on. -/
inductive Step (raw : Text) : Text → List (Nat × Nat) → Text → Prop
  | mark {t name : Text} {d : Occurrence Unit} : declaration? t name = some d →
    Step raw t [(d.start, d.start)] (t.insertAt d.start "export ".toList)
  | imports {t t' : Text} {ss : List ImportStatement} {edits : List Edit} :
    (∀ s ∈ ss, s ∈ importStatements t ∧ ∃ e ∈ edits, s.Holds e) →
    (∀ e ∈ edits, ∃ s ∈ ss, s.Holds e) → applyEdits t edits = .ok t' →
    Step raw t (ss.map fun s => (s.start, s.stop)) t'
  | paragraph {t t' piece : Text} {i : Nat} : indexOf? raw t = some i →
    insertParagraphBefore t raw piece = .ok t' → Step raw t [(i, i + raw.length)] t'
  | drop {t t' : Text} {i : Nat} : indexOf? raw t = some i → dropBlock t raw = .ok t' →
    Step raw t [(i, i + raw.length)] t'

/-! ## What a step keeps -/

section keeps

variable {t t' front u back : Text}

/-- No line begins behind a text that does not end with a line break. -/
lemma not_beginsLine_append (hne : u ≠ []) (hlast : u.getLast? ≠ some '\n') (front : Text) :
    beginsLine (front ++ u).getLast? ≠ true := by
  rw [List.getLast?_append_of_ne_nil front hne]
  rw [List.getLast?_eq_some_getLast hne] at hlast ⊢
  simp only [beginsLine, ne_eq, beq_iff_eq]
  exact fun h => hlast (by rw [h])

/-- Marking a declaration keeps a part that it does not begin in. -/
lemma mark_keeps (hsolid : Solid u) (hbegins : beginsLine front.getLast? = true)
    (ht : t = front ++ (u ++ back)) {name : Text} {d : Occurrence Unit}
    (hd : declaration? t name = some d)
    (hclear : ¬ Meets front.length (front.length + u.length) (d.start, d.start)) :
    ∃ front' back', t.insertAt d.start "export ".toList = front' ++ (u ++ back')
      ∧ Around back front' back' := by
  obtain ⟨a, c, hsplit, hstart, hline, -⟩ := declaration?_eq_some hd
  have hmark : t.insertAt d.start "export ".toList = a ++ ("export ".toList ++ c) := by
    rw [hstart, hsplit, insertAt, splice, List.take_left, List.drop_left, List.append_assoc]
  rw [hstart] at hclear
  unfold Meets at hclear
  simp only at hclear
  have hparts : front ++ (u ++ back) = a ++ ([] ++ c) := by rw [← ht, hsplit, List.nil_append]
  rw [hmark]
  rcases exists_of_clear hparts (by simp only [List.length_nil]; omega) with
    ⟨m, rfl, hback⟩ | ⟨m, rfl, rfl⟩
  · -- the part stands before the declaration, whose line begins behind it
    have hm : m ≠ [] := by
      rintro rfl
      rw [List.append_nil] at hline
      exact not_beginsLine_append hsolid.ne_nil hsolid.last front hline
    refine ⟨front, m ++ ("export ".toList ++ c), by simp only [List.append_assoc], hbegins, ?_⟩
    obtain ⟨x, xs, rfl⟩ := List.exists_cons_of_ne_nil hm
    rw [hback]
    exact id
  · refine ⟨a ++ ("export ".toList ++ m), back, by simp only [List.append_assoc], ?_, id⟩
    have hm : m ≠ [] := by
      rintro rfl
      simp only [List.append_nil] at hclear
      have := List.length_pos_iff.mpr hsolid.ne_nil
      omega
    rw [List.nil_append, List.getLast?_append_of_ne_nil _ hm] at hbegins
    rwa [← List.append_assoc, List.getLast?_append_of_ne_nil _ hm]

/-- An import statement that does not meet a part stands well before it, so that the line break
between them is its own, or well behind it. -/
lemma importStatement_clear (hsolid : Solid u) (hbegins : beginsLine front.getLast? = true)
    (ht : t = front ++ (u ++ back)) {s : ImportStatement} (hs : s ∈ importStatements t)
    (hclear : ¬ Meets front.length (front.length + u.length) (s.start, s.stop)) :
    s.stop < front.length ∨ (front.length + u.length < s.start ∧ s.start < t.length) := by
  obtain ⟨a, c, hsplit, hstart, hline, ⟨m', hraw⟩, hlast⟩ := exists_of_mem_importStatements hs
  have hne : s.raw ≠ [] := by
    rw [hraw]
    simp
  have hpos := List.length_pos_iff.mpr hne
  unfold Meets at hclear
  simp only [ImportStatement.stop, hstart] at hclear ⊢
  have hlength := congrArg List.length hsplit
  rw [ht] at hsplit
  rcases exists_of_clear hsplit (by omega) with ⟨m, rfl, -⟩ | ⟨m, rfl, -⟩
  · have hm : m ≠ [] := by
      rintro rfl
      rw [List.append_nil] at hline
      exact not_beginsLine_append hsolid.ne_nil hsolid.last front hline
    have := List.length_pos_iff.mpr hm
    simp only [List.length_append] at hlength ⊢
    omega
  · have hm : m ≠ [] := by
      rintro rfl
      rw [List.append_nil] at hbegins
      exact not_beginsLine_append hne hlast a hbegins
    have := List.length_pos_iff.mpr hm
    simp only [List.length_append]
    omega

/-- Edits within import statements keep a part that the statements do not meet. -/
lemma imports_keeps (hsolid : Solid u) (hbegins : beginsLine front.getLast? = true)
    (ht : t = front ++ (u ++ back)) {ss : List ImportStatement} {edits : List Edit}
    (hss : ∀ s ∈ ss, s ∈ importStatements t) (hedits : ∀ e ∈ edits, ∃ s ∈ ss, s.Holds e)
    (hclear : ∀ s ∈ ss, ¬ Meets front.length (front.length + u.length) (s.start, s.stop))
    (h : applyEdits t edits = .ok t') :
    ∃ front' back', t' = front' ++ (u ++ back') ∧ Around back front' back' := by
  -- the part together with the line break before it
  obtain ⟨init, before, rfl, hbefore⟩ : ∃ init before, front = init ++ before
      ∧ (before = [] ∧ init = [] ∨ before = ['\n']) := by
    rcases exists_of_beginsLine hbegins with rfl | ⟨init, rfl⟩
    · exact ⟨[], [], rfl, Or.inl ⟨rfl, rfl⟩⟩
    · exact ⟨init, ['\n'], rfl, Or.inr rfl⟩
  have hpart : before ++ u ≠ [] := by simp [hsolid.ne_nil]
  have hsplit : t = init ++ ((before ++ u) ++ back) := by
    rw [ht]
    simp only [List.append_assoc]
  have hside : ∀ e ∈ edits, e.Proper ∧ e.start ≤ t.length
      ∧ ((before = ['\n'] ∧ e.stop ≤ init.length)
        ∨ ((init.length + (before ++ u).length : Nat) : Int) < e.start) := by
    intro e he
    obtain ⟨s, hs, start, stop, hstart, hstop, h₁, h₂, h₃⟩ := hedits e he
    obtain ⟨a, c, hwhole, hs', -⟩ := exists_of_mem_importStatements (hss s hs)
    have hlength := congrArg List.length hwhole
    have hcases := importStatement_clear hsolid hbegins ht (hss s hs) (hclear s hs)
    simp only [List.length_append, ImportStatement.stop] at hcases hlength h₃ ⊢
    rw [hstart, hstop]
    refine ⟨⟨start, stop, hstart, hstop, h₂⟩, by omega, ?_⟩
    rcases hcases with hahead | ⟨hbehind, -⟩
    · left
      rcases hbefore with ⟨rfl, rfl⟩ | rfl
      · exact absurd hahead (by simp)
      · exact ⟨rfl, by simp only [List.length_singleton] at hahead; omega⟩
    · right
      omega
  obtain ⟨init', rest', rfl, hhead, hinit, -⟩ := applyEdits_keeps_next hpart hsplit
    (fun e he => (hside e he).1) (fun e he => (hside e he).2.1)
    (fun e he => (hside e he).2.2.imp_left And.right) h
  refine ⟨init' ++ before, rest', by simp only [List.append_assoc], ?_, ?_⟩
  · rcases hbefore with ⟨rfl, rfl⟩ | rfl
    · rw [hinit fun e he => (hside e he).2.2.resolve_left (by simp)]
      rfl
    · rw [List.getLast?_concat]
      rfl
  · rw [hhead]
    exact id

end keeps

/-- **A step keeps what its spans do not meet.** -/
theorem Step.keeps {raw t t' front u back : Text} {spans : List (Nat × Nat)}
    (hstep : Step raw t spans t') (hsolid : Solid u) (hbegins : beginsLine front.getLast? = true)
    (ht : t = front ++ (u ++ back)) :
    (∃ span ∈ spans, Meets front.length (front.length + u.length) span)
      ∨ ∃ front' back', t' = front' ++ (u ++ back') ∧ Around back front' back' := by
  by_cases hmeets : ∃ span ∈ spans, Meets front.length (front.length + u.length) span
  · exact Or.inl hmeets
  right
  have hclear : ∀ span ∈ spans, ¬ Meets front.length (front.length + u.length) span :=
    fun span hspan h => hmeets ⟨span, hspan, h⟩
  have hblock : ∀ i, ¬ Meets front.length (front.length + u.length) (i, i + raw.length) →
      ¬ (i < front.length + u.length ∧ front.length < i + raw.length) :=
    fun i hnot h => hnot ⟨h.1, Or.inl h.2⟩
  cases hstep with
  | mark hd => exact mark_keeps hsolid hbegins ht hd (hclear _ (List.mem_singleton_self _))
  | imports hss hedits happly =>
    exact imports_keeps hsolid hbegins ht (fun s hs => (hss s hs).1) hedits
      (fun s hs => hclear _ (List.mem_map_of_mem hs)) happly
  | paragraph hi hinsert =>
    exact insertParagraphBefore_keeps hsolid hbegins ht hi
      (hblock _ (hclear _ (List.mem_singleton_self _))) hinsert
  | drop hi hdrop =>
    exact dropBlock_keeps hsolid hbegins ht hi
      (hblock _ (hclear _ (List.mem_singleton_self _))) hdrop

/-! ## Kinds of texts -/

/-- Texts of a kind are solid, and stay of that kind unless a name behind them goes on. -/
structure Lasting (P : Text → Option Char → Prop) : Prop where
  solid : ∀ {u next}, P u next → Solid u
  next : ∀ {u next next'}, P u next → (outsideName next = true → outsideName next' = true) →
    P u next'

/-- A given solid text is of a lasting kind. -/
lemma lasting_eq {w : Text} (h : Solid w) : Lasting fun u _ => u = w where
  solid hu := hu ▸ h
  next hu _ := hu

/-- What ends with a proper name does not end with a line break. -/
lemma getLast?_append_name {name : Text} (hname : ProperName name) (front : Text) :
    (front ++ name).getLast? ≠ some '\n' := by
  rw [List.getLast?_append_of_ne_nil front hname.ne_nil]
  intro hlast
  exact hname.not_mem (by decide) (List.mem_of_getLast? hlast)

/-- An export of a proper name under that name begins with the word `export` and does not end with a
line break. -/
lemma NamedExport.solid {name u : Text} {next : Option Char} (hname : ProperName name)
    (h : NamedExport name u next) : Solid u := by
  obtain ⟨rest, rfl⟩ : ∃ rest, u = 'e' :: rest := by
    cases h <;> exact ⟨_, rfl⟩
  refine solid_cons (by decide) ?_
  generalize hu : 'e' :: rest = u at h ⊢
  cases h with
  | declared =>
    simp only [← List.append_assoc]
    exact getLast?_append_name hname _
  | listed _ _ _ _ hclose =>
    have hends : ∀ a b c d e : Text, ∀ close : Char,
        (a ++ (b ++ '\x7b' :: (c ++ (d ++ (e ++ [close]))))).getLast? = some close := by
      intro a b c d e close
      simp only [← List.append_assoc, ← List.cons_append, List.getLast?_concat]
    rw [hends]
    rcases hclose with rfl | rfl <;> decide
  | whole =>
    simp only [← List.append_assoc, ← List.cons_append]
    exact getLast?_append_name hname _

/-- Exports of a proper name under that name are of a lasting kind. -/
lemma lasting_namedExport {name : Text} (hname : ProperName name) : Lasting (NamedExport name) where
  solid := NamedExport.solid hname
  next h hends := by
    cases h with
    | declared hne hgap hhead hout => exact .declared hne hgap hhead (hends hout)
    | listed hgap hitems hout hending hclose => exact .listed hgap hitems hout hending hclose
    | whole hgne hgap hsne hstar hane has hout =>
      exact .whole hgne hgap hsne hstar hane has (hends hout)

/-- Exports of a proper name are of a lasting kind. -/
lemma lasting_exportText {name : Text} (hname : ProperName name) : Lasting (ExportText name) where
  solid h := by
    cases h with
    | named h => exact h.solid hname
    | preset =>
      refine solid_cons (by decide) ?_
      show ("export".toList ++ _).getLast? ≠ _
      simp only [← List.append_assoc]
      exact getLast?_append_name hname _
  next h hends := by
    cases h with
    | named h => exact .named ((lasting_namedExport hname).next h hends)
    | preset hne hgap hsne hspace hhead hout =>
      exact .preset hne hgap hsne hspace hhead (hends hout)

end Esmify
