import Esmify.Proofs.ExportReading

/-!
# The place at which an inline export is written

An inline export is read at a place of the text and carries it along, but it is written where its
statement is found again, and that is where the first copy of the statement stands. **The statement
that was read is the one that is rewritten exactly when no copy of it stands further in front**
(`writeInlines_inPlace_iff`). A copy in front, be it in a comment or behind another name, is turned
into the export instead, and the statement stays as it was (`writeInlines_misplaced`).

That the two results never agree is seen at the copy: up to the statement the text should be as
before, and the word `exports` or `module` of the copy is overwritten by `export`. -/

namespace Esmify

open Text Source

/-! ## First copies -/

/-- At the front of a text stands what it begins with. -/
@[simp] lemma standsAt_zero (needle t : Text) : standsAt needle t 0 = needle.isPrefixOf t := by
  simp [standsAt]

/-- Behind its first character a text has at an offset what its rest has one earlier. -/
@[simp] lemma standsAt_cons_succ (needle t : Text) (c : Char) (i : Nat) :
    standsAt needle (c :: t) (i + 1) = standsAt needle t i := by
  simp [standsAt]

/-- **A text is found where it stands and has no copy further in front.** -/
lemma indexOf?_eq_some_iff {needle t : Text} {i : Nat} :
    indexOf? needle t = some i ↔ standsAt needle t i = true ∧ ∀ p < i,
    standsAt needle t p = false := by
  induction t generalizing i with
  | nil =>
    cases needle with
    | nil => cases i <;> simp [indexOf?, standsAt]
    | cons c needle => simp [indexOf?, standsAt]
  | cons c t ih =>
    rw [indexOf?]
    cases hhere : needle.isPrefixOf (c :: t) with
    | true =>
      cases i with
      | zero => simp [hhere]
      | succ i =>
        constructor
        · intro h
          simp at h
        · rintro ⟨-, hfirst⟩
          simpa [hhere] using hfirst 0 (Nat.succ_pos i)
    | false =>
      cases i with
      | zero => simp [hhere]
      | succ i =>
        have hmap : (indexOf? needle t).map (· + 1) = some (i + 1) ↔
            indexOf? needle t = some i := by
          simp
        rw [if_neg (by simp), hmap, ih, standsAt_cons_succ]
        refine and_congr_right fun _ => ⟨fun hfirst p hp => ?_, fun hfirst p hp => ?_⟩
        · cases p with
          | zero => simpa using hhere
          | succ p => simpa using hfirst p (Nat.lt_of_succ_lt_succ hp)
        · simpa using hfirst (p + 1) (Nat.succ_lt_succ hp)

/-! ## What is written -/

/-- One inline export is written by one turn. -/
lemma value_run_writeInlines_singleton (t : Text) (e : InlineExport) :
    (writeInlines t [e]).run.value = (writeInline t e).run.value := by
  rw [writeInlines, longestFirst, List.mergeSort_singleton, value_run_writeEach]
  cases hvalue : (writeInline t e).run.value with
  | error f => simp [hvalue, bind, Except.bind]
  | ok t' => simp [hvalue, bind, Except.bind, pure, Except.pure]

section Turn

variable {content : Text} {e : InlineExport} {p : Nat} (hdeclared :
    declaration? content e.property = none)
  (himported : importOf? content e.property = none) (hfound : indexOf? e.full content = some p)

include hdeclared himported hfound

/-- A value that is no function becomes a constant where its statement is found. -/
lemma writeInline_constant
    (hfunction : inlineFunction? (content.drop (p + e.raw.length)) e.property = none) :
    (writeInline content e).run.value = .ok (content.take p ++ indentation e.raw
      ++ "export const ".toList ++ e.property ++ " = ".toList
      ++ content.drop (p + e.raw.length)) := by
  have hstep := inlineStep content e
  generalize inlineSpans content e = spans at hstep
  generalize (writeInline content e).run.value = result at hstep ⊢
  cases hstep with
  | lost hlost => rw [hlost] at hfound; cases hfound
  | function hfound' hfunction' =>
    obtain rfl := Option.some.inj (hfound'.symm.trans hfound)
    rw [hfunction'] at hfunction
    cases hfunction
  | atDeclaration _ _ hd => rw [hd] at hdeclared; cases hdeclared
  | atImport _ _ _ hs => rw [hs] at himported; cases himported
  | constant hfound' _ _ =>
    obtain rfl := Option.some.inj (hfound'.symm.trans hfound)
    simp only [List.append_assoc]

/-- Whatever the value is, the word `export` goes where the statement is found. -/
lemma exists_export_of_writeInline : ∃ tail, (writeInline content e).run.value =
    .ok (content.take p ++ (indentation e.raw ++ ("export ".toList ++ tail))) := by
  have hstep := inlineStep content e
  generalize inlineSpans content e = spans at hstep
  generalize (writeInline content e).run.value = result at hstep ⊢
  cases hstep with
  | lost hlost => rw [hlost] at hfound; cases hfound
  | @function _ declaration rest hfound' _ =>
    obtain rfl := Option.some.inj (hfound'.symm.trans hfound)
    exact ⟨declaration ++ content.drop (content.length - rest.length), by
      simp only [List.append_assoc]⟩
  | atDeclaration _ _ hd => rw [hd] at hdeclared; cases hdeclared
  | atImport _ _ _ hs => rw [hs] at himported; cases himported
  | @constant q hfound' _ _ =>
    obtain rfl := Option.some.inj (hfound'.symm.trans hfound)
    have hword : "export const ".toList = "export ".toList ++ "const ".toList := by decide
    exact ⟨"const ".toList ++ (e.property ++ (" = ".toList ++ content.drop (q + e.raw.length))), by
      simp only [hword, List.append_assoc]⟩

end Turn

/-! ## What is read -/

/-- What the source of an inline export begins with behind its indentation. -/
def leadWords : List Text :=
  ["exports".toList, "module.".toList]

/-- **Where an inline export stands**: at the start of a statement, with its source at the front of
the statement and one of the words `exports` and `module` behind its indentation. -/
lemma InlineExport.exists_of_mem {content : Text} {e : InlineExport}
    (h : e ∈ InlineExport.readAll content) :
    ∃ front back word tail, content = front ++ back ∧ e.start = some front.length
      ∧ beginsStatement front.getLast? = true ∧ e.full <+: back ∧ e.raw <+: e.full
      ∧ word ∈ leadWords ∧ e.raw = indentation e.raw ++ (word ++ tail) := by
  obtain ⟨m, hm, rfl⟩ := List.mem_map.mp h
  obtain ⟨front, source, back, hsplit, hstart, hstop, hsource, hmatch⟩ :=
    exists_of_mem_occurrences inlineExport_consumes hm
  obtain ⟨hbefore, -, indent, w, tail, hindent, hw, hstatement, -, behind, htail⟩ :=
    inlineExport_eq_some hmatch
  obtain ⟨word, hword, letters, rfl⟩ : ∃ word ∈ leadWords, ∃ letters, w = word ++ letters := by
    rcases hw with rfl | rfl
    · exact ⟨"exports".toList, by decide, '.' :: m.value, rfl⟩
    · exact ⟨"module.".toList, by decide, "exports.".toList ++ m.value, rfl⟩
  have hraw : m.text content = indent ++ (word ++ (letters ++ behind)) := by
    have hboth : source ++ back = indent ++ (word ++ (letters ++ behind)) ++ back := by
      simp only [hstatement, ← htail, List.append_assoc]
    rw [hsource, List.append_cancel_right hboth]
  have hindentation : indentation (m.text content) = indent := by
    rw [hraw]
    simp only [leadWords, List.mem_cons, List.not_mem_nil, or_false] at hword
    rcases hword with rfl | rfl
    · exact takeWhile_append_cons hindent (by decide) _
    · exact takeWhile_append_cons hindent (by decide) _
  have hdrop : content.drop m.start = source ++ back := by rw [hstart, hsplit, List.drop_left]
  refine ⟨front, source ++ back, word, letters ++ behind, hsplit, by rw [← hstart], hbefore, ?_,
    (InlineExport.readFrom_of_mem h).front, hword, by rw [hindentation, hraw]⟩
  rw [← hdrop]
  exact (List.take_prefix _ content).drop m.start

/-! ## Copies -/

/-- **A copy in front of a statement lies in front of it as far as its first word goes**: the text
ahead of a statement ends with a line break or a semicolon, and no indentation and no first word has
one. -/
lemma exists_copy {front front' indent word rest rest' : Text}
    (hbefore : beginsStatement front.getLast? = true) (hindent : ∀ c ∈ indent, isIndent c = true)
    (hword : word ∈ leadWords) (hsplit : front ++ rest = front' ++ (indent ++ (word ++ rest')))
    (hlt : front'.length < front.length) :
    ∃ between, front = front' ++ (indent ++ (word ++ between)) := by
  obtain ⟨ahead, rfl⟩ : front' <+: front :=
    List.prefix_of_prefix_length_le ⟨_, rfl⟩ ⟨_, hsplit⟩ hlt.le
  have hne : ahead ≠ [] := by
    rintro rfl
    simp at hlt
  rw [List.append_assoc, ← List.append_assoc indent] at hsplit
  rcases List.append_eq_append_iff.mp (List.append_cancel_left hsplit) with ⟨more, hmore, -⟩
    | ⟨between, rfl, -⟩
  · -- the last character ahead of the statement would belong to the indentation or to the word
    obtain ⟨c, hlast⟩ : ∃ c, ahead.getLast? = some c := ⟨_, List.getLast?_eq_some_getLast hne⟩
    have hmem : c ∈ indent ++ word := by
      rw [hmore]
      exact List.mem_append_left _ (List.mem_of_getLast? hlast)
    have hclean : ∀ w ∈ leadWords, ∀ d ∈ w, beginsStatement (some d) = false := by decide
    rw [List.getLast?_append_of_ne_nil _ hne, hlast] at hbefore
    rcases List.mem_append.mp hmem with hc | hc
    · have hd := hindent c hc
      simp only [isIndent, Bool.or_eq_true, beq_iff_eq] at hd
      rcases hd with rfl | rfl <;> exact absurd hbefore (by decide)
    · rw [hclean word hword c hc] at hbefore
      cases hbefore
  · exact ⟨between, by simp only [List.append_assoc]⟩

/-- The word of a copy is not the word `export`. -/
lemma export_append_ne {word : Text} (hword : word ∈ leadWords) (t t' : Text) :
    "export ".toList ++ t ≠ word ++ t' := by
  intro h
  have hlength : ∀ w ∈ leadWords, w.length = "export ".toList.length
      ∧ w ≠ "export ".toList := by decide
  obtain ⟨hlen, hne⟩ := hlength word hword
  exact hne (List.append_inj_left h hlen.symm).symm

/-! ## The place -/

/-- **An inline export whose value becomes a constant is written where it was read exactly when no
copy of its statement stands in front of it.** Then nothing ahead of the statement changes, and
neither does what follows its source. -/
theorem writeInlines_inPlace_iff {content : Text} {e : InlineExport} {start : Nat}
    (hread : e ∈ InlineExport.readAll content) (hstart : e.start = some start)
    (hfunction : inlineFunction? (content.drop (start + e.raw.length)) e.property = none)
    (hdeclared : declaration? content e.property = none)
    (himported : importOf? content e.property = none) :
    (writeInlines content [e]).run.value = .ok (content.take start ++ indentation e.raw
        ++ "export const ".toList ++ e.property ++ " = ".toList
        ++ content.drop (start + e.raw.length))
      ↔ ∀ p < start, standsAt e.full content p = false := by
  obtain ⟨front, back, word, tail, hsplit, hplace, hbefore, hfull, hraw, hword, hsource⟩ :=
    InlineExport.exists_of_mem hread
  obtain rfl : front.length = start := Option.some.inj (hplace.symm.trans hstart)
  obtain ⟨behind, hbehind⟩ := hfull
  obtain ⟨value, hvalue⟩ := hraw
  rw [← hbehind] at hsplit
  rw [value_run_writeInlines_singleton]
  obtain ⟨p, hfound⟩ := Option.isSome_iff_exists.mp (isSome_indexOf? front e.full behind)
  rw [← hsplit] at hfound
  constructor
  · intro h
    rcases Nat.lt_or_ge p front.length with hlt | hge
    · -- the first copy has lost its word
      exfalso
      obtain ⟨output, houtput⟩ := exists_export_of_writeInline hdeclared himported hfound
      obtain ⟨front', back', hcopy, rfl⟩ := indexOf?_eq_some hfound
      have hboth : front ++ (e.full ++ behind) =
          front' ++ (indentation e.raw ++ (word ++ (tail ++ (value ++ back')))) := by
        rw [← hsplit, hcopy, ← hvalue]
        nth_rewrite 1 [hsource]
        simp only [List.append_assoc]
      have hindent : ∀ c ∈ indentation e.raw, isIndent c = true :=
        fun c hc => List.mem_takeWhile_imp hc
      obtain ⟨between, hfront⟩ := exists_copy hbefore hindent hword hboth hlt
      rw [houtput, Except.ok.injEq] at h
      have htake : content.take front'.length = front' := by rw [hcopy, List.take_left]
      have htake' : content.take front.length = front := by rw [hsplit, List.take_left]
      rw [htake, htake', hfront] at h
      simp only [List.append_assoc, List.append_cancel_left_eq] at h
      exact export_append_ne hword _ _ h
    · intro q hq
      exact (indexOf?_eq_some_iff.mp hfound).2 q (hq.trans_le hge)
  · intro hfirst
    have hstands : standsAt e.full content front.length = true := by
      rw [hsplit]
      exact standsAt_append front e.full behind
    exact writeInline_constant hdeclared himported (indexOf?_eq_some_iff.mpr ⟨hstands, hfirst⟩)
      hfunction

/-- A text with a copy of its statement behind the statement. -/
def copiedBelow : Text :=
  "const x = 1;\n  exports.sum = x + 1;\n//  exports.sum = x + 1;\n".toList

/-- The inline export of that text. -/
def sumExport : InlineExport where
  raw := "  exports.sum = ".toList
  full := "  exports.sum = x + 1;".toList
  property := "sum".toList
  start := some 13

/-- The statement is written in place although a copy of it stands in a comment below. -/
theorem writeInlines_inPlace_iff_copied :
    InlineExport.readAll copiedBelow = [sumExport]
      ∧ inlineFunction? (copiedBelow.drop (13 + sumExport.raw.length)) sumExport.property = none
      ∧ declaration? copiedBelow sumExport.property = none
      ∧ importOf? copiedBelow sumExport.property = none
      ∧ (writeInlines copiedBelow [sumExport]).run.value = .ok (copiedBelow.take 13
        ++ indentation sumExport.raw ++ "export const ".toList ++ sumExport.property ++ " = ".toList
        ++ copiedBelow.drop (13 + sumExport.raw.length)) := by
  have htext : copiedBelow = _ := String.toList_ofList
  have hread : InlineExport.readAll copiedBelow = [sumExport] := by
    rw [htext]
    decide
  have hfunction : inlineFunction? (copiedBelow.drop (13 + sumExport.raw.length)) sumExport.property
      = none := by
    rw [htext]
    decide
  have hfirst : declaration? copiedBelow sumExport.property = none
      ∧ importOf? copiedBelow sumExport.property = none
      ∧ ∀ p < 13, standsAt sumExport.full copiedBelow p = false := by
    rw [htext]
    decide
  obtain ⟨hdeclared, himported, hcopies⟩ := hfirst
  refine ⟨hread, hfunction, hdeclared, himported, ?_⟩
  exact (writeInlines_inPlace_iff (hread ▸ List.mem_singleton_self _) rfl hfunction hdeclared
    himported).mpr hcopies

/-- A text with a copy of its statement in front of the statement, where it is no statement. -/
def copiedAbove : Text :=
  "x.exports.a = 1;\nexports.a = 1;\n".toList

/-- **A copy in front is written in place of the statement**: the property of another object becomes
the export, and the statement is left as it was. -/
theorem writeInlines_misplaced : ∃ e, InlineExport.readAll copiedAbove = [e] ∧ e.start = some 17
    ∧ inlineFunction? (copiedAbove.drop (17 + e.raw.length)) e.property = none
    ∧ declaration? copiedAbove e.property = none ∧ importOf? copiedAbove e.property = none
    ∧ (writeInlines copiedAbove [e]).run.value
      = .ok "x.export const a = 1;\nexports.a = 1;\n".toList := by
  have htext : copiedAbove = _ := String.toList_ofList
  rw [htext]
  refine ⟨⟨"exports.a = ".toList, "exports.a = 1;".toList, "a".toList, some 17⟩, by decide, rfl,
    by decide, by decide, by decide, ?_⟩
  rw [value_run_writeInlines_singleton]
  decide

end Esmify
