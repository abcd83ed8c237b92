import Esmify.Proofs.ConvertedText

/-!
# Reading a converted text again

**What the second reading of a converted text can find.** Every line that a search finds in a
converted text is declined, but for lines that begin inside the module name of an import
(`declined_or_behindModuleBreak`):

* a kept line was declined before, and is declined again;
* a line that begins between the pieces, where none began before, runs into an import with its
  left-hand side;
* a line that begins with an import, or inside its clause, is declined for what it holds.

So nothing is left to convert unless a module name has a line break in it, and a name with line
breaks may hold what looks like a statement. -/

namespace Esmify

open Text Source Requirement

variable {config : Config} {isDefault : Requirement → Option Bool} {rs : List Requirement}

/-! ## Where a text first differs -/

/-- A converted text is the same as the text it was made from, up to the first import. -/
lemma Converted.exists_first {pieces : List (Piece Unit)} {t : Text}
    (h : Converted config isDefault rs pieces t) {before : Option Char}
    (hscan : Scan requireLine before pieces) :
    t = joined pieces ∨ ∃ front r behind line back, r ∈ rs ∧ WellRead r
      ∧ t = front ++ (importOf config (isDefault r) r ++ behind)
      ∧ joined pieces = front ++ (line ++ back) ∧ LineText line
      ∧ (front = [] ∧ beginsLine before = true ∨ ∃ front', front = front' ++ ['\n']) := by
  induction h generalizing before with
  | done => exact Or.inl rfl
  | @plain c pieces t h ih =>
    cases hscan with
    | plain _ hrest =>
      rcases ih hrest with rfl | ⟨front, r, behind, line, back, hr, hread, rfl, hjoined,
        hline, hfront⟩
      · exact Or.inl rfl
      · refine Or.inr ⟨c :: front, r, behind, line, back, hr, hread, rfl, ?_, hline, Or.inr ?_⟩
        · simp [joined, Piece.text, hjoined]
        · rcases hfront with ⟨rfl, hbegins⟩ | ⟨front', rfl⟩
          · exact ⟨[], by simpa [beginsLine] using hbegins⟩
          · exact ⟨c :: front', rfl⟩
  | @kept line pieces t hdeclined h ih =>
    obtain ⟨-, hline, -, last, hlast, hrest⟩ := scan_found hscan
    rcases ih hrest with rfl | ⟨front, r, behind, line', back, hr, hread, rfl, hjoined,
      hline', hfront⟩
    · exact Or.inl rfl
    · refine Or.inr ⟨line ++ front, r, behind, line', back, hr,
        hread, by rw [List.append_assoc], ?_, hline', Or.inr ?_⟩
      · simp [joined, Piece.text, hjoined]
      · rcases hfront with ⟨-, hbegins⟩ | ⟨front', rfl⟩
        · exact absurd hbegins (by simpa [beginsLine] using hlast)
        · exact ⟨line ++ front', by rw [List.append_assoc]⟩
  | @written line rest r pieces t hr hread hrest h ih =>
    obtain ⟨hbegins, hline, -⟩ := scan_found hscan
    exact Or.inr ⟨[], r, rest ++ t, line, joined pieces, hr, hread, by simp, rfl, hline,
      Or.inl ⟨rfl, hbegins⟩⟩

/-! ## Lines that run into an import -/

/-- Behind a line break in the head of a call there is only white space and the parenthesis. -/
lemma eq_of_callHead_break {a b : Text} (h : CallHead (a ++ '\n' :: b)) :
    ∃ blanks, (∀ c ∈ blanks, isBlank c = true) ∧ b = blanks ++ ['('] := by
  obtain ⟨indent, blanks, hindent, hblanks, hsplit⟩ := h
  have hnot : '\n' ∉ indent ++ "require".toList := by
    rw [List.mem_append, not_or]
    exact ⟨fun hmem => absurd (hindent _ hmem) (by decide), by decide⟩
  rw [← List.append_assoc] at hsplit
  obtain ⟨a', -, hbehind⟩ := append_eq_append_cons_of_not_mem hnot hsplit.symm
  rcases append_eq_append_cons hbehind with ⟨l, rfl, rfl⟩ | ⟨a'', -, hparen⟩
  · exact ⟨l, fun c hc => hblanks c (by simp [hc]), rfl⟩
  · rcases a'' with _ | ⟨c, a''⟩
    · exact absurd (List.cons.inj hparen).1 (by decide)
    · exact absurd (List.cons.inj hparen).2 (by simp)

/-- No call has a head with the letter `i` in it where a line or the head itself begins. -/
lemma not_callHead {a m : Text} (ha : a = [] ∨ ∃ a', a = a' ++ ['\n']) :
    ¬ CallHead (a ++ 'i' :: m) := by
  intro h
  rcases ha with rfl | ⟨a', rfl⟩
  · obtain ⟨indent, blanks, hindent, -, hsplit⟩ := h
    cases indent with
    | nil => exact absurd (List.cons.inj hsplit).1 (by decide)
    | cons c indent =>
      have hc := hindent c List.mem_cons_self
      rw [← (List.cons.inj hsplit).1] at hc
      exact absurd hc (by decide)
  · rw [List.append_assoc, List.singleton_append] at h
    obtain ⟨blanks, hblanks, hsplit⟩ := eq_of_callHead_break h
    cases blanks with
    | nil => exact absurd (List.cons.inj hsplit).1 (by decide)
    | cons c blanks =>
      have hc := hblanks c List.mem_cons_self
      rw [← (List.cons.inj hsplit).1] at hc
      exact absurd hc (by decide)

/-- A head with an import in it has that import in its left-hand side. -/
lemma exists_front_of_lineHead {head a m : Text} (hhead : LineHead head)
    (ha : a = [] ∨ ∃ a', a = a' ++ ['\n']) (hsplit : head = a ++ 'i' :: m) :
    ∃ front call m', LeftFront front ∧ head = front ++ '=' :: call ∧ front = a ++ m'
      ∧ 'i' :: m = m' ++ '=' :: call := by
  rcases hhead with hcall | ⟨front, call, hfront, hcall, heq⟩
  · rw [hsplit] at hcall
    exact absurd hcall (not_callHead ha)
  · rcases append_eq_append_cons (hsplit.symm.trans heq) with ⟨l', hl', hcall'⟩ | ⟨m', hfront', hm'⟩
    · -- the equals sign stands before the import, which is then part of the call
      rw [hcall'] at hcall
      refine absurd hcall (not_callHead ?_)
      rcases ha with rfl | ⟨a', rfl⟩
      · exact absurd hl' (by simp)
      · rcases List.eq_nil_or_concat l' with rfl | ⟨l, c, rfl⟩
        · exact Or.inl rfl
        · rw [List.concat_eq_append] at hl' ⊢
          rw [← List.cons_append, ← List.append_assoc, List.append_singleton_inj] at hl'
          exact Or.inr ⟨l, by rw [hl'.2]⟩
    · exact ⟨front, call, m', hfront, heq, hfront', hm'⟩

/-- **A line that runs into an import with its head is declined.** -/
lemma declined_of_runs_into {head args tail back a rest : Text} {c : Char} (hhead : LineHead head)
    (hnot : ¬ head <+: a) (ha : a = [] ∨ ∃ a', a = a' ++ ['\n']) (hc : isImportStart c = true)
    (hsplit : head ++ (args ++ ')' :: tail) ++ back = a ++ ("import ".toList ++ c :: rest)) :
    Declined (head ++ (args ++ ')' :: tail)) := by
  rw [List.append_assoc] at hsplit
  rcases List.append_eq_append_iff.mp hsplit with ⟨m, rfl, -⟩ | ⟨m, hm, himport⟩
  · exact absurd (List.prefix_append head m) hnot
  · cases m with
    | nil =>
      rw [List.append_nil] at hm
      exact absurd (hm ▸ List.prefix_rfl) hnot
    | cons d m =>
      obtain rfl : 'i' = d := (List.cons.inj himport).1
      obtain ⟨front, call, m', hfront, rfl, rfl, hm'⟩ := exists_front_of_lineHead hhead ha hm
      have hword : '=' ∉ "import ".toList ++ [c] := by
        have := (isImportStart_ne hc).2.2.2.2
        simp [Ne.symm this]
      have hahead : ("import ".toList ++ [c]) ++ rest =
          m' ++ '=' :: (call ++ (args ++ ')' :: tail ++ back)) := by
        rw [List.append_assoc, List.singleton_append, himport, hm']
        simp only [List.append_assoc, List.cons_append]
      obtain ⟨m'', rfl, -⟩ := append_eq_append_cons_of_not_mem hword hahead
      rw [List.append_assoc, List.cons_append]
      exact declined_of_import hc (hfront.not_mem (by decide) (by decide) (by decide))
        (hfront.not_mem (by decide) (by decide) (by decide)) ⟨a, m'', by rw [List.append_assoc]⟩

/-- A head with something before a closing parenthesis behind it is a line. -/
lemma requireLine_ne_none {before : Option Char} {head w : Text} {c : Char}
    (hbegins : beginsLine before = true) (hhead : LineHead head) (hc : c ≠ ')') (hw : ')' ∈ w) :
    requireLine before (head ++ c :: w) ≠ none := by
  obtain ⟨l, r, rfl, hl⟩ := List.eq_append_cons_of_mem hw
  have hmatch := requireLine_eq_some_iff (u := ()).mpr ⟨hbegins, head, c :: l, r, hhead,
    List.cons_ne_nil c l, by simp [Ne.symm hc, hl], rfl, rfl⟩
  rw [List.cons_append] at hmatch
  rw [hmatch]
  simp

/-- A line does not end its head where the text is still as it was, unless there was a line
before. -/
lemma head_runs_past {before : Option Char} {head args tail back a t line rest : Text}
    (hbegins : beginsLine before = true) (hhead : LineHead head) (hne : args ≠ [])
    (hclose : ')' ∉ args) (hsplit : head ++ (args ++ ')' :: tail) ++ back = a ++ t)
    (hline : LineText line) (hnone : requireLine before (a ++ (line ++ rest)) = none) :
    ¬ head <+: a := by
  rintro ⟨m, rfl⟩
  obtain ⟨front, end', hfront, hclose', -, rfl⟩ := hline.exists_close
  rw [List.append_assoc, List.append_assoc head m, List.append_cancel_left_eq] at hsplit
  rw [List.append_assoc] at hnone
  cases m with
  | nil =>
    obtain ⟨c, front, rfl⟩ := List.exists_cons_of_ne_nil hfront
    refine requireLine_ne_none hbegins hhead (fun hc => hclose' ?_) ?_ hnone
    · rw [hc]
      exact List.mem_cons_self
    · simp
  | cons c m =>
    obtain ⟨d, args, rfl⟩ := List.exists_cons_of_ne_nil hne
    obtain rfl : d = c := (List.cons.inj hsplit).1
    refine requireLine_ne_none hbegins hhead (fun hc => hclose ?_) ?_ hnone
    · rw [hc]
      exact List.mem_cons_self
    · simp

/-! ## Lines of a converted text -/

/-- The offset `i` stands behind a line break in the module name of an import statement of a
text. -/
def BehindModuleBreak (config : Config) (isDefault : Requirement → Option Bool)
    (rs : List Requirement) (t : Text) (i : Nat) : Prop :=
  ∃ r ∈ rs, ∃ front head x y back q, writtenTarget config r.target = x ++ '\n' :: y
    ∧ importOf config (isDefault r) r = head ++ (x ++ '\n' :: y) ++ [q, ';']
    ∧ t = front ++ (importOf config (isDefault r) r ++ back)
    ∧ i = front.length + head.length + x.length + 1

/-- A line that begins between two pieces is declined. -/
lemma Converted.declined {pieces : List (Piece Unit)} {t line back : Text} {before : Option Char}
    (h : Converted config isDefault rs pieces t) (hscan : Scan requireLine before pieces)
    (hsplit : t = line ++ back) (hbegins : beginsLine before = true) (hline : LineText line)
    (hends : EndsLine back) : Declined line := by
  have hmatch : requireLine before t = some ((), back) := by
    rw [hsplit]
    exact requireLine_append_iff.mpr ⟨hbegins, hline, hends⟩
  obtain ⟨head, args, tail, hhead, hne, hclose, hbreak, rfl⟩ := id hline
  cases id h with
  | done => exact absurd hsplit (by simp [hhead.ne_nil])
  | @plain c pieces t hrest =>
    cases hscan with
    | plain hnone hscan' =>
      rcases h.exists_first (.plain hnone hscan') with
        heq | ⟨front, r, behind, line', back', hr, hread, heq, hjoined, hline', hfront⟩
      · -- nothing was changed, and no line began here
        rw [heq] at hmatch
        exact absurd (hmatch.symm.trans hnone) (by simp)
      · obtain ⟨c', rest, hc', himport⟩ := importOf_begins config (isDefault r) hread
        have hahead : head ++ (args ++ ')' :: tail) ++ back =
            front ++ ("import ".toList ++ c' :: (rest ++ behind)) := by
          rw [← hsplit, heq, himport]
          simp only [List.append_assoc, List.cons_append]
        change requireLine before (joined (.plain c :: pieces)) = none at hnone
        rw [hjoined] at hnone
        exact declined_of_runs_into hhead
          (head_runs_past hbegins hhead hne hclose hahead hline' hnone)
          (hfront.imp And.left id) hc' hahead
  | @kept line' pieces t hdeclined hrest =>
    -- the kept line itself: both are matched at the same place
    obtain ⟨-, hline', hends', last, hlast, hscan'⟩ := scan_found hscan
    have hmatch' := requireLine_append_iff (u := ()).mpr
      ⟨hbegins, hline', hrest.endsLine hlast hscan' hends'⟩
    rw [hmatch, Option.some.injEq, Prod.mk.injEq] at hmatch'
    rw [hmatch'.2, List.append_cancel_right_eq] at hsplit
    rwa [← hsplit]
  | @written line' rest r pieces t hr hread hrest hconverted =>
    obtain ⟨c, rest', hc, himport⟩ := importOf_begins config (isDefault r) hread
    have hahead : head ++ (args ++ ')' :: tail) ++ back =
        [] ++ ("import ".toList ++ c :: (rest' ++ (rest ++ t))) := by
      rw [← hsplit, himport]
      simp only [List.append_assoc, List.cons_append, List.nil_append]
    exact declined_of_runs_into hhead (by simp [hhead.ne_nil]) (Or.inl rfl) hc hahead

/-- **A line found in a converted text is declined**, or begins behind a line break in the module
name of an import. -/
lemma declined_or_behindModuleBreak {front line back : Text} {u : Unit}
    (h : Place config isDefault rs front (line ++ back))
    (hmatch : requireLine front.getLast? (line ++ back) = some (u, back)) :
    Declined line ∨ BehindModuleBreak config isDefault rs (front ++ (line ++ back))
      front.length := by
  obtain ⟨hbegins, hline, hends⟩ := requireLine_append_iff.mp hmatch
  generalize htext : line ++ back = text at h
  cases h with
  | between hscan hbefore hconverted =>
    exact Or.inl (hconverted.declined hscan htext.symm (hbefore.trans hbegins) hline hends)
  | @inside last pieces r front a b rest t hr hread hrest hsplit ha hb hlast hscan hconverted =>
    obtain ⟨a', rfl⟩ : ∃ a', a = a' ++ ['\n'] := by
      rcases List.eq_nil_or_concat a with rfl | ⟨a', c, rfl⟩
      · exact absurd rfl ha
      · refine ⟨a', ?_⟩
        simp only [List.concat_eq_append, List.getLast?_append, List.getLast?_singleton,
          Option.some_or, beginsLine, beq_iff_eq] at hbegins
        rw [List.concat_eq_append, hbegins]
    rw [List.append_assoc, List.singleton_append] at hsplit
    rcases append_eq_append_cons hsplit with ⟨b', himport, rfl⟩ | ⟨x, -, hx⟩
    · rcases importOf_break hread himport with hclause | ⟨q, head, x, y, -, htarget, rfl, rfl⟩
      · left
        apply declined_of_clauseLine _ hline
        · exact back
        · rw [htext, List.append_assoc]
          exact hclause.append _
      · right
        refine ⟨r, hr, front, head, x, y, rest ++ t, q, htarget, ?_, ?_, ?_⟩
        · rw [himport]
          simp only [List.append_assoc, List.cons_append]
        · rw [himport]
          simp only [List.append_assoc, List.cons_append, List.nil_append]
        · simp only [List.length_append, List.length_singleton]
          omega
    · exact absurd (by rw [hx]; simp) hrest

/-! ## The second reading -/

/-- Nothing is read from lines exactly when each of them is declined by itself. -/
lemma readLines_eq_nil_iff {content : Text} {lines : List (Occurrence Unit)} :
    (readLines content false lines).value = [] ↔ ∀ line ∈ lines, Declined (line.text content) := by
  induction lines with
  | nil => simp [readLines]
  | cons line lines ih =>
    rw [List.forall_mem_cons, readLines]
    cases hline : ofLine (line.text content) false with
    | error e =>
      simp only [Reported.value_bind, ih]
      exact ⟨fun h => ⟨fun r hr => by simp [hline] at hr, h⟩, And.right⟩
    | ok r =>
      simp only [Reported.value_bind, Reported.value_pure]
      exact ⟨fun h => absurd h (by simp), fun h => absurd hline (h.1 r)⟩

/-- A name without line breaks is written without line breaks. -/
lemma break_not_mem_writtenTarget {target : Text} (h : '\n' ∉ target) :
    '\n' ∉ writtenTarget config target := by
  unfold writtenTarget
  split_ifs
  · exact fun hmem => h (List.mem_of_mem_take hmem)
  · exact h

/-- Every line of a woven text is declined, or begins behind a line break in a module name. -/
lemma declined_or_behindModuleBreak_of_mem {content : Text} {o : Occurrence Unit}
    (ho : o ∈ occurrences requireLine
      (weave content 0 ((readAll content).value.map (importEdit config isDefault)))) :
    let converted := weave content 0 ((readAll content).value.map (importEdit config isDefault))
    Declined (o.text converted)
      ∨ BehindModuleBreak config isDefault (readAll content).value converted o.start := by
  intro converted
  obtain ⟨pieces, hjoined, hscan⟩ := exists_scan requireLine_consumes content none
  have hread : (readAll content).value = (readLines content false (places 0 pieces)).value := by
    rw [value_readAll]
    have hplaces := occurrences_eq_places hscan
    rw [hjoined] at hplaces
    rw [hplaces]
  have hconverted : Converted config isDefault (readAll content).value pieces converted := by
    have h : Converted config isDefault (readAll content).value pieces (weave content 0
        ((readLines content false (places 0 pieces)).value.map (importEdit config isDefault))) :=
      converted_weave [] false hjoined.symm hscan (fun r hr => by rw [hread]; exact hr)
    rwa [← hread] at h
  obtain ⟨pieces', hjoined', hscan'⟩ := exists_scan requireLine_consumes converted none
  have hplace : Place config isDefault (readAll content).value [] (joined pieces') := by
    rw [hjoined']
    exact .between hscan rfl hconverted
  have hplaces := occurrences_eq_places hscan'
  rw [hjoined'] at hplaces
  change o ∈ occurrences requireLine converted at ho
  rw [hplaces] at ho
  obtain ⟨front, line, back, hstart, hstop, hsplit, hreached, hmatch⟩ :=
    hscan'.exists_of_mem_places (fun _ _ _ => Place.of_plain) (fun _ _ _ _ => Place.of_match) [] rfl
      hplace o ho
  rw [List.nil_append, hjoined'] at hsplit
  have htext : o.text converted = line := by
    unfold Occurrence.text
    rw [hstart, hstop, hsplit]
    exact slice_append front line back
  rw [htext, hstart, hsplit]
  exact declined_or_behindModuleBreak hreached hmatch

/-- **The import pass leaves nothing behind that it would convert**, except inside module names. The
converted text is read into nothing exactly when the lines that begin behind a line break in the
module name of an import are declined; without line breaks in module names it is always so. -/
theorem readAll_convertImports_eq_nil_iff (content : Text) (path : Option Text) (config : Config)
    (index : Option DefaultIndex) :
    let rs := (readAll content).value
    ∃ converted, (convertImports content path config index rs).run.value = .ok converted
      ∧ ((readAll converted).value = [] ↔ ∀ line ∈ occurrences requireLine converted,
        BehindModuleBreak config (knownDefault index path) rs converted line.start →
          Declined (line.text converted))
      ∧ ((∀ r ∈ rs, '\n' ∉ r.target) → (readAll converted).value = []) := by
  intro rs
  refine ⟨weave content 0 (rs.map (importEdit config (knownDefault index path))), ?_, ?_, ?_⟩
  · rw [convertImports, run_writeImports (standing_readAll content) properBinding_readLines]
  · rw [value_readAll, readLines_eq_nil_iff]
    constructor
    · intro h line hline _
      exact h line hline
    · intro h line hline
      rcases declined_or_behindModuleBreak_of_mem hline with hdeclined | hbreak
      · exact hdeclined
      · exact h line hline hbreak
  · intro htargets
    rw [value_readAll, readLines_eq_nil_iff]
    intro line hline
    rcases declined_or_behindModuleBreak_of_mem hline with hdeclined
      | ⟨r, hr, _, _, x, y, _, _, htarget, -⟩
    · exact hdeclined
    · exact absurd (by rw [htarget]; simp) (break_not_mem_writtenTarget (htargets r hr))

/-- A module name with a line break can hold a line that is read once the import is written. -/
theorem readAll_convertImports_ne_nil :
    let content := "const x = require('a\nrequire(')\ny')\n".toList
    ∃ converted, (convertImports content none {} none (readAll content).value).run.value
      = .ok converted
      ∧ (readAll converted).value ≠ [] := by
  intro content
  refine ⟨weave content 0 ((readAll content).value.map (importEdit {} (knownDefault none none))),
    ?_, by decide⟩
  rw [convertImports, run_writeImports (standing_readAll content) properBinding_readLines]

end Esmify
