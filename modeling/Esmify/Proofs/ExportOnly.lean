import Esmify.Proofs.Declared
import Esmify.Proofs.InlineSource
import Esmify.Proofs.ImportPass
import Esmify.Proofs.RequireLine

/-!
# Texts that only export

What a text without calls of `require` has to go through: nothing is required (`readAll_eq_nil`),
the exports are written into the text as it is (`run_convert_of_exports`), and where no name is used
through the exports in the end, no use is replaced (`run_replaceUsages`).

The statements that assign to the exports as a whole are found by their words: `module.exports` and
an equals sign (`AssignsModule`), or the exports as the first of several arguments
(`mergeCall_eq_some`). -/

namespace Esmify

open Text Source

/-! ## No requirements -/

/-- No call of `require` stands in a text, white space before the parenthesis or not. -/
def NoCall (content : Text) : Prop :=
  ∀ front blanks back, (∀ c ∈ blanks, isBlank c = true) →
    content ≠ front ++ ("require".toList ++ (blanks ++ '(' :: back))

/-- **Without calls nothing is required**, and nothing is reported. -/
lemma readAll_eq_nil {content : Text} (h : NoCall content) :
    Requirement.readAll content = ⟨[], []⟩ := by
  have hline : Nowhere Requirement.requireLine content := by
    intro front back hsplit
    rw [Option.eq_none_iff_forall_ne_some]
    rintro ⟨u, rest⟩ hmatch
    obtain ⟨-, head, args, tail, hhead, -, -, rfl, -⟩ :=
      Requirement.requireLine_eq_some_iff.mp hmatch
    obtain ⟨call, left, ⟨indent, blanks, -, hblanks, rfl⟩, rfl⟩ :
        ∃ call left, Requirement.CallHead call ∧ head = left ++ call := by
      rcases hhead with hcall | ⟨left, call, -, hcall, rfl⟩
      · exact ⟨head, [], hcall, rfl⟩
      · exact ⟨call, left ++ ['='], hcall, by simp⟩
    refine h (front ++ (left ++ indent)) blanks (args ++ ')' :: tail) hblanks ?_
    rw [hsplit]
    simp only [List.append_assoc, List.cons_append, List.nil_append]
  have hcall : Nowhere Requirement.requireCall content := by
    intro front back hsplit
    rw [Option.eq_none_iff_forall_ne_some]
    rintro ⟨u, rest⟩ hmatch
    obtain ⟨blanks, hblanks, rfl⟩ := Requirement.requireCall_eq_some hmatch
    exact h front blanks rest hblanks hsplit
  unfold Requirement.readAll Requirement.strayCalls codeOccurrences
  rw [hline.occurrences Requirement.requireLine_consumes,
    hcall.occurrences Requirement.requireCall_consumes]
  rfl

/-- **The exports of a text are written into what the import pass makes of it.** -/
lemma run_convert_of_imports {content content' : Text} {config : Config} {rs : List Requirement}
    {exports : Exports} {path : Option Text} {index : Option DefaultIndex}
    (hrequired : Requirement.readAll content = ⟨rs, []⟩)
    (hread : Exports.read content config.experimental = ⟨exports, []⟩)
    (hne : exports.isEmpty = false)
    (himports : (convertImports content path config index rs).run = ⟨.ok content', []⟩) :
    (convert content path config index).run = (exports.write content').run := by
  unfold convert
  rw [hrequired, hread, Revision.run_bind_of_ok (Revision.run_ofReported _),
    Revision.run_bind_of_ok (Revision.run_ofReported _)]
  simp only [hne, Bool.and_false, Bool.false_eq_true, if_false, List.nil_append]
  rw [Revision.run_bind_of_ok himports]
  rfl

/-- **Only the exports are written** when nothing is required. -/
lemma run_convert_of_exports {content : Text} {config : Config} {exports : Exports}
    (hcall : NoCall content) (hread : Exports.read content config.experimental = ⟨exports, []⟩)
    (hne : exports.isEmpty = false) (path : Option Text) (index : Option DefaultIndex) :
    (convert content path config index).run = (exports.write content).run := by
  have himports : (convertImports content path config index []).run = ⟨.ok content, []⟩ := by
    have hedits : (importEdits content config (knownDefault index path) [] []).run = ⟨.ok [], []⟩ :=
      rfl
    unfold convertImports writeImports
    rw [Revision.run_bind_of_ok hedits, applyEdits_nil]
    rfl
  exact run_convert_of_imports (readAll_eq_nil hcall) hread hne himports

/-! ## No uses -/

/-- Where no name is used through the exports, none is replaced. -/
lemma run_replaceUsages {content : Text} {names : List Text}
    (h : ∀ name ∈ names, Nowhere (exportsUse name) content) :
    (replaceUsages content names).run = ⟨.ok content, []⟩ := by
  have huses : ∀ ns : List Text, (∀ name ∈ ns, Nowhere (exportsUse name) content) →
      (replaceUses content ns).run = ⟨.ok content, []⟩ := by
    intro ns hns
    induction ns with
    | nil => rfl
    | cons name ns ih =>
      have hnowhere := hns name List.mem_cons_self
      have hearly : isUsedEarly content name = false := by
        rw [isUsedEarly, hnowhere.first?]
      have huse : (Revision.ofExcept (replaceUse content name)).run = ⟨.ok content, []⟩ := by
        rw [replaceUse, hnowhere.holdsSomewhere]
        rfl
      simp only [replaceUses, hearly, Bool.false_eq_true, if_false]
      rw [Revision.run_bind_of_ok huse, ih fun n hn => hns n (List.mem_cons_of_mem _ hn)]
      rfl
  refine huses (usageOrder names) fun name hname => h name ?_
  exact mem_usageOrder.mp hname

/-- A name is used only where the exports are followed by a dot. -/
lemma nowhere_exportsUse {content : Text}
    (h : ∀ front back, content ≠ front ++ ("exports.".toList ++ back)) (name : Text) :
    Nowhere (exportsUse name) content := by
  intro front back hsplit
  rw [Option.eq_none_iff_forall_ne_some]
  rintro ⟨u, rest⟩ hmatch
  obtain ⟨-, -, w, hw, rfl⟩ := exportsUse_eq_some_iff.mp hmatch
  rcases hw with rfl | rfl
  · exact h front (name ++ rest) (by rw [hsplit, List.append_assoc])
  · refine h (front ++ "module.".toList) (name ++ rest) ?_
    rw [hsplit]
    simp

/-- No inline export is read where no dot follows the exports. -/
lemma readAll_eq_nil_of_exports {content : Text}
    (h : ∀ front back, content ≠ front ++ ("exports.".toList ++ back)) :
    InlineExport.readAll content = [] := by
  rw [List.eq_nil_iff_forall_not_mem]
  intro e he
  have huse := (use_of_mem_readAll he).2
  rw [(nowhere_exportsUse h e.property).holdsSomewhere] at huse
  exact absurd huse (by decide)

/-! ## Assignments to the exports as a whole -/

/-- A statement begins here that assigns to `module.exports`. -/
def AssignsModule (before : Option Char) (t : Text) : Prop :=
  beginsStatement before = true ∧ ∃ indent blanks rest, (∀ c ∈ indent, isIndent c = true)
    ∧ (∀ c ∈ blanks, isBlank c = true)
    ∧ t = indent ++ ("module.exports".toList ++ (blanks ++ '=' :: rest))

/-- The words `module.exports` stand behind an indentation, with blanks behind them. -/
lemma exists_of_wordThenBlanks? {t rest : Text} {c : Char} (hc : isBlank c = false)
    (h : wordThenBlanks? "module.exports".toList (skipIndent t) = some (c :: rest)) :
    ∃ indent blanks, (∀ c ∈ indent, isIndent c = true) ∧ (∀ c ∈ blanks, isBlank c = true)
      ∧ t = indent ++ ("module.exports".toList ++ (blanks ++ c :: rest)) := by
  obtain ⟨v, hv, hrest⟩ := wordThenBlanks?_eq_some_iff.mp h
  obtain ⟨blanks, hblanks, rfl⟩ := (skipBlanks_eq_cons_iff hc).mp hrest.symm
  obtain ⟨indent, hindent, hsplit, -⟩ := dropWhile_split isIndent t
  exact ⟨indent, blanks, hindent, hblanks, by rw [← hv]; exact hsplit⟩

/-- How an assignment of an object literal is written. -/
lemma objectAssignment_eq_some {before : Option Char} {t value rest : Text}
    (h : objectAssignment before t = some (value, rest)) :
    beginsStatement before = true ∧ ∃ indent blanks gap, (∀ c ∈ indent, isIndent c = true)
      ∧ (∀ c ∈ blanks, isBlank c = true) ∧ (∀ c ∈ gap, isBlank c = true)
      ∧ t = indent ++ ("module.exports".toList ++ (blanks ++ '=' :: (gap ++ value))) := by
  unfold objectAssignment at h
  split_ifs at h with hbefore
  split at h
  · next tail hassigned =>
    obtain ⟨rfl, -⟩ := Prod.mk.inj (Option.some.inj h)
    obtain ⟨u, hmodule, hskip⟩ := Option.map_eq_some_iff.mp hassigned
    obtain ⟨v, hword, hsign⟩ := Option.bind_eq_some_iff.mp hmodule
    rw [after?_eq_some_iff.mp hsign] at hword
    obtain ⟨indent, blanks, hindent, hblanks, ht⟩ := exists_of_wordThenBlanks? (by decide) hword
    obtain ⟨gap, hgap, rfl⟩ := (skipBlanks_eq_cons_iff (by decide)).mp hskip
    exact ⟨hbefore, indent, blanks, gap, hindent, hblanks, hgap, ht⟩
  · exact absurd h (by simp)

/-- How an assignment of any other value is written, up to the value. -/
lemma directAssignment_eq_some {before : Option Char} {t rest : Text} {u : Unit}
    (h : directAssignment before t = some (u, rest)) :
    beginsStatement before = true ∧ ∃ indent blanks gap, (∀ c ∈ indent, isIndent c = true)
      ∧ (∀ c ∈ blanks, isBlank c = true) ∧ (∀ c ∈ gap, isIndent c = true)
      ∧ t = indent ++ ("module.exports".toList ++ (blanks ++ '=' :: (gap ++ rest))) := by
  unfold directAssignment at h
  split_ifs at h with hbefore
  obtain ⟨tail, hbind, heq⟩ := Option.map_eq_some_iff.mp h
  obtain ⟨-, rfl⟩ := Prod.mk.inj heq
  obtain ⟨v, hword, hsign⟩ := Option.bind_eq_some_iff.mp hbind
  obtain rfl : v = '=' :: tail := by
    unfold assignSign? at hsign
    split at hsign
    · cases hsign
    · rw [Option.some.inj hsign]
    · cases hsign
  obtain ⟨indent, blanks, hindent, hblanks, ht⟩ := exists_of_wordThenBlanks? (by decide) hword
  obtain ⟨gap, hgap, htail, -⟩ := dropWhile_split isIndent tail
  refine ⟨hbefore, indent, blanks, gap, hindent, hblanks, hgap, ht.trans ?_⟩
  exact congrArg (fun u => indent ++ ("module.exports".toList ++ (blanks ++ '=' :: u))) htail

/-- An assignment of an object is an assignment to the exports of the module. -/
lemma assignsModule_of_object {before : Option Char} {t value rest : Text}
    (h : objectAssignment before t = some (value, rest)) : AssignsModule before t := by
  obtain ⟨hbefore, indent, blanks, gap, hindent, hblanks, -, ht⟩ := objectAssignment_eq_some h
  exact ⟨hbefore, indent, blanks, gap ++ value, hindent, hblanks, ht⟩

/-- So is an assignment of any other value. -/
lemma assignsModule_of_direct {before : Option Char} {t rest : Text} {u : Unit}
    (h : directAssignment before t = some (u, rest)) : AssignsModule before t := by
  obtain ⟨hbefore, indent, blanks, gap, hindent, hblanks, -, ht⟩ := directAssignment_eq_some h
  exact ⟨hbefore, indent, blanks, gap ++ rest, hindent, hblanks, ht⟩

/-- The exports as an argument of a call, with white space around them. -/
def ExportsArgument (u : Text) : Prop :=
  ∃ ahead word behind, (∀ c ∈ ahead, isBlank c = true) ∧ (∀ c ∈ behind, isBlank c = true)
    ∧ (word = "exports".toList ∨ word = "module.exports".toList) ∧ u = ahead ++ (word ++ behind)

/-- The exports are named by one of two words. -/
lemma exportsWord?_eq_some {t rest : Text} (h : exportsWord? t = some rest) :
    ∃ word, (word = "exports".toList ∨ word = "module.exports".toList) ∧ t = word ++ rest := by
  have hafter := after?_eq_some_iff.mp h
  cases hmodule : after? "module.".toList t with
  | none =>
    rw [hmodule, Option.getD_none] at hafter
    exact ⟨_, Or.inl rfl, hafter⟩
  | some u =>
    rw [hmodule, Option.getD_some] at hafter
    refine ⟨_, Or.inr rfl, ?_⟩
    rw [after?_eq_some_iff.mp hmodule, hafter]
    rfl

/-- How a call that merges objects into the exports is written. -/
lemma mergeCall_eq_some {before : Option Char} {t value rest : Text}
    (h : mergeCall before t = some (value, rest)) :
    beginsStatement before = true ∧ ∃ indent function gap argument,
    (∀ c ∈ indent, isIndent c = true)
      ∧ function ∈ mergeFunctions ∧ (∀ c ∈ gap, isBlank c = true) ∧ ExportsArgument argument
      ∧ value = '(' :: (argument ++ ',' :: rest) ∧ t = indent ++ (function ++ (gap ++ value)) := by
  unfold mergeCall at h
  split_ifs at h with hbefore
  split at h
  · next inner hmerge =>
    obtain ⟨args, hargs, heq⟩ := Option.map_eq_some_iff.mp h
    obtain ⟨rfl, rfl⟩ := Prod.mk.inj heq
    obtain ⟨v, hword, hcomma⟩ := Option.bind_eq_some_iff.mp hargs
    obtain ⟨w, hexports, rfl⟩ := Option.map_eq_some_iff.mp hword
    obtain ⟨behind, hbehind, rfl⟩ := (skipBlanks_eq_cons_iff (by decide)).mp
      (after?_eq_some_iff.mp hcomma)
    obtain ⟨word, hword, hskip⟩ := exportsWord?_eq_some hexports
    obtain ⟨ahead, hahead, hinner, -⟩ := dropWhile_split isBlank inner
    obtain ⟨u, hone, hopen⟩ := Option.map_eq_some_iff.mp hmerge
    obtain ⟨function, hfunction, hcall⟩ := oneOf?_eq_some hone
    obtain ⟨gap, hgap, rfl⟩ := (skipBlanks_eq_cons_iff (by decide)).mp hopen
    obtain ⟨indent, hindent, ht, -⟩ := dropWhile_split isIndent t
    refine ⟨hbefore, indent, function, gap, ahead ++ (word ++ behind), hindent, hfunction, hgap,
      ⟨ahead, word, behind, hahead, hbehind, hword, rfl⟩, ?_, ?_⟩
    · have hsplit : inner = ahead ++ (word ++ (behind ++ ',' :: args)) :=
        hinner.trans (congrArg _ hskip)
      rw [hsplit]
      simp only [List.append_assoc]
    · rw [← hcall]
      exact ht
  · exact absurd h (by simp)

/-- A call that merges into the exports has them in front of a comma. -/
lemma exists_comma_of_mergeCall {before : Option Char} {t value rest : Text}
    (h : mergeCall before t = some (value, rest)) :
    ∃ front blanks, (∀ c ∈ blanks, isBlank c = true)
      ∧ t = front ++ ("exports".toList ++ (blanks ++ ',' :: rest)) := by
  obtain ⟨-, indent, function, gap, argument, -, -, -,
    ⟨ahead, word, behind, -, hbehind, hword, rfl⟩, rfl, rfl⟩ :=
    mergeCall_eq_some h
  rcases hword with rfl | rfl
  · exact ⟨indent ++ (function ++ (gap ++ '(' :: ahead)), behind, hbehind, by simp⟩
  · exact ⟨indent ++ (function ++ (gap ++ '(' :: (ahead ++ "module.".toList))), behind,
      hbehind, by simp⟩

/-- **Nothing is exported as a whole** where no statement assigns to `module.exports` and no comma
follows the exports. -/
lemma findGlobal_eq_empty {content : Text} (experimental : Bool)
    (hassign : ∀ front back, content = front ++ back → ¬ AssignsModule front.getLast? back)
    (hmerge : ∀ front blanks back, (∀ c ∈ blanks, isBlank c = true) →
      content ≠ front ++ ("exports".toList ++ (blanks ++ ',' :: back))) :
    findGlobal content experimental = .ok {} := by
  have hobject : Nowhere objectAssignment content := by
    intro front back hsplit
    rw [Option.eq_none_iff_forall_ne_some]
    rintro ⟨value, rest⟩ hmatch
    exact hassign front back hsplit (assignsModule_of_object hmatch)
  have hcall : Nowhere mergeCall content := by
    intro front back hsplit
    rw [Option.eq_none_iff_forall_ne_some]
    rintro ⟨value, rest⟩ hmatch
    obtain ⟨front', blanks, hblanks, rfl⟩ := exists_comma_of_mergeCall hmatch
    exact hmerge (front ++ front') blanks rest hblanks (by rw [hsplit, List.append_assoc])
  have hdirect : Nowhere directAssignment content := by
    intro front back hsplit
    rw [Option.eq_none_iff_forall_ne_some]
    rintro ⟨u, rest⟩ hmatch
    exact hassign front back hsplit (assignsModule_of_direct hmatch)
  rw [findGlobal, hobject.first?, hcall.first?, hdirect.first?]

end Esmify
