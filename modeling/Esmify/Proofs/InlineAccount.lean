import Esmify.Proofs.Failure
import Esmify.Proofs.InlineTurn
import Esmify.Proofs.UsePass

/-!
# What becomes of inline exports

**An inline export that was read is exported in the converted text, unless it goes missing**
(`convert_keeps_inline`). There are five ways to go missing (`Missing`): its statement is not there
any more when its turn comes, which is reported; the statement runs into the declaration of the
name; the name is imported with a brace in what it stands for; or the export is written and a later
step, of the inline exports or of the uses, cuts into it.

The statement of a lost export does not survive either. Uses of exported names are replaced whether
or not the exports were written, so that no assignment to the property is left.
`convert_loses_inline` has such a text: an import is written inside the exported function, which is
not found any more. -/

namespace Esmify

open Text Source

/-! ## Turns -/

/-- The text that an inline export finds when its turn comes, in a text `t` with all its exports. -/
def Turn (t : Text) (exports : Exports) (e : InlineExport) (mid : Text) : Prop :=
  ∃ done left, longestFirst exports.inline = done ++ e :: left ∧ inlinePass.run t done = some mid

/-- **Why an inline export is not exported in the end**, in the text that the global exports
leave. -/
inductive Missing (t : Text) (exports : Exports) (e : InlineExport) (ws : List Warning) : Prop
  /-- The statement is not there any more, and this is reported. -/
  | lost {mid : Text} : Turn t exports e mid → indexOf? e.full mid = none →
    .lostExport e.full ∈ ws → Missing t exports e ws
  /-- The statement runs into the declaration of the name. -/
  | overrun {mid : Text} : Turn t exports e mid → Overrun e mid → Missing t exports e ws
  /-- The name is imported with a brace in what it stands for. -/
  | braced {mid : Text} : Turn t exports e mid → BraceImported e.property mid →
    Missing t exports e ws
  /-- An inline export that comes later is written into an export of the name. -/
  | overwritten {done left : List InlineExport} {next : Text} :
    longestFirst exports.inline = done ++ e :: left → inlinePass.run t (done ++ [e]) = some next →
    inlinePass.Cut (fun _ => true) (NamedExport e.property) next left → Missing t exports e ws
  /-- A use is replaced in an export of the name. -/
  | replaced {mid : Text} : inlinePass.run t (longestFirst exports.inline) = some mid →
    usePass.Cut (fun _ => true) (NamedExport e.property) mid (usageOrder exports.names) →
    Missing t exports e ws

/-- Every inline export has its turn, and what is reported then stays reported. -/
lemma exists_turn {t t' : Text} {es : List InlineExport} (h : (writeEach t es).run.value = .ok t')
    {e : InlineExport} (he : e ∈ es) :
    ∃ done left mid next, es = done ++ e :: left ∧ inlinePass.run t done = some mid
      ∧ (writeInline mid e).run.value = .ok next
      ∧ (writeInline mid e).run.warnings ⊆ (writeEach t es).run.warnings := by
  induction es generalizing t with
  | nil => exact absurd he List.not_mem_nil
  | cons e' es ih =>
    rw [writeEach] at h ⊢
    obtain ⟨t₁, hfirst, hrest, hwarnings⟩ := Revision.exists_of_run_bind h
    rw [hwarnings]
    rcases List.mem_cons.mp he with rfl | he
    · exact ⟨[], es, t, t₁, rfl, rfl, hfirst, List.subset_append_left _ _⟩
    · obtain ⟨done, left, mid, next, rfl, hrun, hvalue, hreported⟩ := ih hrest he
      have hact : inlinePass.act e' t = some t₁ := by
        show (writeInline t e').run.value.toOption = some t₁
        rw [hfirst]
        rfl
      exact ⟨e' :: done, left, mid, next, rfl, (Pass.run_cons hact).trans hrun, hvalue,
        List.Subset.trans hreported (List.subset_append_right _ _)⟩

/-! ## Stages -/

/-- An export of a name is not empty. -/
lemma NamedExport.ne_nil {name u : Text} {next : Option Char} (h : NamedExport name u next) :
    u ≠ [] := by
  cases h <;> exact List.cons_ne_nil _ _

/-- The steps of the writer of inline exports are those of the pass. -/
lemma run_inlinePass {t t' : Text} {es : List InlineExport}
    (h : (writeInlines t es).run.value = .ok t') :
    inlinePass.run t (longestFirst es) = some t' := by
  rw [writeInlines, value_run_writeEach] at h
  exact (Pass.foldlM_eq_ok_iff (p := inlinePass) fun _ _ => rfl).mp h

/-- Uses are replaced by the pass. -/
lemma run_usePass {t t' : Text} {names : List Text}
    (h : (replaceUsages t names).run.value = .ok t') :
    usePass.run t (usageOrder names) = some t' := by
  rw [replaceUsages, value_run_replaceUses] at h
  exact (Pass.foldlM_eq_ok_iff (p := usePass) fun _ _ => rfl).mp h

/-- **Writing the inline exports of a text exports each of them**, unless it goes missing. -/
lemma exported_of_writeInlines {t t' : Text} {exports : Exports}
    (h : (writeInlines t exports.inline).run.value = .ok t') {e : InlineExport}
    (he : e ∈ exports.inline) :
    Stands (fun _ => true) (NamedExport e.property) t'
      ∨ Missing t exports e (writeInlines t exports.inline).run.warnings := by
  obtain ⟨done, left, mid, next, hsplit, hrun, hvalue, hreported⟩ :=
    exists_turn h (List.mem_mergeSort.mpr he)
  have hturn : Turn t exports e mid := ⟨done, left, hsplit, hrun⟩
  rcases exported_of_writeInline hvalue with ⟨hnone, hlost⟩ | hstands | hover | hbrace
  · exact Or.inr (.lost hturn hnone (hreported hlost))
  · have hact : inlinePass.run t (done ++ [e]) = some next := by
      rw [Pass.run_append hrun]
      refine Pass.run_cons ?_
      show (writeInline mid e).run.value.toOption = some next
      rw [hvalue]
      rfl
    have hleft : inlinePass.run next left = some t' := by
      rw [← Pass.run_append hact, List.append_assoc, List.singleton_append, ← hsplit]
      exact run_inlinePass h
    exact (Pass.run_keeps (inlinePass_keeps (P := NamedExport e.property) NamedExport.ne_nil) hleft
      hstands).imp_right (.overwritten hsplit hact)
  · exact Or.inr (.overrun hturn hover)
  · exact Or.inr (.braced hturn hbrace)

/-- What went missing with fewer warnings went missing with more. -/
lemma Missing.mono {t : Text} {exports : Exports} {e : InlineExport} {ws ws' : List Warning}
    (h : Missing t exports e ws) (hws : ws ⊆ ws') : Missing t exports e ws' := by
  cases h with
  | lost hturn hnone hreported => exact .lost hturn hnone (hws hreported)
  | overrun hturn hover => exact .overrun hturn hover
  | braced hturn hbrace => exact .braced hturn hbrace
  | overwritten hsplit hrun hcut => exact .overwritten hsplit hrun hcut
  | replaced hrun hcut => exact .replaced hrun hcut

/-- **Writing the exports of a text exports each inline one**, unless it goes missing in the text
that the global exports leave. -/
lemma exported_of_write {content t : Text} {exports : Exports}
    (h : (exports.write content).run.value = .ok t) {e : InlineExport} (he : e ∈ exports.inline) :
    Stands (fun _ => true) (NamedExport e.property) t
      ∨ ∃ t₁, (writeGlobal content exports.global).run.value = .ok t₁
        ∧ Missing t₁ exports e (exports.write content).run.warnings := by
  obtain ⟨t₁, hglobal, h₁, hwarnings₁⟩ := Revision.exists_of_run_bind h
  obtain ⟨t₂, hinline, h₂, hwarnings₂⟩ := Revision.exists_of_run_bind h₁
  have hsubset : (writeInlines t₁ exports.inline).run.warnings ⊆
      (exports.write content).run.warnings := by
    unfold Exports.write
    rw [hwarnings₁, hwarnings₂]
    exact List.Subset.trans (List.subset_append_left _ _) (List.subset_append_right _ _)
  rcases exported_of_writeInlines hinline he with hstands | hmissing
  · refine (Pass.run_keeps (usePass_keeps (P := NamedExport e.property) NamedExport.ne_nil)
      (run_usePass h₂) hstands).imp_right fun hcut => ?_
    exact ⟨t₁, hglobal, .replaced (run_inlinePass hinline) hcut⟩
  · exact Or.inr ⟨t₁, hglobal, hmissing.mono hsubset⟩

/-- No assignment to a property is left when the uses of all names have been replaced. -/
lemma property_ne_of_write {content t : Text} {exports : Exports}
    (h : (exports.write content).run.value = .ok t)
    (hnames : ∀ name ∈ exports.names, PlainName name) {e e' : InlineExport}
    (he : e ∈ exports.inline) (he' : e' ∈ InlineExport.readAll t) :
    e'.property ≠ e.property := by
  obtain ⟨t₁, -, h₁, -⟩ := Revision.exists_of_run_bind h
  obtain ⟨t₂, -, h₂, -⟩ := Revision.exists_of_run_bind h₁
  have hmem : e.property ∈ exports.names := List.mem_append_left _ (List.mem_map_of_mem he)
  intro heq
  exact property_not_mem_of_replaceUsages hnames h₂ he' (heq ▸ hmem)

/-- What a text is converted to, from what its stages give. -/
lemma convert_eq_ok {content t₁ t₂ t : Text} {path : Option Text} {config : Config}
    {index : Option DefaultIndex} {es : List InlineExport} {names : List Text}
    (hglobal : (writeGlobal (importsWritten content path config index)
      (Exports.read content config.experimental).value.global).run.value = .ok t₁)
    (hes : longestFirst (InlineExport.readAll content) = es)
    (hinline : (writeEach t₁ es).run.value = .ok t₂)
    (hnames : usageOrder (Exports.read content config.experimental).value.names = names)
    (huses : names.foldlM replaceUse t₂ = .ok t) :
    (convert content path config index).run.value = .ok t := by
  have hread : (Exports.read content config.experimental).value.inline
      = InlineExport.readAll content := rfl
  rw [value_run_convert, Exports.write, Revision.value_run_bind_of_ok hglobal, hread,
    writeInlines, hes, Revision.value_run_bind_of_ok hinline, replaceUsages, hnames,
    value_run_replaceUses, huses]

/-- **An inline export is exported in the converted text, unless it goes missing**; and no
assignment to its property is left, as long as no exported name is one of the two words in front of
a property. -/
theorem convert_keeps_inline {content t : Text} {path : Option Text} {config : Config}
    {index : Option DefaultIndex} (h : (convert content path config index).run.value = .ok t)
    {e : InlineExport} (he : e ∈ InlineExport.readAll content) :
    (Stands (fun _ => true) (NamedExport e.property) t
        ∨ ∃ t₁, (writeGlobal (importsWritten content path config index)
            (Exports.read content config.experimental).value.global).run.value = .ok t₁
          ∧ Missing t₁ (Exports.read content config.experimental).value e
            (convert content path config index).run.warnings)
      ∧ ((∀ name ∈ (Exports.read content config.experimental).value.names, PlainName name) →
        ∀ e' ∈ InlineExport.readAll t, e'.property ≠ e.property) := by
  have hinline : e ∈ (Exports.read content config.experimental).value.inline := he
  obtain ⟨ws, hrun⟩ := exists_run_convert content path config index
  rw [hrun] at h ⊢
  refine ⟨(exported_of_write h hinline).imp_right ?_, fun hnames e' he' =>
    property_ne_of_write h hnames hinline he'⟩
  rintro ⟨t₁, hglobal, hmissing⟩
  exact ⟨t₁, hglobal, hmissing.mono (List.subset_append_right _ _)⟩

/-- A function that uses another export, and that export. -/
def meteredSource : Text :=
  "exports.f = function () \x7b return exports.ab; \x7d;\nexports.ab = 2;\n".toList

/-- What it is converted to. -/
def meteredResult : Text :=
  "export function f() \x7b return ab; \x7d\nexport const ab = 2;\n".toList

/-- The function and the value, as they are read. -/
def meteredFunction : InlineExport :=
  ⟨"exports.f = ".toList, "exports.f = function () \x7b return exports.ab; \x7d;".toList,
    "f".toList, some 0⟩

/-- The value, as it is read. -/
def meteredValue : InlineExport :=
  ⟨"exports.ab = ".toList, "exports.ab = 2;".toList, "ab".toList, some 48⟩

/-- Both are read from the text. -/
lemma readAll_metered : InlineExport.readAll meteredSource = [meteredFunction, meteredValue] := by
  have hsource : meteredSource = _ := String.toList_ofList
  rw [hsource]
  decide

/-- Both are written, the longer name first. -/
lemma convert_metered : (convert meteredSource none {} none).run.value = .ok meteredResult := by
  -- texts are evaluated with their characters written out: a literal is decoded again at every step
  have hsource : meteredSource = _ := String.toList_ofList
  let written : Text :=
    "export function f() \x7b return exports.ab; \x7d\nexport const ab = 2;\n".toList
  have hwritten : written = _ := String.toList_ofList
  have himports : importsWritten meteredSource none {} none = meteredSource := by
    rw [hsource]
    decide
  have hglobal : (writeGlobal meteredSource
      (Exports.read meteredSource false).value.global).run.value = .ok meteredSource := by
    rw [hsource]
    decide
  have hes : longestFirst (InlineExport.readAll meteredSource)
      = [meteredValue, meteredFunction] := by
    rw [readAll_metered, longestFirst, mergeSort_pair]
    decide
  have hnames : usageOrder (Exports.read meteredSource false).value.names =
      ["ab".toList, "f".toList] := by
    have hread : (Exports.read meteredSource false).value.names.eraseDups =
        ["f".toList, "ab".toList] := by
      rw [hsource]
      decide
    rw [usageOrder, hread, mergeSort_pair]
    decide
  have hinline : (writeEach meteredSource [meteredValue, meteredFunction]).run.value
      = .ok written := by
    rw [hsource, hwritten]
    decide
  have huses : ["ab".toList, "f".toList].foldlM replaceUse written = .ok meteredResult := by
    rw [hwritten]
    decide
  exact convert_eq_ok (himports.symm ▸ hglobal) hes hinline hnames huses

/-- The function of a text with two exports is exported in the end. -/
theorem convert_keeps_inline_metered :
    (convert meteredSource none {} none).run.value = .ok meteredResult
      ∧ meteredFunction ∈ InlineExport.readAll meteredSource
      ∧ (Stands (fun _ => true) (NamedExport "f".toList) meteredResult
          ∨ ∃ t₁, (writeGlobal (importsWritten meteredSource none {} none)
              (Exports.read meteredSource false).value.global).run.value = .ok t₁
            ∧ Missing t₁ (Exports.read meteredSource false).value meteredFunction
              (convert meteredSource none {} none).run.warnings)
      ∧ ((∀ name ∈ (Exports.read meteredSource false).value.names, PlainName name) →
        ∀ e' ∈ InlineExport.readAll meteredResult, e'.property ≠ "f".toList) := by
  have hmem : meteredFunction ∈ InlineExport.readAll meteredSource := by
    rw [readAll_metered]
    exact List.mem_cons_self
  exact ⟨convert_metered, hmem, convert_keeps_inline convert_metered hmem⟩

/-- A function with an import inside. -/
def importingSource : Text :=
  "exports.f = function () \x7b\n  const x = require('x');\n  return x(1);\n\x7d;\n".toList

/-- What it is converted to: the name is not exported, and the assignment to it is gone. -/
def importingResult : Text :=
  "f = function () \x7b\nimport x from 'x';\n  return x(1);\n\x7d;\n".toList

/-- What is read of it. -/
def importingFunction : InlineExport :=
  ⟨"exports.f = ".toList,
    "exports.f = function () \x7b\n  const x = require('x');\n  return x(1);\n\x7d;".toList,
    "f".toList, some 0⟩

/-- The function is read from the text. -/
lemma readAll_importing : InlineExport.readAll importingSource = [importingFunction] := by
  have hsource : importingSource = _ := String.toList_ofList
  rw [hsource]
  decide

/-- The requirement in the function is written, and its statement is not found any more. -/
lemma convert_importing :
    (convert importingSource none {} none).run.value = .ok importingResult := by
  have hsource : importingSource = _ := String.toList_ofList
  let written : Text :=
    "exports.f = function () \x7b\nimport x from 'x';\n  return x(1);\n\x7d;\n".toList
  have hwritten : written = _ := String.toList_ofList
  have hglobal : (writeGlobal (importsWritten importingSource none {} none)
      (Exports.read importingSource false).value.global).run.value = .ok written := by
    rw [hsource, hwritten]
    decide
  have hes : longestFirst (InlineExport.readAll importingSource) = [importingFunction] := by
    rw [readAll_importing, longestFirst, List.mergeSort_singleton]
  have hnames : usageOrder (Exports.read importingSource false).value.names = ["f".toList] := by
    have hread : (Exports.read importingSource false).value.names.eraseDups = ["f".toList] := by
      rw [hsource]
      decide
    rw [usageOrder, hread, List.mergeSort_singleton]
  -- the statement is not found, so its text stays as it is
  have hinline : (writeEach written [importingFunction]).run.value = .ok written := by
    rw [hwritten]
    decide
  have huses : ["f".toList].foldlM replaceUse written = .ok importingResult := by
    rw [hwritten]
    decide
  exact convert_eq_ok hglobal hes hinline hnames huses

/-- Where a name is exported, the word `export` occurs. -/
lemma occursIn_of_stands {start : Option Char → Bool} {name t : Text}
    (h : Stands start (NamedExport name) t) : occursIn "export".toList t = true := by
  obtain ⟨front, u, back, rfl, -, hu⟩ := h
  obtain ⟨rest, rfl⟩ : ∃ rest, u = "export".toList ++ rest := by
    cases hu <;> exact ⟨_, rfl⟩
  exact occursIn_iff.mpr ⟨front, rest ++ back, by rw [List.append_assoc]⟩

/-- **An inline export that is lost**: it is read and the conversion returns, but the result neither
exports the name nor assigns to the property. -/
theorem convert_loses_inline :
    (InlineExport.readAll importingSource).map (·.property) = ["f".toList]
      ∧ (convert importingSource none {} none).run.value = .ok importingResult
      ∧ ¬ Stands (fun _ => true) (NamedExport "f".toList) importingResult
      ∧ InlineExport.readAll importingResult = [] := by
  have hresult : importingResult = _ := String.toList_ofList
  refine ⟨by rw [readAll_importing]; rfl, convert_importing, fun h => ?_, ?_⟩
  · have hword := occursIn_of_stands h
    revert hword
    rw [hresult]
    decide
  · rw [hresult]
    decide

end Esmify
