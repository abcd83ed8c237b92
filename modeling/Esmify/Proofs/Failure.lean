import Esmify.Proofs.GlobalFault
import Esmify.Proofs.ImportPass
import Esmify.Proofs.InlinePass
import Esmify.Proofs.InlineSource

/-!
# When a conversion fails

A conversion writes the imports, then the global exports, then the inline ones, and in the end
replaces the uses of exported names. The first and the last of these always succeed. **A conversion
returns a text unless it jams in one of the other two** (`convert_returns_iff`): a declaration
or import of an exported name lies inside the statement that is to go away, or marking a declaration
takes an import away that is still needed. -/

namespace Esmify

open Text Source

/-! ## Uses -/

/-- **Replacing the uses of proper names always succeeds.** -/
lemma exists_replaceUsages {names : List Text} (hnames : ∀ name ∈ names, ProperName name)
    (t : Text) :
    ∃ t', (replaceUsages t names).run.value = .ok t' := by
  have hall : ∀ ns : List Text, (∀ name ∈ ns, ProperName name) → ∀ t : Text,
      ∃ t', ns.foldlM replaceUse t = .ok t' := by
    intro ns hns
    induction ns with
    | nil => exact fun t => ⟨t, rfl⟩
    | cons name ns ih =>
      intro t
      obtain ⟨hname, hns⟩ := List.forall_mem_cons.mp hns
      rw [List.foldlM_cons, replaceUse_eq hname, ok_bind]
      exact ih hns _
  rw [replaceUsages, value_run_replaceUses]
  exact hall _ (fun name hname => hnames name (mem_usageOrder.mp hname)) t

/-! ## The stages of a conversion -/

/-- The text with imports in place of its requirements. -/
def importsWritten (content : Text) (path : Option Text) (config : Config)
    (index : Option DefaultIndex) : Text :=
  weave content 0
    ((Requirement.readAll content).value.map (importEdit config (knownDefault index path)))

/-- **The exports are written into the text that the imports leave**; what is reported then comes
last. -/
lemma exists_run_convert (content : Text) (path : Option Text) (config : Config)
    (index : Option DefaultIndex) :
    ∃ ws, (convert content path config index).run =
      ⟨(Exports.write (importsWritten content path config index)
          (Exports.read content config.experimental).value).run.value,
        ws ++ (Exports.write (importsWritten content path config index)
          (Exports.read content config.experimental).value).run.warnings⟩ := by
  have himports : (convertImports content path config index
      (Requirement.readAll content).value).run =
      ⟨.ok (importsWritten content path config index), _⟩ :=
    run_writeImports (Requirement.standing_readAll content) Requirement.properBinding_readLines
  unfold convert
  rw [Revision.run_bind_of_ok (Revision.run_ofReported _),
    Revision.run_bind_of_ok (Revision.run_ofReported _)]
  split_ifs with hnothing
  · -- nothing was read, so nothing is written
    rw [Bool.and_eq_true, List.isEmpty_iff] at hnothing
    rw [run_write_of_isEmpty hnothing.2, importsWritten, hnothing.1]
    exact ⟨_, by rw [← List.append_assoc]; rfl⟩
  · rw [Revision.run_bind_of_ok himports]
    exact ⟨_, by rw [← List.append_assoc, ← List.append_assoc]⟩

/-- A conversion gives what the writing of the exports gives. -/
lemma value_run_convert (content : Text) (path : Option Text) (config : Config)
    (index : Option DefaultIndex) :
    (convert content path config index).run.value =
      (Exports.write (importsWritten content path config index)
        (Exports.read content config.experimental).value).run.value := by
  obtain ⟨ws, hrun⟩ := exists_run_convert content path config index
  rw [hrun]

/-! ## Conversions that fail -/

/-- **Why a text cannot be converted.** -/
inductive Jam (content : Text) (path : Option Text) (config : Config)
    (index : Option DefaultIndex) :
    Fault → Prop
  /-- The global exports jam in the text that the imports leave. -/
  | ofGlobal {f : Fault} :
    GlobalJam (importsWritten content path config index)
      (Exports.read content config.experimental).value.global f →
    Jam content path config index f
  /-- An inline export clashes in the text that those before it leave. -/
  | ofInline {done left : List InlineExport} {e : InlineExport} {t mid : Text} {p q : Nat} :
    (writeGlobal (importsWritten content path config index)
      (Exports.read content config.experimental).value.global).run.value = .ok t →
    longestFirst (Exports.read content config.experimental).value.inline = done ++ e :: left →
    inlinePass.run t done = some mid → Clash mid e p q →
    Jam content path config index (.overlappingEdit p q)

/-- Inline exports cannot be written exactly where one of them clashes. -/
lemma writeInlines_eq_error_iff {t : Text} {es : List InlineExport} {f : Fault} :
    (writeInlines t es).run.value = .error f ↔ ∃ done e left mid p q,
      longestFirst es = done ++ e :: left ∧ inlinePass.run t done = some mid ∧ Clash mid e p q
        ∧ f = .overlappingEdit p q := by
  rw [writeInlines, value_run_writeEach, Pass.foldlM_eq_error_iff (p := inlinePass) fun _ _ => rfl]
  constructor
  · rintro ⟨done, e, left, mid, hsplit, hrun, herror⟩
    obtain ⟨p, q, hclash, rfl⟩ := writeInline_eq_error_iff.mp herror
    exact ⟨done, e, left, mid, p, q, hsplit, hrun, hclash, rfl⟩
  · rintro ⟨done, e, left, mid, p, q, hsplit, hrun, hclash, rfl⟩
    exact ⟨done, e, left, mid, hsplit, hrun, writeInline_eq_error_iff.mpr ⟨p, q, hclash, rfl⟩⟩

/-- A conversion fails exactly where it jams. -/
lemma convert_eq_error_iff {content : Text} {path : Option Text} {config : Config}
    {index : Option DefaultIndex} {f : Fault} :
    (convert content path config index).run.value = .error f ↔ Jam content path config index f := by
  have husages : ∀ t, (replaceUsages t
      (Exports.read content config.experimental).value.names).run.value ≠ .error f := by
    intro t herror
    obtain ⟨t', ht'⟩ := exists_replaceUsages (fun name hname => properName_of_mem_names hname) t
    rw [ht'] at herror
    cases herror
  rw [value_run_convert, Exports.write, Revision.value_run_bind_eq_error_iff,
    writeGlobal_eq_error_iff]
  simp only [Revision.value_run_bind_eq_error_iff, writeInlines_eq_error_iff, husages, and_false,
    exists_false, or_false]
  constructor
  · rintro (hjam | ⟨t, hglobal, done, e, left, mid, p, q, hsplit, hrun, hclash, rfl⟩)
    · exact .ofGlobal hjam
    · exact .ofInline hglobal hsplit hrun hclash
  · rintro (hjam | ⟨hglobal, hsplit, hrun, hclash⟩)
    · exact Or.inl hjam
    · exact Or.inr ⟨_, hglobal, _, _, _, _, _, _, hsplit, hrun, hclash, rfl⟩

/-- **A conversion returns a text unless it jams**, and where it jams it fails for that reason. -/
theorem convert_returns_iff (content : Text) (path : Option Text) (config : Config)
    (index : Option DefaultIndex) :
    ((∃ t, (convert content path config index).run.value = .ok t) ↔
        ∀ f, ¬ Jam content path config index f)
      ∧ ∀ f, (convert content path config index).run.value = .error f ↔
        Jam content path config index f := by
  refine ⟨⟨?_, fun hnone => ?_⟩, fun f => convert_eq_error_iff⟩
  · rintro ⟨t, ht⟩ f hjam
    rw [convert_eq_error_iff.mpr hjam] at ht
    cases ht
  · cases hvalue : (convert content path config index).run.value with
    | ok t => exact ⟨t, rfl⟩
    | error f => exact absurd (convert_eq_error_iff.mp hvalue) (hnone f)

/-- An inline export whose name is declared again at the start of a line of its value. -/
def shadowedValue : Text :=
  "exports.a = (() => \x7b\nconst a = 1;\nreturn a;\n\x7d)();\n".toList

/-- What is read of it. -/
def shadowedExport : InlineExport :=
  ⟨"exports.a = ".toList, "exports.a = (() => \x7b\nconst a = 1;\nreturn a;\n\x7d)();".toList,
    "a".toList, some 0⟩

/-- The name of the value is declared inside the statement. -/
lemma clash_shadowed : Clash shadowedValue shadowedExport 0 50 := by
  have hvalue : shadowedValue = _ := String.toList_ofList
  rw [hvalue]
  exact
    { found := by decide
      stop := by decide
      noFunction := by decide
      inside := ⟨21, by decide, by decide, by decide⟩ }

/-- **Conversions that fail**, each for another reason: an inline export whose name is declared in
its value, an object with a member whose name is declared in a comment between its braces, alone and
beside a member with a value, and a default export that is declared so. -/
theorem convert_fails_inside :
    (convert shadowedValue none {} none).run.value = .error (.overlappingEdit 0 50)
      ∧ (convert "module.exports = \x7b\n/*\nconst a = 1\n*/\na\n\x7d\n".toList none {}
        none).run.value =
        .error (.missingBlock "module.exports = \x7b\n/*\nconst a = 1\n*/\na\n\x7d\n".toList)
      ∧ (convert "module.exports = \x7b\n/*\nconst a = 1\n*/\na, b: 2\n\x7d\n".toList none {}
        none).run.value =
        .error (.missingPattern
          "module.exports = \x7b\n/*\nconst a = 1\n*/\na, b: 2\n\x7d\n".toList)
      ∧ (convert "module.exports = /*\nfunction X(\n*/ X;".toList none {} none).run.value =
        .error (.missingBlock "module.exports = /*\nfunction X(\n*/ X;".toList) := by
  refine ⟨?_,
    of_chars (P := fun t => (convert t none {} none).run.value = .error (.missingBlock t))
      (by decide +kernel),
    of_chars (P := fun t => (convert t none {} none).run.value = .error (.missingPattern t))
      (by decide +kernel),
    of_chars (P := fun t => (convert t none {} none).run.value = .error (.missingBlock t))
      (by decide +kernel)⟩
  have hvalue : shadowedValue = _ := String.toList_ofList
  have himports : importsWritten shadowedValue none {} none = shadowedValue := by
    rw [hvalue]
    decide
  have hinline : (Exports.read shadowedValue false).value.inline = [shadowedExport] := by
    rw [hvalue]
    decide
  have hglobal : (writeGlobal shadowedValue
      (Exports.read shadowedValue false).value.global).run.value = .ok shadowedValue := by
    rw [hvalue]
    decide
  have hsplit : longestFirst (Exports.read shadowedValue false).value.inline =
      [] ++ shadowedExport :: [] := by
    rw [hinline, longestFirst, List.mergeSort_singleton]
    rfl
  rw [convert_eq_error_iff]
  exact .ofInline (himports.symm ▸ hglobal) hsplit rfl clash_shadowed

end Esmify
