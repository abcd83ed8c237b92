import Esmify.Convert
import Esmify.Proofs.Members
import Esmify.Proofs.Uses

/-!
# Where inline exports are read

**A statement that sets a property of the exports is a use of that property**
(`use_of_mem_readAll`): behind its indentation stands the property with the exports in front of it.
So when the uses of names have been replaced, no inline export of one of them can be read any more
(`property_not_mem_of_replaceUsages`).

The names whose uses are replaced are proper ones, since they were read as names
(`properName_of_mem_names`). -/

namespace Esmify

open Text Source

/-! ## Statements -/

/-- Behind the start of a statement and its indentation a name can begin. -/
lemma beginsName_of_beginsStatement {before : Option Char} {indent : Text}
    (hbefore : beginsStatement before = true) (hindent : ∀ c ∈ indent, isIndent c = true) :
    beginsName (indent.getLast?.or before) = true := by
  cases hlast : indent.getLast? with
  | none =>
    rw [Option.none_or]
    cases before with
    | none => rfl
    | some c =>
      simp only [beginsStatement, Bool.or_eq_true, beq_iff_eq] at hbefore
      rcases hbefore with rfl | rfl <;> decide
  | some c =>
    have hc := hindent c (List.mem_of_getLast? hlast)
    simp only [isIndent, Bool.or_eq_true, beq_iff_eq] at hc
    rw [Option.some_or]
    rcases hc with rfl | rfl <;> decide

/-- What follows the sign of an assignment. -/
lemma assignSign?_suffix {t rest : Text} (h : assignSign? t = some rest) : rest <:+ t := by
  unfold assignSign? at h
  split at h
  · cases h
  · obtain rfl := Option.some.inj h
    exact List.suffix_cons _ _
  · cases h

/-- **An inline export is a use of its property** behind the indentation of a statement. -/
lemma inlineExport_eq_some {before : Option Char} {t name rest : Text}
    (h : inlineExport before t = some (name, rest)) :
    beginsStatement before = true ∧ ProperName name ∧ ∃ indent w tail,
      (∀ c ∈ indent, isIndent c = true) ∧ UseText name w ∧ t = indent ++ (w ++ tail)
        ∧ outsideName tail.head? = true ∧ rest <:+ tail := by
  unfold inlineExport at h
  split_ifs at h with hbefore
  split at h
  · next found rest' hname =>
    obtain ⟨value, hsign, heq⟩ := Option.map_eq_some_iff.mp h
    obtain ⟨rfl, rfl⟩ := Prod.mk.inj heq
    obtain ⟨named, hwords, hnamed⟩ := Option.bind_eq_some_iff.mp hname
    obtain ⟨hproper, hnamed', hends⟩ := name?_eq_some_iff.mp hnamed
    obtain ⟨w, hw, hskip⟩ := exists_of_exportsWord? hwords found
    obtain ⟨indent, hindent, hsplit, -⟩ := dropWhile_split isIndent t
    refine ⟨hbefore, hproper, indent, _, rest', hindent, hw, ?_, ?_, ?_⟩
    · rw [List.append_assoc, ← hnamed', ← hskip]
      exact hsplit
    · cases rest' with
      | nil => rfl
      | cons c r => simp [outsideName, hends c r rfl]
    · exact ((skipBlanks_suffix _).trans (assignSign?_suffix hsign)).trans (skipBlanks_suffix _)
  · cases h

/-- An inline export is not empty. -/
lemma inlineExport_consumes : Consumes inlineExport := by
  intro before t name rest h
  obtain ⟨-, -, indent, w, tail, -, hw, rfl, -, passed, rfl⟩ := inlineExport_eq_some h
  refine ⟨indent ++ (w ++ passed), ?_, by simp only [List.append_assoc]⟩
  simp [hw.ne_nil]

/-- The property of an inline export is a proper name that is used through the exports. -/
lemma use_of_mem_readAll {t : Text} {e : InlineExport} (h : e ∈ InlineExport.readAll t) :
    ProperName e.property ∧ holdsSomewhere (exportsUse e.property) t = true := by
  obtain ⟨o, ho, rfl⟩ := List.mem_map.mp h
  obtain ⟨front, m, back, hsplit, -, -, -, hmatch⟩ :=
    exists_of_mem_occurrences inlineExport_consumes ho
  obtain ⟨hbefore, hproper, indent, w, tail, hindent, hw, hstatement, hout, -⟩ :=
    inlineExport_eq_some hmatch
  refine ⟨hproper, holdsSomewhere_iff.mpr ⟨front ++ indent, w ++ tail, ?_, ?_⟩⟩
  · rw [hsplit, hstatement, List.append_assoc]
  · have hbegins := beginsName_of_beginsStatement hbefore hindent
    have huse : exportsUse o.value (front ++ indent).getLast? (w ++ tail) = some ((), tail) := by
      refine exportsUse_eq_some_iff.mpr ⟨?_, hout, w, hw, rfl⟩
      rwa [List.getLast?_append]
    exact Option.isSome_iff_exists.mpr ⟨_, huse⟩

/-! ## Names -/

/-- A property is exported under a proper name. -/
lemma properName_exposedName {property : Text} (h : ProperProperty property) :
    ProperName (exposedName property) := by
  have hcolon : isNameChar ':' = false := by decide
  unfold exposedName
  rcases partition_cases ':' property with ⟨hno, hpart⟩ | ⟨l, r, hl, hsplit, hpart⟩
  · rw [hpart]
    rcases h with hname | ⟨key, value, -, -, -, rfl⟩
    · exact hname
    · exact absurd (by simp) hno
  · rw [hpart]
    rcases h with hname | ⟨key, value, hkey, -, -, rfl⟩
    · exact absurd (by simp [hsplit]) (hname.not_mem hcolon)
    · obtain ⟨rfl, -⟩ := append_cons_inj_left (hkey.not_mem hcolon) hl hsplit
      exact hkey

/-- **The names whose uses are replaced are proper names.** -/
lemma properName_of_mem_names {content : Text} {experimental : Bool} {name : Text}
    (h : name ∈ (Exports.read content experimental).value.names) : ProperName name := by
  rcases List.mem_append.mp h with h | h
  · obtain ⟨e, he, rfl⟩ := List.mem_map.mp h
    exact (use_of_mem_readAll he).1
  · obtain ⟨property, hproperty, rfl⟩ := List.mem_map.mp h
    exact properName_exposedName ((read_proper content experimental).properties property hproperty)

/-- **No inline export of a replaced name is left.** -/
lemma property_not_mem_of_replaceUsages {content t : Text} {names : List Text}
    (hnames : ∀ name ∈ names, PlainName name) (h : (replaceUsages content names).run.value = .ok t)
    {e : InlineExport} (he : e ∈ InlineExport.readAll t) : e.property ∉ names := by
  intro hmem
  obtain ⟨-, huse⟩ := use_of_mem_readAll he
  rw [replaceUsages, value_run_replaceUses] at h
  have hnowhere := nowhere_of_replaceUses (fun name hname => hnames name
      (mem_usageOrder.mp hname)) h
    (mem_usageOrder.mpr hmem)
  rw [hnowhere.holdsSomewhere] at huse
  exact absurd huse (by decide)

end Esmify
