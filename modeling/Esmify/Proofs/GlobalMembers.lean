import Esmify.Proofs.GlobalPass
import Esmify.Proofs.GlobalSource

/-!
# What becomes of the members of an exported object

Writing the global exports deletes their statement, so each member has to be exported elsewhere or
reported. **Every member is accounted for** (`writeGlobal_accounts`): from its turn on, the export
of a member stands at the start of a line to the end of the run, unless a later action of the run
cuts into it.

Two things are lost without a report. A name that is exported by what looks like an export inside
the statement counts as exported and goes away together with the statement; and the keys of an
object are not exported when the object itself is (`writeGlobal_silent`). -/

namespace Esmify

open Text Source

/-- An object with members is written as such where its statement occurs. -/
lemma run_writeGlobal_of_members {content raw : Text} {e : GlobalExports} (hne : raw ≠ [])
    (hraw : e.raw = some raw) (hdirect : e.direct = none) (hoccurs : occursIn raw content = true) :
    (writeGlobal content e).run = (writeMembers content raw e).run := by
  obtain ⟨c, cs, rfl⟩ := List.exists_cons_of_ne_nil hne
  unfold writeGlobal
  simp only [hraw, hdirect, Option.getD_some, Option.getD_none, hoccurs, if_true]

/-- A name that is exported at some point of a run is exported at its end, or the export is cut. -/
lemma exported_of_passes {raw content t name : Text} {actions : List GlobalAction}
    (hname : ProperName name) (hrun : (globalPass raw).run content actions = some t)
    (h : (globalPass raw).Passes (fun mid => isExported mid name = true) content actions) :
    isExported t name = true
      ∨ (globalPass raw).Cut beginsLine (ExportText name) content actions := by
  obtain ⟨done, left, mid, hsplit, hdone, hexported⟩ := h
  rw [isExported_iff] at hexported ⊢
  exact Pass.Passes.written (globalPass_keeps raw (lasting_exportText hname))
    ⟨done, left, mid, hsplit, hdone, hexported⟩ hrun

/-- **Every member is accounted for** in the text that is left when the statement of an exported
object is gone. A bare property is reported or exported; so is an object whose keys are exported,
unless the module it stands for is re-exported as a whole; and the statement of any other member
stands in the text. The exceptions are an export that a later action of the run cuts into, and an
imported name between braces that are not plain. -/
theorem writeGlobal_accounts {source content raw t : Text} {experimental : Bool} {g : GlobalExports}
    {ws : List Warning} (hg : (GlobalExports.read source experimental).value = g)
    (hraw : g.raw = some raw) (hdirect : g.direct = none) (hoccurs : occursIn raw content = true)
    (h : (writeGlobal content g).run = ⟨.ok t, ws⟩) :
    (∀ name ∈ g.bare, .undeclared name ∈ ws ∨ isExported t name = true
      ∨ (globalPass raw).Cut beginsLine (ExportText name) content (globalActions content raw g)
      ∨ (globalPass raw).Passes (OddlyImported name) content (globalActions content raw g))
    ∧ (∀ a ∈ renamedAssignments g.properties ++ g.assignments,
      Stands beginsLine (fun u _ => u = a.render) t
      ∨ (globalPass raw).Cut beginsLine (fun u _ => u = a.render) content
          (globalActions content raw g))
    ∧ ∀ name ∈ g.keySets, .localKeySet name ∈ ws ∨ .undeclared name ∈ ws ∨ isExported t name = true
      ∨ (globalPass raw).Cut beginsLine (ExportText name) content (globalActions content raw g)
      ∨ ∃ s, (globalPass raw).Passes (fun mid => importOf? mid name = some s) content
            (globalActions content raw g)
          ∧ (Stands beginsLine (fun u _ => u = s.wildcard) t
            ∨ (globalPass raw).Cut beginsLine (fun u _ => u = s.wildcard) content
                (globalActions content raw g)) := by
  have hproper : g.Proper := hg ▸ read_proper source experimental
  have hne : raw ≠ [] := raw_ne_nil (hg.symm ▸ hraw) (hg.symm ▸ hdirect)
  rw [run_writeGlobal_of_members hne hraw hdirect hoccurs] at h
  have hvalue : (writeMembers content raw g).run.value = .ok t := by rw [h]
  have hturns := writeMembers_turns hproper hvalue
  rw [h] at hturns
  refine ⟨fun name hname => ?_, fun a ha => ?_, fun name hname => ?_⟩
  · obtain ⟨hmem, hbare⟩ := List.mem_filter.mp hname
    have hproperName : ProperName name := by
      rcases renamedFrom?_cases (hproper.properties name hmem) with ⟨hname', -⟩ | ⟨value, -, hsome⟩
      · exact hname'
      · rw [hsome] at hbare
        exact absurd hbare (by simp)
    rcases hturns.properties name hname with hreported
      | ⟨done, left, mid, hsplit, hdone, hexported | hodd⟩
    · exact Or.inl hreported
    · have haccount := exported_of_passes hproperName hturns.run ⟨done, left, mid, hsplit,
          hdone, hexported⟩
      exact Or.inr (haccount.imp_right Or.inl)
    · exact Or.inr (Or.inr (Or.inr ⟨done, left, mid, hsplit, hdone, hodd⟩))
  · obtain ⟨hsolid, hpasses⟩ := hturns.statements a ha
    exact hpasses.written (globalPass_keeps raw (lasting_eq hsolid)) hturns.run
  · rcases hturns.keySets name hname with hlocal | hundeclared | hpasses | ⟨s, himport, hpasses⟩
    · exact Or.inl hlocal
    · exact Or.inr (Or.inl hundeclared)
    · have haccount := exported_of_passes (hproper.keySets name hname) hturns.run hpasses
      exact Or.inr (Or.inr (haccount.imp_right Or.inl))
    · refine Or.inr (Or.inr (Or.inr (Or.inr ⟨s, himport, ?_⟩)))
      exact hpasses.written (globalPass_keeps raw (lasting_eq (solid_wildcard s))) hturns.run

/-- The statement of an object with members of every kind. -/
def mixedStatement : Text :=
  "module.exports = \x7b a, b: c, ...lib, d: 1 \x7d;\n".toList

/-- A text that exports the object. -/
def mixedObject : Text :=
  "import * as lib from 'x';\nconst a = 1;\n".toList ++ mixedStatement

/-- What is read of it: a name, an alias, a key set and an assignment. -/
def mixedExports : GlobalExports where
  raw := some mixedStatement
  properties := ["a".toList, "b:c".toList]
  keySets := ["lib".toList]
  assignments := [⟨"d".toList, "1".toList, none⟩]
  start := some 39

/-- What is left in the end. -/
def mixedResult : Text :=
  "export * from 'x';\nexport const a = 1;\n\nexport const b = c;\n\nexport const d = 1;\n".toList

/-- **No member of the object is lost**: the name is exported at its declaration, the alias and the
assignment as constants, and the module of the key set as a whole. -/
theorem writeGlobal_accounts_mixed :
    (GlobalExports.read mixedObject false).value = mixedExports
      ∧ occursIn mixedStatement mixedObject = true
      ∧ (writeGlobal mixedObject mixedExports).run = ⟨.ok mixedResult, []⟩
      ∧ (mixedExports.bare = ["a".toList] ∧ isExported mixedResult "a".toList = true)
      ∧ ((renamedAssignments mixedExports.properties
          ++ mixedExports.assignments).map Assignment.render
            = ["export const b = c;".toList, "export const d = 1;".toList]
        ∧ Stands beginsLine (fun u _ => u = "export const b = c;".toList) mixedResult
        ∧ Stands beginsLine (fun u _ => u = "export const d = 1;".toList) mixedResult)
      ∧ (mixedExports.keySets = ["lib".toList]
        ∧ (importOf? mixedObject "lib".toList).map ImportStatement.wildcard
          = some "export * from 'x';".toList
        ∧ Stands beginsLine (fun u _ => u = "export * from 'x';".toList) mixedResult)
      ∧ (∀ name ∈ mixedExports.bare, .undeclared name ∈ ([] : List Warning)
        ∨ isExported mixedResult name = true
        ∨ (globalPass mixedStatement).Cut beginsLine (ExportText name) mixedObject
            (globalActions mixedObject mixedStatement mixedExports)
        ∨ (globalPass mixedStatement).Passes (OddlyImported name) mixedObject
            (globalActions mixedObject mixedStatement mixedExports))
      ∧ ∀ a ∈ renamedAssignments mixedExports.properties ++ mixedExports.assignments,
        Stands beginsLine (fun u _ => u = a.render) mixedResult
        ∨ (globalPass mixedStatement).Cut beginsLine (fun u _ => u = a.render) mixedObject
            (globalActions mixedObject mixedStatement mixedExports) := by
  have hsource : mixedObject = _ :=
    congrArg₂ (· ++ ·) String.toList_ofList String.toList_ofList
  have hread : (GlobalExports.read mixedObject false).value = mixedExports := by
    rw [hsource]
    decide
  have hoccurs : occursIn mixedStatement mixedObject = true := by
    rw [hsource]
    decide
  have hwritten : (writeGlobal mixedObject mixedExports).run.value.toOption = some mixedResult
      ∧ (writeGlobal mixedObject mixedExports).run.warnings = [] := by
    rw [hsource]
    decide +kernel
  have hrun := Reported.eq_of_toOption hwritten.1 hwritten.2
  have haccount := writeGlobal_accounts hread rfl rfl hoccurs hrun
  refine ⟨hread, hoccurs, hrun, by decide, ⟨by decide, ?_, ?_⟩,
    ⟨rfl, by rw [hsource]; decide, ?_⟩, haccount.1, haccount.2.1⟩
  · exact ⟨"export * from 'x';\nexport const a = 1;\n\n".toList, _,
      "\n\nexport const d = 1;\n".toList, by decide, by decide, rfl⟩
  · exact ⟨"export * from 'x';\nexport const a = 1;\n\nexport const b = c;\n\n".toList, _,
      "\n".toList, by decide, by decide, rfl⟩
  · exact ⟨[], _, "\nexport const a = 1;\n\nexport const b = c;\n\nexport const d = 1;\n".toList,
      by decide, by decide, rfl⟩

/-- A text with an exported name whose only export is a comment inside the exported object. -/
def commentedExport : Text :=
  "module.exports = \x7b\n/*\nexport const a = 1\n*/\na\n\x7d\n".toList

/-- A text that exports a module both under a name and by its keys. -/
def nameAndKeys : Text :=
  "import * as lib from 'x';\nmodule.exports = \x7b lib, ...lib \x7d;\n".toList

/-- **Members can be lost without a report**: a name that only a comment inside the statement seems
to export, and the keys of a module that is exported under a name as well. -/
theorem writeGlobal_silent :
    ((GlobalExports.read commentedExport false).value.properties = ["a".toList]
      ∧ (writeGlobal commentedExport
          (GlobalExports.read commentedExport false).value).run.warnings = []
      ∧ (writeGlobal commentedExport
          (GlobalExports.read commentedExport false).value).run.value.toOption = some [])
    ∧ (GlobalExports.read nameAndKeys false).value.keySets = ["lib".toList]
      ∧ (writeGlobal nameAndKeys (GlobalExports.read nameAndKeys false).value).run.warnings = []
      ∧ (writeGlobal nameAndKeys (GlobalExports.read nameAndKeys false).value).run.value.toOption =
          some "export * as lib from 'x';\n".toList := by
  have hcomment : commentedExport = _ := String.toList_ofList
  have hkeys : nameAndKeys = _ := String.toList_ofList
  rw [hcomment, hkeys]
  refine ⟨⟨?_, ?_, ?_⟩, ?_, ?_, ?_⟩
  all_goals decide +kernel

end Esmify
