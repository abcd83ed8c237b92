import Esmify.Proofs.Promotion
import Esmify.Proofs.Rendered

/-!
# The pass over the members of an exported object

Writing the members of an exported object is a run of actions, given in advance by the members
(`globalActions`): paragraphs for the properties under another name, the bare properties one by one,
their re-export, the objects whose keys are exported, paragraphs for the members with a value, and
at last the old statement is dropped. **The run gives the text that is written**, and every member
has its turn in it (`writeMembers_turns`). What stands at the start of a line is kept by every
action that does not work on it (`globalPass_keeps`). -/

namespace Esmify

open Text Source

/-! ## Actions -/

/-- What the pass does to a text, one thing at a time. -/
inductive GlobalAction
  /-- A member with a statement of its own. -/
  | paragraph (a : Assignment)
  /-- A bare property, where it is declared. -/
  | property (name : Text)
  /-- The bare properties that are imported. -/
  | reexport (names : List Text)
  /-- An object whose keys are exported. -/
  | keySet (name : Text)
  /-- The old statement goes away. -/
  | drop

/-- The text with the names re-exported by the import statements that bind them. -/
def reexported (content raw : Text) (names : List Text) : Except Fault Text :=
  match importBindings content names with
  | .ok bound =>
    applyEdits content ((byStatement bound).map fun g => (reexportEdit content raw g.1 g.2).1)
  | .error e => .error e

/-- The import statements that bind names. -/
def bindingSpans (content : Text) (names : List Text) : List (Nat × Nat) :=
  match importBindings content names with
  | .ok bound => ((byStatement bound).map Prod.fst).map fun s => (s.start, s.stop)
  | .error _ => []

/-- The pass that replaces the statement `raw`. -/
def globalPass (raw : Text) : Pass GlobalAction where
  act
    | .paragraph a, t => (insertParagraphBefore t raw a.render).toOption
    | .property name, t =>
      some (((declaration? t name).map fun d => t.insertAt d.start "export ".toList).getD t)
    | .reexport names, t => (reexported t raw names).toOption
    | .keySet name, t => some (promoteKeySet t raw name).value
    | .drop, t => (dropBlock t raw).toOption
  spans
    | .paragraph _, t => spansOf t raw
    | .property name, t => markSpans t name
    | .reexport names, t => bindingSpans t names
    | .keySet name, t => keySetSpans t name
    | .drop, t => spansOf t raw

/-- The bare properties of exported members. -/
def GlobalExports.bare (e : GlobalExports) : List Text :=
  e.properties.filter fun p => (renamedFrom? p).isNone

/-- The actions that write members, in order; which of the bare properties are re-exported is known
when all of them have been looked up. -/
def globalActions (content raw : Text) (e : GlobalExports) : List GlobalAction :=
  let renamed := (renamedAssignments e.properties).map .paragraph
  let opened := ((globalPass raw).run content renamed).getD content
  renamed ++ (e.bare.map .property ++ [.reexport (promoteDeclared opened e.bare).value.2]
    ++ (e.keySets.map .keySet ++ (e.assignments.map .paragraph ++ [.drop])))

/-! ## What an action keeps -/

/-- A result that is there is one without a fault. -/
lemma exists_of_toOption {α : Type} {x : Except Fault α} {a : α} (h : x.toOption = some a) :
    x = .ok a := by
  cases x with
  | error e => exact absurd h (by simp [Except.toOption])
  | ok b => exact congrArg _ (Option.some.inj h)

/-- An action is a step of the pass, or leaves the text alone. -/
lemma step_of_act {raw t t' : Text} {a : GlobalAction} (h : (globalPass raw).act a t = some t') :
    t' = t ∨ Step raw t ((globalPass raw).spans a t) t' := by
  have hspans : ∀ {i}, indexOf? raw t = some i → spansOf t raw = [(i, i + raw.length)] := by
    intro i hi
    rw [spansOf, hi]
  cases a with
  | paragraph a =>
    have hok := exists_of_toOption h
    cases hi : indexOf? raw t with
    | none => simp [insertParagraphBefore, hi] at hok
    | some i =>
      right
      show Step raw t (spansOf t raw) t'
      rw [hspans hi]
      exact .paragraph hi hok
  | property name =>
    have hvalue := Option.some.inj h
    cases hd : declaration? t name with
    | none =>
      rw [hd] at hvalue
      exact Or.inl hvalue.symm
    | some d =>
      rw [hd] at hvalue
      right
      show Step raw t (markSpans t name) t'
      rw [markSpans, hd, ← hvalue]
      exact .mark hd
  | reexport names =>
    have hok := exists_of_toOption h
    right
    show Step raw t (bindingSpans t names) t'
    unfold reexported at hok
    unfold bindingSpans
    cases hbound : importBindings t names with
    | error e => simp [hbound] at hok
    | ok bound =>
      simp only [hbound] at hok ⊢
      exact (exported_of_reexport hbound hok).1
  | keySet name =>
    obtain rfl := Option.some.inj h
    exact (promoteKeySet_turn t raw name).1
  | drop =>
    have hok := exists_of_toOption h
    cases hi : indexOf? raw t with
    | none => simp [dropBlock, hi] at hok
    | some i =>
      right
      show Step raw t (spansOf t raw) t'
      rw [hspans hi]
      exact .drop hi hok

/-- **Every action keeps lasting texts at the start of a line.** -/
lemma globalPass_keeps (raw : Text) {P : Text → Option Char → Prop} (hP : Lasting P) :
    (globalPass raw).Keeps beginsLine P := by
  intro a t t' front u back hact ht hbegins hu
  rcases step_of_act hact with rfl | hstep
  · exact Or.inr ⟨front, back, ht, hbegins, hu⟩
  · refine (hstep.keeps (hP.solid hu) hbegins ht).imp_right ?_
    rintro ⟨front', back', ht', haround⟩
    exact ⟨front', back', ht', haround.begins, hP.next hu haround.ends⟩

/-! ## Parts of the run -/

/-- Paragraphs, each of which stands when it has been put in. -/
lemma run_paragraphs {raw content t : Text} {members : List Assignment}
    (hsolid : ∀ a ∈ members, Solid a.render) (h : insertAssignments raw content members = .ok t) :
    (globalPass raw).run content (members.map .paragraph) = some t
      ∧ ∀ a ∈ members, (globalPass raw).Passes (Stands beginsLine fun u _ => u = a.render) content
        (members.map .paragraph) := by
  induction members generalizing content with
  | nil =>
    simp only [insertAssignments, Except.ok.injEq] at h
    exact ⟨congrArg some h, by simp⟩
  | cons a members ih =>
    obtain ⟨hfirst, hsolid⟩ := List.forall_mem_cons.mp hsolid
    rw [insertAssignments] at h
    cases hinsert : insertParagraphBefore content raw a.render with
    | error e => simp [hinsert] at h
    | ok content' =>
      simp only [hinsert] at h
      obtain ⟨hrun, hturns⟩ := ih hsolid h
      have hact : (globalPass raw).act (.paragraph a) content = some content' := by
        show (insertParagraphBefore content raw a.render).toOption = some content'
        rw [hinsert]
        rfl
      have hone : (globalPass raw).run content [.paragraph a] = some content' := Pass.run_cons hact
      refine ⟨(Pass.run_cons hact).trans hrun, List.forall_mem_cons.mpr ⟨?_, fun b hb => ?_⟩⟩
      · exact (Pass.passes_of_run hone (insertParagraphBefore_turn hfirst hinsert)).append _
      · exact Pass.Passes.behind hone (hturns b hb)

/-- The bare properties: each of them is marked, or imported, or exported already, or reported. -/
lemma run_properties (raw content : Text) (names : List Text) :
    (globalPass raw).run content (names.map .property)
      = some (promoteDeclared content names).value.1
      ∧ ∀ name ∈ names, .undeclared name ∈ (promoteDeclared content names).warnings
        ∨ name ∈ (promoteDeclared content names).value.2
        ∨ (globalPass raw).Passes (fun mid => isExported mid name = true) content
          (names.map .property) := by
  induction names generalizing content with
  | nil => exact ⟨rfl, by simp⟩
  | cons name names ih =>
    have hact : (globalPass raw).act (.property name) content =
        some (((declaration? content name).map fun d =>
          content.insertAt d.start "export ".toList).getD content) := rfl
    rw [promoteDeclared]
    cases hd : declaration? content name with
    | some d =>
      rw [hd] at hact
      have hone : (globalPass raw).run content [.property name] =
          some (content.insertAt d.start "export ".toList) := Pass.run_cons hact
      obtain ⟨hrun, hturns⟩ := ih (content.insertAt d.start "export ".toList)
      refine ⟨(Pass.run_cons hact).trans hrun,
        List.forall_mem_cons.mpr ⟨?_, fun other hother => ?_⟩⟩
      · exact Or.inr (Or.inr ((Pass.passes_of_run hone (isExported_mark hd)).append _))
      · exact (hturns other hother).imp_right fun h => h.imp_right (Pass.Passes.behind hone)
    | none =>
      rw [hd] at hact
      have hone : (globalPass raw).run content [.property name] = some content := Pass.run_cons hact
      obtain ⟨hrun, hturns⟩ := ih content
      have hrun' := (Pass.run_cons hact).trans hrun
      dsimp only
      split_ifs with himport hexported
      · refine ⟨hrun', List.forall_mem_cons.mpr ⟨Or.inr (Or.inl List.mem_cons_self), ?_⟩⟩
        intro other hother
        rcases hturns other hother with h | h | h
        · exact Or.inl (by simpa using h)
        · exact Or.inr (Or.inl (List.mem_cons_of_mem _ h))
        · exact Or.inr (Or.inr (Pass.Passes.behind hone h))
      · refine ⟨hrun', List.forall_mem_cons.mpr ⟨Or.inl List.mem_cons_self, fun other hother => ?_⟩⟩
        exact (hturns other hother).imp (List.mem_cons_of_mem _) fun h =>
          h.imp_right (Pass.Passes.behind hone)
      · refine ⟨hrun', List.forall_mem_cons.mpr ⟨?_, fun other hother => ?_⟩⟩
        · have hnow : isExported content name = true := by simpa using hexported
          exact Or.inr (Or.inr ((Pass.passes_of_run hone hnow).append _))
        · exact (hturns other hother).imp_right fun h => h.imp_right (Pass.Passes.behind hone)

/-- Where no name is left to the imports, marking declarations is all that is done. -/
lemma run_promoteProperties_of_declared {content t : Text} {names : List Text}
    (h : promoteDeclared content names = ⟨(t, []), []⟩) (raw : Text) :
    (promoteProperties content raw names).run = ⟨.ok t, []⟩ := by
  have hbound : (Revision.ofExcept (importBindings t [])).run = ⟨.ok [], []⟩ := rfl
  have hedits : (reexportEdits t raw (byStatement [])).run = ⟨.ok [], []⟩ := by
    rw [byStatement, List.map_nil, List.eraseDups_nil]
    rfl
  unfold promoteProperties
  rw [Revision.run_bind_of_ok (Revision.run_ofReported _), h]
  dsimp only
  rw [Revision.run_bind_of_ok hbound, Revision.run_bind_of_ok hedits, applyEdits_nil]
  rfl

/-- A name that is imported between braces that are not plain. -/
def OddlyImported (name : Text) (t : Text) : Prop :=
  ∃ s, importOf? t name = some s ∧ ¬ s.PlainBraces

/-- The bare properties and their re-export: each of them is reported, or at some point exported, or
oddly imported. -/
lemma run_promoteProperties {content raw t : Text} {names : List Text}
    (h : (promoteProperties content raw names).run.value = .ok t) :
    (globalPass raw).run content
        (names.map .property ++ [.reexport (promoteDeclared content names).value.2]) = some t
      ∧ ∀ name ∈ names, .undeclared name ∈ (promoteProperties content raw names).run.warnings
        ∨ (globalPass raw).Passes (fun mid => isExported mid name = true ∨ OddlyImported name mid)
          content (names.map .property ++ [.reexport (promoteDeclared content names).value.2]) := by
  obtain ⟨r, hr, h₁, hwarnings⟩ := Revision.exists_of_run_bind h
  rw [Revision.run_ofReported, Except.ok.injEq] at hr
  subst hr
  obtain ⟨bound, hbound, h₂, -⟩ := Revision.exists_of_run_bind h₁
  obtain ⟨edits, hedits, h₃, -⟩ := Revision.exists_of_run_bind h₂
  rw [value_run_reexportEdits, Except.ok.injEq] at hedits
  subst hedits
  obtain ⟨hrun, hturns⟩ := run_properties raw content names
  obtain ⟨-, hexported⟩ := exported_of_reexport hbound h₃
  have hact : (globalPass raw).act (.reexport (promoteDeclared content names).value.2)
      (promoteDeclared content names).value.1 = some t := by
    show (reexported _ raw _).toOption = some t
    have hbound' : importBindings (promoteDeclared content names).value.1
        (promoteDeclared content names).value.2 = .ok bound := hbound
    have happlied : applyEdits (promoteDeclared content names).value.1
        ((byStatement bound).map fun g =>
        (reexportEdit (promoteDeclared content names).value.1 raw g.1 g.2).1) = .ok t := h₃
    rw [reexported, hbound']
    dsimp only
    rw [happlied]
    rfl
  have hall : (globalPass raw).run content
      (names.map .property ++ [.reexport (promoteDeclared content names).value.2]) = some t :=
    (Pass.run_append hrun).trans (Pass.run_cons hact)
  refine ⟨hall, fun name hname => ?_⟩
  rcases hturns name hname with hreported | himported | hpasses
  · left
    unfold promoteProperties
    rw [hwarnings, Revision.run_ofReported]
    exact List.mem_append_left _ hreported
  · right
    rcases hexported name himported with hexp | hodd
    · exact Pass.passes_of_run hall (Or.inl hexp)
    · exact (Pass.passes_of_run hrun (Or.inr hodd)).append _
  · obtain ⟨done, left, mid, hsplit, hdone, hexp⟩ := hpasses
    exact Or.inr (Pass.Passes.append ⟨done, left, mid, hsplit, hdone, Or.inl hexp⟩ _)

/-- The objects whose keys are exported: each of them is reported, or its name is exported, or the
module that it stands for is re-exported as a whole. -/
lemma run_keySets (raw content : Text) (names : List Text) :
    (globalPass raw).run content (names.map .keySet) = some (promoteKeySets raw content names).value
      ∧ ∀ name ∈ names, .localKeySet name ∈ (promoteKeySets raw content names).warnings
        ∨ .undeclared name ∈ (promoteKeySets raw content names).warnings
        ∨ (globalPass raw).Passes (fun mid => isExported mid name = true) content
          (names.map .keySet)
        ∨ ∃ s, (globalPass raw).Passes (fun mid => importOf? mid name = some s) content
            (names.map .keySet)
          ∧ (globalPass raw).Passes (Stands beginsLine fun u _ => u = s.wildcard) content
            (names.map .keySet) := by
  induction names generalizing content with
  | nil => exact ⟨rfl, by simp⟩
  | cons name names ih =>
    have hact : (globalPass raw).act (.keySet name) content =
        some (promoteKeySet content raw name).value := rfl
    have hone : (globalPass raw).run content [.keySet name] =
        some (promoteKeySet content raw name).value := Pass.run_cons hact
    rw [promoteKeySets, Reported.value_bind, Reported.warnings_bind]
    obtain ⟨-, hturn⟩ := promoteKeySet_turn content raw name
    obtain ⟨hrun, hturns⟩ := ih (promoteKeySet content raw name).value
    refine ⟨(Pass.run_cons hact).trans hrun, List.forall_mem_cons.mpr ⟨?_, fun other hother => ?_⟩⟩
    · rcases hturn with h | h | h | ⟨s, hs, hstands⟩
      · exact Or.inl (List.mem_append_left _ h)
      · exact Or.inr (Or.inl (List.mem_append_left _ h))
      · exact Or.inr (Or.inr (Or.inl ((Pass.passes_of_run hone h).append _)))
      · refine Or.inr (Or.inr (Or.inr ⟨s, ?_, (Pass.passes_of_run hone hstands).append _⟩))
        exact ⟨[], .keySet name :: names.map .keySet, content, rfl, rfl, hs⟩
    · rcases hturns other hother with h | h | h | ⟨s, hs, hstands⟩
      · exact Or.inl (List.mem_append_right _ h)
      · exact Or.inr (Or.inl (List.mem_append_right _ h))
      · exact Or.inr (Or.inr (Or.inl (Pass.Passes.behind hone h)))
      · exact Or.inr (Or.inr (Or.inr
          ⟨s, Pass.Passes.behind hone hs, Pass.Passes.behind hone hstands⟩))

/-! ## The whole run -/

/-- The statements of properties under another name are solid. -/
lemma solid_of_mem_renamedAssignments {properties : List Text}
    (hproper : ∀ p ∈ properties, ProperProperty p) {a : Assignment}
    (ha : a ∈ renamedAssignments properties) : Solid a.render := by
  obtain ⟨p, hp, hrenamed⟩ := List.mem_filterMap.mp ha
  obtain ⟨value, hvalue, rfl⟩ := Option.map_eq_some_iff.mp hrenamed
  apply Assignment.solid_render
  rcases renamedFrom?_cases (hproper p hp) with ⟨-, hnone⟩ | ⟨other, hlast, hsome⟩
  · rw [hnone] at hvalue
    exact absurd hvalue (by simp)
  · obtain rfl := Option.some.inj (hsome.symm.trans hvalue)
    exact ⟨hlast, by simp⟩

/-- **Every member has its turn** in the run that writes the members: it is exported at some point
of the run, or reported. -/
structure Turns (raw : Text) (e : GlobalExports) (content t : Text) (ws : List Warning) : Prop where
  run : (globalPass raw).run content (globalActions content raw e) = some t
  properties : ∀ name ∈ e.bare, .undeclared name ∈ ws
    ∨ (globalPass raw).Passes (fun mid => isExported mid name = true ∨ OddlyImported name mid)
      content (globalActions content raw e)
  statements : ∀ a ∈ renamedAssignments e.properties ++ e.assignments, Solid a.render
    ∧ (globalPass raw).Passes (Stands beginsLine fun u _ => u = a.render) content
      (globalActions content raw e)
  keySets : ∀ name ∈ e.keySets, .localKeySet name ∈ ws ∨ .undeclared name ∈ ws
    ∨ (globalPass raw).Passes (fun mid => isExported mid name = true) content
      (globalActions content raw e)
    ∨ ∃ s, (globalPass raw).Passes (fun mid => importOf? mid name = some s) content
        (globalActions content raw e)
      ∧ (globalPass raw).Passes (Stands beginsLine fun u _ => u = s.wildcard) content
        (globalActions content raw e)

/-- The texts between the parts of the run. -/
lemma exists_of_writeMembers {raw content t : Text} {e : GlobalExports}
    (h : (writeMembers content raw e).run.value = .ok t) :
    ∃ t₁ t₂ t₃, insertAssignments raw content (renamedAssignments e.properties) = .ok t₁
      ∧ (promoteProperties t₁ raw e.bare).run.value = .ok t₂
      ∧ insertAssignments raw (promoteKeySets raw t₂ e.keySets).value e.assignments = .ok t₃
      ∧ dropBlock t₃ raw = .ok t
      ∧ (writeMembers content raw e).run.warnings = (promoteProperties t₁ raw e.bare).run.warnings
        ++ (promoteKeySets raw t₂ e.keySets).warnings := by
  obtain ⟨t₁, h₁, hrest₁, hw₁⟩ := Revision.exists_of_run_bind h
  obtain ⟨t₂, h₂, hrest₂, hw₂⟩ := Revision.exists_of_run_bind hrest₁
  obtain ⟨t₃, h₃, hrest₃, hw₃⟩ := Revision.exists_of_run_bind hrest₂
  obtain ⟨t₄, h₄, hdrop, hw₄⟩ := Revision.exists_of_run_bind hrest₃
  rw [Revision.run_ofReported, Except.ok.injEq] at h₃
  subst h₃
  refine ⟨t₁, t₂, t₄, h₁, h₂, h₄, hdrop, ?_⟩
  unfold writeMembers
  rw [hw₁, hw₂, hw₃, hw₄]
  simp only [Revision.run_ofExcept, Revision.run_ofReported, List.nil_append, List.append_nil]
  rfl

/-- **The text that is written is that of the run**, and every member has its turn. -/
theorem writeMembers_turns {raw content t : Text} {e : GlobalExports} (he : e.Proper)
    (h : (writeMembers content raw e).run.value = .ok t) :
    Turns raw e content t (writeMembers content raw e).run.warnings := by
  obtain ⟨t₁, t₂, t₃, h₁, h₂, h₃, hdrop, hwarnings⟩ := exists_of_writeMembers h
  have hsolid₁ : ∀ a ∈ renamedAssignments e.properties, Solid a.render := fun a ha =>
    solid_of_mem_renamedAssignments he.properties ha
  have hsolid₃ : ∀ a ∈ e.assignments, Solid a.render := fun a ha =>
    Assignment.solid_render (he.assignments a ha)
  obtain ⟨hrun₁, hturns₁⟩ := run_paragraphs hsolid₁ h₁
  obtain ⟨hrun₂, hturns₂⟩ := run_promoteProperties h₂
  obtain ⟨hrunKeys, hturnsKeys⟩ := run_keySets raw t₂ e.keySets
  obtain ⟨hrun₃, hturns₃⟩ := run_paragraphs hsolid₃ h₃
  have hactions : globalActions content raw e = (renamedAssignments e.properties).map .paragraph
      ++ (e.bare.map .property ++ [.reexport (promoteDeclared t₁ e.bare).value.2]
        ++ (e.keySets.map .keySet ++ (e.assignments.map .paragraph ++ [.drop]))) := by
    unfold globalActions
    dsimp only
    rw [hrun₁, Option.getD_some]
  have hact : (globalPass raw).act .drop t₃ = some t := by
    show (dropBlock t₃ raw).toOption = some t
    rw [hdrop]
    rfl
  rw [hwarnings]
  constructor
  case run =>
    rw [hactions, Pass.run_append hrun₁, Pass.run_append hrun₂, Pass.run_append hrunKeys,
      Pass.run_append hrun₃, Pass.run_cons hact, Pass.run_nil]
  case properties =>
    intro name hname
    rw [hactions]
    rcases hturns₂ name hname with hreported | hpasses
    · exact Or.inl (List.mem_append_left _ hreported)
    · exact Or.inr (Pass.Passes.behind hrun₁ (hpasses.append _))
  case statements =>
    intro a ha
    rw [hactions]
    rcases List.mem_append.mp ha with ha | ha
    · exact ⟨hsolid₁ a ha, (hturns₁ a ha).append _⟩
    · exact ⟨hsolid₃ a ha, Pass.Passes.behind hrun₁ (Pass.Passes.behind hrun₂
        (Pass.Passes.behind hrunKeys ((hturns₃ a ha).append _)))⟩
  case keySets =>
    intro name hname
    have hplace : ∀ {Q : Text → Prop},
        (globalPass raw).Passes Q t₂ (e.keySets.map .keySet) →
          (globalPass raw).Passes Q content (globalActions content raw e) := by
      intro Q hpasses
      rw [hactions]
      exact Pass.Passes.behind hrun₁ (Pass.Passes.behind hrun₂ (hpasses.append _))
    rcases hturnsKeys name hname with hlocal | hundeclared | hpasses | ⟨s, himport, hstands⟩
    · exact Or.inl (List.mem_append_right _ hlocal)
    · exact Or.inr (Or.inl (List.mem_append_right _ hundeclared))
    · exact Or.inr (Or.inr (Or.inl (hplace hpasses)))
    · exact Or.inr (Or.inr (Or.inr ⟨s, hplace himport, hplace hstands⟩))

end Esmify
