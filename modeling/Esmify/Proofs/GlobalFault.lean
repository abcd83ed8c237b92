import Esmify.Proofs.GlobalPass
import Esmify.Proofs.GlobalSource

/-!
# When global exports cannot be written

Writing global exports can only fail for two reasons. A member, or the removal at the end, needs the
statement, and no copy of it is left in the text; or a property was imported when it was looked up
and is not any more when it is re-exported. The edits of import statements never overlap
(`exists_applyEdits_reexport`).

**A statement is lost only when something is written inside of it** (`pierced_of_run`): an action
marks a declaration or edits an import statement in every copy that there is. So the cases in which
writing fails (`MembersJam`, `DefaultJam`) say where the text gives the reason, and they are all
(`writeGlobal_eq_error_iff`). -/

namespace Esmify

open Text Source

/-! ## Edits that keep apart -/

/-- Edits that end before the one ahead of them in the list begins are applied. -/
lemma exists_applyBackwards {bound : Int} {es : List Edit}
    (hes : es.Pairwise fun a b => b.stop ≤ a.start) (hbound : ∀ e ∈ es, e.stop ≤ bound) (t : Text) :
    ∃ t', applyBackwards t bound es = .ok t' := by
  induction es generalizing bound t with
  | nil => exact ⟨t, rfl⟩
  | cons e es ih =>
    obtain ⟨hahead, hes⟩ := List.pairwise_cons.mp hes
    rw [applyBackwards, if_neg (Int.not_lt.mpr (hbound e List.mem_cons_self))]
    exact ih hes hahead _

/-- **Edits with something between them are applied**, in whatever order they are given. -/
lemma exists_applyEdits {t : Text} {es : List Edit} (hproper : ∀ e ∈ es, e.Proper)
    (hwithin : ∀ e ∈ es, e.stop ≤ t.length)
    (hapart : es.Pairwise fun a b => a.stop < b.start ∨ b.stop < a.start) :
    ∃ t', applyEdits t es = .ok t' := by
  have hmem : ∀ {e}, e ∈ sortBackwards es ↔ e ∈ es := List.mem_mergeSort
  have hsorted : (sortBackwards es).Pairwise fun a b => a.stop < b.start ∨ b.stop < a.start :=
    ((List.mergeSort_perm es _).pairwise_iff fun h => h.symm).mpr hapart
  refine exists_applyBackwards ?_ (fun e he => hwithin e (hmem.mp he)) t
  refine ((pairwise_sortBackwards es).and hsorted).imp_of_mem ?_
  intro a b ha hb h
  obtain ⟨start, stop, hstart, hstop, hle⟩ := hproper a (hmem.mp ha)
  omega

/-- **Re-exports never overlap**: import statements do not touch. -/
lemma exists_applyEdits_reexport {content : Text} {names : List Text}
    {bound : List (ImportStatement × ImportedName)}
    (hbound : importBindings content names = .ok bound) (raw : Text) :
    ∃ t, applyEdits content
      ((byStatement bound).map fun g => (reexportEdit content raw g.1 g.2).1) = .ok t := by
  obtain ⟨-, hnodup, -⟩ := byStatement_spec hbound
  refine exists_applyEdits ?_ ?_ ?_
  · intro e he
    obtain ⟨g, hg, rfl⟩ := List.mem_map.mp he
    obtain ⟨-, start, stop, hstart, hstop, -, hle, -⟩ := holds_reexportEdit hbound raw hg
    exact ⟨start, stop, hstart, hstop, hle⟩
  · intro e he
    obtain ⟨g, hg, rfl⟩ := List.mem_map.mp he
    obtain ⟨hs, start, stop, -, hstop, -, -, hle⟩ := holds_reexportEdit hbound raw hg
    obtain ⟨front, back, hsplit, hfront, -⟩ := exists_of_mem_importStatements hs
    have hlength := congrArg List.length hsplit
    simp only [List.length_append, ImportStatement.stop, hfront] at hlength hle
    omega
  · rw [List.pairwise_map]
    rw [List.Nodup, List.pairwise_map] at hnodup
    refine hnodup.imp_of_mem ?_
    intro g g' hg hg' hne
    obtain ⟨hs, start, stop, hstart, hstop, h₁, h₂, h₃⟩ := holds_reexportEdit hbound raw hg
    obtain ⟨hs', start', stop', hstart', hstop', h₁', h₂', h₃'⟩ := holds_reexportEdit hbound raw hg'
    have happart := importStatements_apart hs hs' hne
    omega

/-! ## Imports that vanish -/

/-- The first of several names that no statement imports. -/
def FirstUnbound (t : Text) (names : List Text) (name : Text) : Prop :=
  ∃ before after, names = before ++ name :: after ∧ (∀ n ∈ before, (importOf? t n).isSome = true)
    ∧ importOf? t name = none

/-- A name is bound by an import exactly if there is an import of it. -/
lemma isSome_importBinding? (t name : Text) :
    (importBinding? t name).isSome = (importOf? t name).isSome := by
  unfold importBinding?
  cases hs : importOf? t name with
  | none => rfl
  | some s =>
    have hbinding := List.find?_some hs
    rw [Option.bind_some, Option.isSome_map, hbinding]
    rfl

/-- Bindings cannot be looked up exactly if a name has none, the first of which is reported. -/
lemma importBindings_eq_error_iff {t : Text} {names : List Text} {f : Fault} :
    importBindings t names = .error f ↔ ∃ name, FirstUnbound t names name
      ∧ f = .vanishedImport name := by
  induction names with
  | nil =>
    refine iff_of_false (by rintro ⟨⟩) ?_
    rintro ⟨name, ⟨before, after, hsplit, -⟩, -⟩
    exact absurd hsplit (by simp)
  | cons n names ih =>
    have hsome := isSome_importBinding? t n
    rw [importBindings]
    cases hb : importBinding? t n with
    | none =>
      rw [hb, Option.isSome_none, eq_comm, Option.isSome_eq_false_iff,
        Option.isNone_iff_eq_none] at hsome
      simp only [Except.error.injEq]
      constructor
      · rintro rfl
        exact ⟨n, ⟨[], names, rfl, by simp, hsome⟩, rfl⟩
      · rintro ⟨name, ⟨before, after, hsplit, hbefore, -⟩, rfl⟩
        cases before with
        | nil => exact congrArg Fault.vanishedImport (List.cons.inj hsplit).1
        | cons m before =>
          have hm := hbefore m List.mem_cons_self
          rw [← (List.cons.inj hsplit).1, hsome] at hm
          exact absurd hm (by simp)
    | some b =>
      rw [hb, Option.isSome_some] at hsome
      have hrest : (importBindings t names).map (b :: ·) = .error f ↔
          importBindings t names = .error f := by
        cases importBindings t names <;> simp [Except.map]
      dsimp only
      rw [hrest, ih]
      refine exists_congr fun name => and_congr_left fun _ => ?_
      constructor
      · rintro ⟨before, after, rfl, hbefore, hnone⟩
        exact ⟨n :: before, after, rfl, List.forall_mem_cons.mpr ⟨hsome.symm, hbefore⟩, hnone⟩
      · rintro ⟨before, after, hsplit, hbefore, hnone⟩
        cases before with
        | nil =>
          rw [← (List.cons.inj hsplit).1] at hnone
          rw [hnone] at hsome
          exact absurd hsome (by simp)
        | cons m before =>
          exact ⟨before, after, (List.cons.inj hsplit).2,
            fun k hk => hbefore k (List.mem_cons_of_mem _ hk), hnone⟩

/-- Names are re-exported unless one of them is not imported any more. -/
lemma reexported_eq_error_iff {t raw : Text} {names : List Text} {f : Fault} :
    reexported t raw names = .error f ↔ ∃ name, FirstUnbound t names name
      ∧ f = .vanishedImport name := by
  rw [← importBindings_eq_error_iff]
  unfold reexported
  cases hbound : importBindings t names with
  | error g => simp
  | ok bound =>
    obtain ⟨t', ht'⟩ := exists_applyEdits_reexport hbound raw
    simp [ht']

/-! ## Actions that fail -/

/-- What an action makes of a text, or why it cannot. -/
def GlobalAction.perform (raw t : Text) : GlobalAction → Except Fault Text
  | .paragraph a => insertParagraphBefore t raw a.render
  | .property name =>
    .ok (((declaration? t name).map fun d => t.insertAt d.start "export ".toList).getD t)
  | .reexport names => reexported t raw names
  | .keySet name => .ok (promoteKeySet t raw name).value
  | .drop => dropBlock t raw

/-- An action of the pass gives what performing it gives. -/
lemma act_eq_toOption (raw : Text) (a : GlobalAction) (t : Text) :
    (globalPass raw).act a t = (a.perform raw t).toOption := by
  cases a <;> rfl

/-- What several actions make of a text, or why they cannot. -/
abbrev performed (raw content : Text) (actions : List GlobalAction) : Except Fault Text :=
  actions.foldlM (GlobalAction.perform raw) content

section performed

variable (raw content : Text)

/-- Actions are performed one list after the other. -/
lemma performed_append (actions others : List GlobalAction) :
    performed raw content (actions ++ others) =
      performed raw content actions >>= fun t => performed raw t others :=
  List.foldlM_append

/-- Assignments are inserted by performing their actions. -/
lemma insertAssignments_eq_performed (members : List Assignment) :
    insertAssignments raw content members = performed raw content (members.map .paragraph) := by
  induction members generalizing content with
  | nil => rfl
  | cons a members ih =>
    rw [insertAssignments, List.map_cons, performed, List.foldlM_cons]
    show _ = (insertParagraphBefore content raw a.render >>= _)
    cases insertParagraphBefore content raw a.render with
    | error f => rfl
    | ok t => exact ih t

/-- Properties are promoted by performing their actions and one re-export at the end. -/
lemma value_run_promoteProperties (names : List Text) :
    (promoteProperties content raw names).run.value = performed raw content
      (names.map .property ++ [.reexport (promoteDeclared content names).value.2]) := by
  have hproperties : performed raw content (names.map .property) =
      .ok (promoteDeclared content names).value.1 :=
    (Pass.foldlM_eq_ok_iff (act_eq_toOption raw)).mpr (run_properties raw content names).1
  rw [performed_append, hproperties]
  unfold promoteProperties
  simp only [Revision.value_run_bind, Revision.run_ofReported, Revision.run_ofExcept,
    value_run_reexportEdits, ok_bind, performed, List.foldlM_cons, List.foldlM_nil, bind_pure]
  show _ = reexported _ raw _
  unfold reexported
  cases importBindings (promoteDeclared content names).value.1
    (promoteDeclared content names).value.2 with
  | error f => rfl
  | ok bound => rfl

/-- **The members are written by the actions of the pass**, one after the other. -/
lemma value_run_writeMembers (e : GlobalExports) :
    (writeMembers content raw e).run.value = performed raw content
      (globalActions content raw e) := by
  have hopened : (globalPass raw).run content ((renamedAssignments e.properties).map .paragraph) =
      (performed raw content ((renamedAssignments e.properties).map .paragraph)).toOption :=
    Pass.run_eq_toOption (act_eq_toOption raw) _ _
  have hkeys : ∀ t, performed raw t (e.keySets.map .keySet) =
      .ok (promoteKeySets raw t e.keySets).value := fun t =>
    (Pass.foldlM_eq_ok_iff (act_eq_toOption raw)).mpr (run_keySets raw t e.keySets).1
  have hdrop : ∀ t, performed raw t [.drop] = dropBlock t raw := fun t => bind_pure _
  unfold writeMembers globalActions
  simp only [Revision.value_run_bind, Revision.run_ofReported, Revision.run_ofExcept, hopened,
    performed_append raw _ (List.map GlobalAction.paragraph _), insertAssignments_eq_performed]
  cases performed raw content ((renamedAssignments e.properties).map .paragraph) with
  | error f => rfl
  | ok t₁ =>
    have hproperties := value_run_promoteProperties raw t₁ e.bare
    simp only [ok_bind, Except.toOption, Option.getD_some]
    rw [performed_append, ← hproperties]
    simp only [performed_append raw _ (List.map GlobalAction.keySet _), hkeys, ok_bind,
      performed_append, hdrop]
    rfl

end performed

/-! ## The statement is lost -/

section statement

variable {raw t t' front back : Text}

/-- Edits that do not reach into a copy of the statement keep it. -/
lemma occursIn_of_applyEdits (hne : raw ≠ []) (ht : t = front ++ (raw ++ back)) {es : List Edit}
    (hproper : ∀ e ∈ es, e.Proper)
    (hclear : ∀ e ∈ es, e.stop ≤ front.length ∨ ((front.length + raw.length : Nat) : Int) ≤ e.start)
    (h : applyEdits t es = .ok t') : occursIn raw t' = true := by
  subst ht
  obtain ⟨front', back', rfl, -⟩ := applyEdits_keeps hne hproper hclear h
  exact occursIn_iff.mpr ⟨front', back', rfl⟩

/-- A replacement elsewhere leaves the statement in the text. -/
lemma occursIn_splice (hne : raw ≠ []) (ht : t = front ++ (raw ++ back)) {p q : Nat} (hpq : p ≤ q)
    (hq : q ≤ t.length) (hclear : ¬ Reaches front.length (front.length + raw.length) (p, q))
    (piece : Text) : occursIn raw (t.splice p q piece) = true := by
  unfold Reaches at hclear
  refine occursIn_of_applyEdits hne ht ?_ ?_ (applyEdits_singleton p piece hq)
  · intro e he
    obtain rfl := List.mem_singleton.mp he
    exact ⟨p, q, rfl, rfl, hpq⟩
  · intro e he
    obtain rfl := List.mem_singleton.mp he
    simp only at hclear ⊢
    omega

/-- No span of an action reaches into a copy of the statement. -/
def Clear (raw front : Text) (spans : List (Nat × Nat)) : Prop :=
  ∀ span ∈ spans, ¬ Reaches front.length (front.length + raw.length) span

/-- The word `export` comes in front of a declaration outside the statement. -/
lemma occursIn_of_mark (hne : raw ≠ []) (ht : t = front ++ (raw ++ back)) {name : Text}
    {d : Occurrence Unit} (hd : declaration? t name = some d)
    (hclear : Clear raw front (markSpans t name)) :
    occursIn raw (t.insertAt d.start "export ".toList) = true := by
  obtain ⟨a, c, hsplit, hstart, -⟩ := declaration?_eq_some hd
  refine occursIn_splice hne ht le_rfl ?_ (hclear _ ?_) _
  · rw [hstart, hsplit, List.length_append]
    exact Nat.le_add_right _ _
  · rw [markSpans, hd]
    exact List.mem_singleton_self _

/-- A paragraph comes before a statement, which stays. -/
lemma occursIn_of_paragraph (hne : raw ≠ []) {paragraph : Text}
    (h : insertParagraphBefore t raw paragraph = .ok t') : occursIn raw t' = true := by
  unfold insertParagraphBefore at h
  cases hi : indexOf? raw t with
  | none => simp [hi] at h
  | some i =>
    obtain ⟨front', back', hsplit, rfl⟩ := indexOf?_eq_some hi
    rw [hi, Except.ok.injEq, hsplit, List.drop_left, paragraphTail, if_neg (by simp [hne])] at h
    exact occursIn_iff.mpr ⟨_, back', by rw [← h, ← List.append_cons, ← List.append_cons]⟩

/-- Import statements are edited outside the statement. -/
lemma occursIn_of_reexported (hne : raw ≠ []) (ht : t = front ++ (raw ++ back)) {names : List Text}
    (hclear : Clear raw front (bindingSpans t names)) (h : reexported t raw names = .ok t') :
    occursIn raw t' = true := by
  unfold reexported at h
  cases hbound : importBindings t names with
  | error f => simp [hbound] at h
  | ok bound =>
    simp only [hbound] at h
    have hspans : ∀ g ∈ byStatement bound,
        ¬ Reaches front.length (front.length + raw.length) (g.1.start, g.1.stop) := by
      intro g hg
      refine hclear _ ?_
      rw [bindingSpans, hbound]
      exact List.mem_map_of_mem (List.mem_map_of_mem hg)
    refine occursIn_of_applyEdits hne ht ?_ ?_ h
    · intro e he
      obtain ⟨g, hg, rfl⟩ := List.mem_map.mp he
      obtain ⟨-, start, stop, hstart, hstop, -, hle, -⟩ := holds_reexportEdit hbound raw hg
      exact ⟨start, stop, hstart, hstop, hle⟩
    · intro e he
      obtain ⟨g, hg, rfl⟩ := List.mem_map.mp he
      obtain ⟨-, start, stop, hstart, hstop, h₁, h₂, h₃⟩ := holds_reexportEdit hbound raw hg
      have hnot := hspans g hg
      unfold Reaches at hnot
      simp only at hnot
      omega

/-- The keys of an object are exported outside the statement. -/
lemma occursIn_of_promoteKeySet (hne : raw ≠ []) (ht : t = front ++ (raw ++ back)) {name : Text}
    (hclear : Clear raw front (keySetSpans t name)) :
    occursIn raw (promoteKeySet t raw name).value = true := by
  have hsame : occursIn raw t = true := occursIn_iff.mpr ⟨front, back, ht⟩
  rcases promoteKeySet_cases t raw name with ⟨hnone, hobject⟩ | ⟨s, hwhole, hs, hcases⟩
  · rw [keySetSpans, hnone] at hclear
    rw [hobject, promoteObject]
    cases hd : declaration? t name with
    | some d => exact occursIn_of_mark hne ht hd hclear
    | none =>
      dsimp only
      split_ifs <;> exact hsame
  · rw [keySetSpans, hwhole] at hclear
    have hnot := hclear _ (List.mem_singleton_self _)
    have hstop := ImportStatement.stop_le (List.mem_of_find?_eq_some hs)
    rcases hcases with heq | heq
    · rw [heq]
      exact occursIn_splice hne ht (Nat.le_add_right _ _) hstop hnot _
    · rw [heq]
      refine occursIn_splice hne ht le_rfl hstop ?_ _
      unfold Reaches at hnot ⊢
      simp only [ImportStatement.stop] at hnot ⊢
      omega

/-- **An action other than the last reaches into a copy of the statement, or leaves one.** -/
lemma act_keeps_statement {a : GlobalAction} (hne : raw ≠ []) (ha : a ≠ .drop)
    (hact : (globalPass raw).act a t = some t') (ht : t = front ++ (raw ++ back)) :
    (∃ span ∈ (globalPass raw).spans a t, Reaches front.length (front.length + raw.length) span)
      ∨ occursIn raw t' = true := by
  by_cases hreaches : ∃ span ∈ (globalPass raw).spans a t,
      Reaches front.length (front.length + raw.length) span
  · exact Or.inl hreaches
  have hclear : Clear raw front ((globalPass raw).spans a t) :=
    fun span hspan h => hreaches ⟨span, hspan, h⟩
  right
  cases a with
  | drop => exact absurd rfl ha
  | paragraph a => exact occursIn_of_paragraph hne (exists_of_toOption hact)
  | property name =>
    obtain rfl := Option.some.inj hact
    cases hd : declaration? t name with
    | none => exact occursIn_iff.mpr ⟨front, back, ht⟩
    | some d => exact occursIn_of_mark hne ht hd hclear
  | reexport names => exact occursIn_of_reexported hne ht hclear (exists_of_toOption hact)
  | keySet name =>
    obtain rfl := Option.some.inj hact
    exact occursIn_of_promoteKeySet hne ht hclear

end statement

/-- **An action reaches into every copy of the statement** that there is when it comes. -/
def Pierced (raw t : Text) (actions : List GlobalAction) : Prop :=
  ∃ done a left mid, actions = done ++ a :: left ∧ (globalPass raw).run t done = some mid
    ∧ occursIn raw mid = true ∧ ∀ front back, mid = front ++ (raw ++ back) →
      ∃ span ∈ (globalPass raw).spans a mid, Reaches front.length (front.length + raw.length) span

/-- A statement that is lost in a run was reached into. -/
lemma pierced_of_run {raw t mid : Text} {actions : List GlobalAction} (hne : raw ≠ [])
    (hactions : ∀ a ∈ actions, a ≠ .drop) (hrun : (globalPass raw).run t actions = some mid)
    (hoccurs : occursIn raw t = true) (hlost : occursIn raw mid = false) :
    Pierced raw t actions := by
  induction actions generalizing t with
  | nil =>
    obtain rfl := Option.some.inj hrun
    rw [hoccurs] at hlost
    exact absurd hlost (by decide)
  | cons a actions ih =>
    obtain ⟨t₁, hact, hrest⟩ := Option.bind_eq_some_iff.mp hrun
    obtain ⟨ha, hactions⟩ := List.forall_mem_cons.mp hactions
    cases hkept : occursIn raw t₁ with
    | true =>
      obtain ⟨done, a', left, mid', rfl, hdone, hpierced⟩ := ih hactions hrest hkept
      exact ⟨a :: done, a', left, mid', rfl, (Pass.run_cons hact).trans hdone, hpierced⟩
    | false =>
      refine ⟨[], a, actions, t, rfl, rfl, hoccurs, fun front back ht => ?_⟩
      refine (act_keeps_statement hne ha hact ht).resolve_right ?_
      rw [hkept]
      decide

/-! ## Members that cannot be written -/

/-- **Why the members of an exported object cannot be written.** -/
inductive MembersJam (raw t : Text) (e : GlobalExports) : Fault → Prop
  /-- A member is to be put before the statement, and no copy of it is left. -/
  | pattern {done left : List GlobalAction} {a : Assignment} {mid : Text} :
    globalActions t raw e = done ++ .paragraph a :: left → (globalPass raw).run t done = some mid →
    occursIn raw mid = false → Pierced raw t done → MembersJam raw t e (.missingPattern raw)
  /-- The statement is to go away, and no copy of it is left. -/
  | block {done left : List GlobalAction} {mid : Text} :
    globalActions t raw e = done ++ .drop :: left → (globalPass raw).run t done = some mid →
    occursIn raw mid = false → Pierced raw t done → MembersJam raw t e (.missingBlock raw)
  /-- A property is to be re-exported that was imported and is not any more. -/
  | vanished {done left : List GlobalAction} {names : List Text} {name mid : Text} :
    globalActions t raw e = done ++ .reexport names :: left →
    (globalPass raw).run t done = some mid → FirstUnbound mid names name →
    (globalPass raw).Passes (fun u => (importOf? u name).isSome = true) t done →
    MembersJam raw t e (.vanishedImport name)

/-- The properties that are left to be re-exported were imported when they were looked up. -/
lemma passes_imported (raw content : Text) {names : List Text} {name : Text}
    (h : name ∈ (promoteDeclared content names).value.2) :
    (globalPass raw).Passes (fun u => (importOf? u name).isSome = true) content
      (names.map .property) := by
  induction names generalizing content with
  | nil => exact absurd h List.not_mem_nil
  | cons n names ih =>
    have hact : (globalPass raw).act (.property n) content =
        some (((declaration? content n).map fun d =>
          content.insertAt d.start "export ".toList).getD content) := rfl
    rw [promoteDeclared] at h
    cases hd : declaration? content n with
    | some d =>
      rw [hd] at h hact
      have hone : (globalPass raw).run content [.property n] =
          some (content.insertAt d.start "export ".toList) := Pass.run_cons hact
      exact Pass.Passes.behind hone (ih _ h)
    | none =>
      rw [hd] at h hact
      have hone : (globalPass raw).run content [.property n] = some content := Pass.run_cons hact
      dsimp only at h
      split_ifs at h with himport hexported
      · rcases List.mem_cons.mp h with rfl | h
        · exact ⟨[], _, content, rfl, rfl, himport⟩
        · exact Pass.Passes.behind hone (ih _ h)
      · exact Pass.Passes.behind hone (ih _ h)
      · exact Pass.Passes.behind hone (ih _ h)

/-- The statement goes away last. -/
lemma ne_drop_of_globalActions {content raw : Text} {e : GlobalExports}
    {done left : List GlobalAction} {a : GlobalAction}
    (h : globalActions content raw e = done ++ a :: left) :
    ∀ b ∈ done, b ≠ .drop := by
  obtain ⟨before, hbefore, hne⟩ : ∃ before, globalActions content raw e = before ++ [.drop]
      ∧ ∀ b ∈ before, b ≠ .drop := by
    refine ⟨_, by unfold globalActions; simp only [← List.append_assoc]; rfl, ?_⟩
    simp only [List.mem_append, List.mem_map, List.mem_singleton]
    rintro b ((((⟨x, -, rfl⟩ | ⟨x, -, rfl⟩) | rfl) | ⟨x, -, rfl⟩) | ⟨x, -, rfl⟩) <;> simp
  have hlength := congrArg List.length (hbefore.symm.trans h)
  have hearlier : done <+: before := by
    refine List.prefix_of_prefix_length_le (List.prefix_append done (a :: left)) ?_ ?_
    · rw [← h, hbefore]
      exact List.prefix_append before _
    · simp only [List.length_append, List.length_cons, List.length_nil] at hlength
      omega
  exact fun b hb => hne b (hearlier.subset hb)

/-- The only item of a kind splits a list in one way. -/
lemma split_eq_of_unique {α : Type} {P : α → Prop} {l l' r r' : List α} {x y : α}
    (h : l ++ x :: r = l' ++ y :: r') (hx : P x) (hl : ∀ a ∈ l', ¬ P a) (hr : ∀ a ∈ r', ¬ P a) :
    l = l' ∧ x = y := by
  rcases List.append_eq_append_iff.mp h with ⟨m, rfl, hm⟩ | ⟨m, rfl, hm⟩
  · cases m with
    | nil => exact ⟨(List.append_nil l).symm, (List.cons.inj hm).1⟩
    | cons z m =>
      obtain ⟨rfl, -⟩ := List.cons.inj hm
      exact absurd hx (hl x (by simp))
  · cases m with
    | nil => exact ⟨List.append_nil l', (List.cons.inj hm).1.symm⟩
    | cons z m =>
      obtain ⟨-, rfl⟩ := List.cons.inj hm
      exact absurd hx (hr x (by simp))

/-- What is to be re-exported was imported at an earlier point of the run. -/
lemma passes_of_reexport {content raw : Text} {e : GlobalExports} {done left : List GlobalAction}
    {names : List Text} (h : globalActions content raw e = done ++ .reexport names :: left)
    {mid : Text} (hrun : (globalPass raw).run content done = some mid) {name : Text}
    (hname : name ∈ names) :
    (globalPass raw).Passes (fun u => (importOf? u name).isSome = true) content done := by
  have hsplit : globalActions content raw e =
      ((renamedAssignments e.properties).map .paragraph ++ e.bare.map .property) ++
        .reexport (promoteDeclared (((globalPass raw).run content
          ((renamedAssignments e.properties).map .paragraph)).getD content) e.bare).value.2 ::
        (e.keySets.map .keySet ++ (e.assignments.map .paragraph ++ [.drop])) := by
    unfold globalActions
    simp
  obtain ⟨rfl, hnames⟩ := split_eq_of_unique (P := fun a => ∃ names, a = .reexport names)
    (h.symm.trans hsplit) ⟨names, rfl⟩ (by grind) (by grind)
  obtain rfl := GlobalAction.reexport.inj hnames
  obtain ⟨t₁, hopened, -⟩ := Pass.exists_of_run_append hrun
  rw [hopened] at hname
  exact Pass.Passes.behind hopened (passes_imported raw t₁ hname)

/-- **The members of an object cannot be written exactly where they jam.** -/
theorem writeMembers_eq_error_iff {raw t : Text} (hne : raw ≠ []) (hoccurs : occursIn raw t = true)
    {e : GlobalExports} {f : Fault} :
    (writeMembers t raw e).run.value = .error f ↔ MembersJam raw t e f := by
  have hmissing : ∀ {mid : Text}, occursIn raw mid = false ↔ indexOf? raw mid = none := by
    intro mid
    rw [occursIn, Option.isSome_eq_false_iff, Option.isNone_iff_eq_none]
  rw [value_run_writeMembers, performed, Pass.foldlM_eq_error_iff (act_eq_toOption raw)]
  constructor
  · rintro ⟨done, a, left, mid, hactions, hrun, herror⟩
    have hpierced := pierced_of_run hne (ne_drop_of_globalActions hactions) hrun hoccurs
    cases a with
    | paragraph a =>
      cases hi : indexOf? raw mid with
      | some i => simp [GlobalAction.perform, insertParagraphBefore, hi] at herror
      | none =>
        obtain rfl : Fault.missingPattern raw = f := by
          simpa [GlobalAction.perform, insertParagraphBefore, hi] using herror
        exact .pattern hactions hrun (hmissing.mpr hi) (hpierced (hmissing.mpr hi))
    | property name => simp [GlobalAction.perform] at herror
    | reexport names =>
      obtain ⟨name, hunbound, rfl⟩ := reexported_eq_error_iff.mp herror
      refine .vanished hactions hrun hunbound (passes_of_reexport hactions hrun ?_)
      obtain ⟨before, after, rfl, -⟩ := hunbound
      simp
    | keySet name => simp [GlobalAction.perform] at herror
    | drop =>
      cases hi : indexOf? raw mid with
      | some i => simp [GlobalAction.perform, dropBlock, hi] at herror
      | none =>
        obtain rfl : Fault.missingBlock raw = f := by
          simpa [GlobalAction.perform, dropBlock, hi] using herror
        exact .block hactions hrun (hmissing.mpr hi) (hpierced (hmissing.mpr hi))
  · intro hjam
    cases hjam with
    | @pattern done left a mid hactions hrun hlost =>
      refine ⟨done, .paragraph a, left, mid, hactions, hrun, ?_⟩
      simp [GlobalAction.perform, insertParagraphBefore, hmissing.mp hlost]
    | @block done left mid hactions hrun hlost =>
      refine ⟨done, .drop, left, mid, hactions, hrun, ?_⟩
      simp [GlobalAction.perform, dropBlock, hmissing.mp hlost]
    | @vanished done left names name mid hactions hrun hunbound =>
      exact ⟨done, .reexport names, left, mid, hactions, hrun,
        reexported_eq_error_iff.mpr ⟨name, hunbound, rfl⟩⟩

/-! ## Values that cannot be exported -/

/-- **The declaration of an exported value reaches into every copy of the statement**, and none is
left when it is marked. -/
structure DefaultJam (raw t name : Text) : Prop where
  named : isName name = true
  declared : ∃ d, declaration? t name = some d ∧ beginsDeclaration (d.text t) = true
    ∧ occursIn raw (t.insertAt d.start "export default ".toList) = false
    ∧ ∀ front back, t = front ++ (raw ++ back) →
      Reaches front.length (front.length + raw.length) (d.start, d.start)

/-- **A value cannot be exported exactly where it jams.** -/
theorem exportDefault_eq_error_iff {raw t name : Text} (hne : raw ≠ []) {f : Fault} :
    (exportDefault t raw name).run.value = .error f ↔
      DefaultJam raw t name ∧ f = .missingBlock raw := by
  have hfalse : ∀ {x : Except Fault Text}, x ≠ .error f → ¬ DefaultJam raw t name →
      (x = .error f ↔ DefaultJam raw t name ∧ f = .missingBlock raw) :=
    fun hx hjam => iff_of_false hx fun h => hjam h.1
  unfold exportDefault
  cases hname : isName name with
  | false =>
    refine hfalse (by rintro ⟨⟩) fun hjam => ?_
    rw [hjam.named] at hname
    cases hname
  | true =>
    simp only [Bool.not_true, Bool.false_eq_true, if_false]
    cases hd : declaration? t name with
    | none =>
      refine hfalse ?_ fun hjam => ?_
      · cases (importOf? t name).isSome <;> rintro ⟨⟩
      · obtain ⟨d, hd', -⟩ := hjam.declared
        rw [hd] at hd'
        cases hd'
    | some d =>
      have hunique : ∀ {d'}, declaration? t name = some d' → d' = d := fun hd' =>
        Option.some.inj (hd'.symm.trans hd)
      simp only
      cases hbegins : beginsDeclaration (d.text t) with
      | false =>
        refine hfalse (by rintro ⟨⟩) fun hjam => ?_
        obtain ⟨d', hd', hbegins', -⟩ := hjam.declared
        rw [hunique hd', hbegins] at hbegins'
        cases hbegins'
      | true =>
        rw [if_pos rfl, Revision.run_ofExcept]
        simp only [dropBlock]
        cases hi : indexOf? raw (t.insertAt d.start "export default ".toList) with
        | some i =>
          refine hfalse (by rintro ⟨⟩) fun hjam => ?_
          obtain ⟨d', hd', -, hlost, -⟩ := hjam.declared
          rw [hunique hd', occursIn, hi] at hlost
          cases hlost
        | none =>
          have hlost : occursIn raw (t.insertAt d.start "export default ".toList) = false := by
            rw [occursIn, hi]
            rfl
          have hreaches : ∀ front back, t = front ++ (raw ++ back) →
              Reaches front.length (front.length + raw.length) (d.start, d.start) := by
            intro front back ht
            by_contra hclear
            obtain ⟨a, c, hsplit, hstart, -⟩ := declaration?_eq_some hd
            have hle : d.start ≤ t.length := by
              rw [hstart, hsplit, List.length_append]
              exact Nat.le_add_right _ _
            have hkept := occursIn_splice hne ht le_rfl hle hclear "export default ".toList
            rw [insertAt, hkept] at hlost
            cases hlost
          simp only [Except.error.injEq, eq_comm (b := f)]
          exact (and_iff_right ⟨hname, d, hd, hbegins, hlost, hreaches⟩).symm

/-! ## Global exports that cannot be written -/

/-- **Why global exports cannot be written**, when their statement stands in the text. -/
inductive GlobalJam (t : Text) (g : GlobalExports) : Fault → Prop
  | members {raw : Text} {f : Fault} : g.raw = some raw → raw ≠ [] → occursIn raw t = true →
    g.direct.getD [] = [] → MembersJam raw t g f → GlobalJam t g f
  | value {raw name : Text} : g.raw = some raw → raw ≠ [] → occursIn raw t = true →
    g.direct = some name → DefaultJam raw t name → GlobalJam t g (.missingBlock raw)

/-- **Global exports cannot be written exactly where they jam.** -/
theorem writeGlobal_eq_error_iff {t : Text} {g : GlobalExports} {f : Fault} :
    (writeGlobal t g).run.value = .error f ↔ GlobalJam t g f := by
  have hraw : ∀ {raw raw' : Text}, g.raw.getD [] = raw' → g.raw = some raw → raw = raw' := by
    intro raw raw' hget hsome
    rwa [hsome] at hget
  unfold writeGlobal
  split
  · next hempty =>
    refine iff_of_false (by rintro ⟨⟩) ?_
    rintro (⟨hsome, hne, -⟩ | ⟨hsome, hne, -⟩) <;> exact hne (hraw hempty hsome)
  · next c cs hget =>
    have hsome : g.raw = some (c :: cs) := by
      cases h : g.raw with
      | none =>
        rw [h] at hget
        cases hget
      | some raw =>
        rw [h] at hget
        exact congrArg some hget
    have hne : c :: cs ≠ [] := List.cons_ne_nil c cs
    dsimp only
    split_ifs with hoccurs
    · split
      · next hdirect =>
        rw [writeMembers_eq_error_iff hne hoccurs]
        constructor
        · exact .members hsome hne hoccurs hdirect
        · rintro (⟨hsome', -, -, -, hjam⟩ | ⟨-, -, -, hdirect', hjam⟩)
          · obtain rfl := hraw hget hsome'
            exact hjam
          · rw [hdirect'] at hdirect
            obtain rfl : _ = [] := hdirect
            exact absurd hjam.named (by decide)
      · next d ds hdirect =>
        have hvalue : g.direct = some (d :: ds) := by
          cases h : g.direct with
          | none =>
            rw [h] at hdirect
            cases hdirect
          | some name =>
            rw [h] at hdirect
            exact congrArg some hdirect
        rw [exportDefault_eq_error_iff hne]
        constructor
        · rintro ⟨hjam, rfl⟩
          exact .value hsome hne hoccurs hvalue hjam
        · rintro (⟨-, -, -, hdirect', -⟩ | ⟨hsome', -, -, hdirect', hjam⟩)
          · rw [hdirect'] at hdirect
            cases hdirect
          · obtain rfl := hraw hget hsome'
            obtain rfl := Option.some.inj (hvalue.symm.trans hdirect')
            exact ⟨hjam, rfl⟩
    · refine iff_of_false (by rintro ⟨⟩) ?_
      rintro (⟨hsome', -, hoccurs', -⟩ | ⟨hsome', -, hoccurs', -⟩)
      all_goals
        obtain rfl := hraw hget hsome'
        exact hoccurs hoccurs'

end Esmify
