import Esmify.Proofs.ImportAgreement
import Esmify.Proofs.ImportPass

/-!
# Requirements that reach the writer

**A requirement is well-formed** when it can be written as an import: a quoted module, and nothing,
the module as a whole or a list of names taken from it (`WellFormed`). Whatever is read has the
quote and the module right, no local name that is its own key, and a default only for a package as a
whole (`Located`). The bindings have two sources of trouble (`wellFormed_iff_of_mem`): a member path
takes the place of a key as it is, up to the next white space or semicolon; and any line break with
blanks behind it counts as the indentation of bindings, also one between the parentheses of the
call. `readAll_malformed` has a text for each. -/

namespace Esmify.Requirement

open Text Source

/-! ## Well-formed requirements -/

/-- **What every requirement has that is read**: a quote, a module between quotes, no local name
that equals its key, and a default export only of a package as a whole. -/
structure Located (r : Requirement) : Prop where
  quote : ∃ q, r.quote = [q] ∧ isTargetQuote q = true
  target_ne_nil : r.target ≠ []
  unquoted : ∀ c ∈ r.target, isTargetQuote c = false
  renamed : ∀ b ∈ r.bindings, b.localName ≠ some b.key
  package : r.hasDefault = true → r.isWholeModule = true ∧ isPackage r.target = true

/-- **A requirement that can be written as an import**: it only loads the module, or takes the
module as a whole under a name and then without indentation, or takes some of its exports by their
names. -/
structure WellFormed (r : Requirement) : Prop extends Located r where
  bindings : r.bindings = [] ∨ Nameable r

/-! ## Indentation -/

/-- A line of a text, other than the first, begins with a blank or a tab. -/
def HasIndentedLine (t : Text) : Prop :=
  ∃ front c back, t = front ++ '\n' :: c :: back ∧ isIndent c = true

/-- An indentation is found exactly where a line is indented. -/
lemma innerIndent?_eq_none_iff {t : Text} : innerIndent? t = none ↔ ¬ HasIndentedLine t := by
  constructor
  · rintro h ⟨front, c, back, rfl, hc⟩
    induction front with
    | nil => simp [innerIndent?, indentation, hc] at h
    | cons d front ih =>
      rw [List.cons_append, innerIndent?] at h
      split_ifs at h
      exact ih h
  · intro h
    induction t with
    | nil => rfl
    | cons d t ih =>
      have hbehind : ¬ HasIndentedLine t := by
        rintro ⟨front, c, back, rfl, hc⟩
        exact h ⟨d :: front, c, back, rfl, hc⟩
      rw [innerIndent?]
      split_ifs with hbreak
      · rw [Bool.and_eq_true, beq_iff_eq, Bool.not_eq_true'] at hbreak
        obtain ⟨rfl, hindent⟩ := hbreak
        cases t with
        | nil => simp [indentation] at hindent
        | cons c back =>
          cases hc : isIndent c with
          | true => exact absurd ⟨[], c, back, rfl, hc⟩ h
          | false => simp [indentation, hc] at hindent
      · exact ih hbehind

/-- The indentation that is found is not empty. -/
lemma innerIndent?_ne_nil {t indent : Text} (h : innerIndent? t = some indent) : indent ≠ [] := by
  induction t with
  | nil => cases h
  | cons c t ih =>
    rw [innerIndent?] at h
    split_ifs at h with hbreak
    · obtain rfl := Option.some.inj h
      rw [Bool.and_eq_true, Bool.not_eq_true', List.isEmpty_eq_false_iff] at hbreak
      exact hbreak.2
    · exact ih h

/-! ## Bindings -/

/-- **The bindings that a left-hand side and a member path declare together**: the module as a
whole, some of its exports, or the one that the path names. -/
inductive Declared : Option Text → List Binding → Prop
  | whole {name : Text} : ProperName name → Declared none [⟨wholeModule, some name⟩]
  | exports {bs : List Binding} : bs ≠ [] → (∀ b ∈ bs, NamesExport b) → Declared none bs
  | member {path name : Text} : ProperName name → Declared (some path) [⟨path, some name⟩]

/-- Something is bound by a declaration. -/
lemma Declared.ne_nil {path : Option Text} {bs : List Binding} (h : Declared path bs) :
    bs ≠ [] := by
  cases h with
  | whole _ | member _ => exact List.cons_ne_nil _ _
  | exports hne _ => exact hne

/-- Bindings that are read and given a path are those of a declaration. -/
lemma declared_of_withPath {raw binding : Text} {path : Option Text} {bs bs' : List Binding}
    (hread : readBindings binding = .ok bs) (h : withPath raw bs path = .ok bs') :
    Declared path bs' := by
  cases path with
  | none =>
    obtain rfl := Except.ok.inj h
    rcases readBindings_cases hread with ⟨name, hname, rfl⟩ | ⟨hne, hnames⟩
    · exact .whole hname
    · exact .exports hne fun b hb => ⟨(hnames b hb).1, (hnames b hb).2⟩
  | some path =>
    unfold withPath at h
    dsimp only at h
    split_ifs at h
    rcases readBindings_cases hread with ⟨name, hname, rfl⟩ | ⟨hne, hnames⟩
    · obtain rfl := Except.ok.inj h
      exact .member hname
    · -- the members of a brace group are not the module as a whole
      obtain ⟨b, bs, rfl⟩ := List.exists_cons_of_ne_nil hne
      have hkey : b.key ≠ wholeModule :=
        NamesExport.key_ne ⟨(hnames b List.mem_cons_self).1, (hnames b List.mem_cons_self).2⟩
      simp [hkey] at h

/-- A simplified binding does not give a name twice. -/
lemma localName_simplified (b : Binding) : (simplified b).localName ≠ some (simplified b).key := by
  unfold simplified
  split_ifs with h
  · simp
  · simpa using h

/-- A binding keeps its key when it is simplified. -/
lemma key_simplified (b : Binding) : (simplified b).key = b.key := by
  unfold simplified
  split_ifs <;> rfl

/-- A binding loses its local name when it is simplified, or keeps it. -/
lemma localName_simplified_cases (b : Binding) :
    (simplified b).localName = none ∨ (simplified b).localName = b.localName := by
  unfold simplified
  split_ifs
  · exact Or.inl rfl
  · exact Or.inr rfl

/-- A simplified binding of proper names names an export. -/
lemma namesExport_simplified {b : Binding} (hkey : ProperName b.key)
    (hlocal : ∀ name ∈ b.localName, ProperName name) : NamesExport (simplified b) := by
  refine ⟨by rwa [key_simplified], fun name hname => ?_⟩
  rcases localName_simplified_cases b with h | h
  · rw [h] at hname
    cases hname
  · exact hlocal name (h ▸ hname)

/-- The module as a whole keeps its local name. -/
lemma simplified_whole {name : Text} (hname : ProperName name) :
    simplified ⟨wholeModule, some name⟩ = ⟨wholeModule, some name⟩ := by
  have hne : name ≠ wholeModule := by
    rintro rfl
    exact absurd (List.mem_singleton_self '*') (hname.not_mem (by decide))
  simp [simplified, hne]

/-- The only binding of a requirement that can be written is a name, or the module as a whole. -/
lemma key_of_nameable {r : Requirement} {b : Binding} (h : Nameable r) (hb : r.bindings = [b]) :
    ProperName b.key ∨ b.key = wholeModule := by
  cases h with
  | whole _ hone _ =>
    rw [hb, List.singleton_inj] at hone
    exact Or.inr (by rw [hone])
  | exports _ hall _ => exact Or.inl (hall b (by simp [hb])).key

/-- The module as a whole is written without indentation. -/
lemma indent_of_nameable {r : Requirement} (h : Nameable r) (hwhole : r.isWholeModule = true) :
    r.indent = none := by
  cases h with
  | whole _ _ hnone => exact hnone
  | exports _ hall _ =>
    rw [isWholeModule_of_namesExport hall] at hwhole
    cases hwhole

/-- **Declared bindings can be written** exactly when a member path is a name, or the sign for the
module as a whole, and the module as a whole is not indented. -/
lemma nameable_iff {r : Requirement} {path : Option Text} {bs : List Binding} (h : Declared path bs)
    (hbindings : r.bindings = bs.map simplified)
    (hindent : ∀ indent ∈ r.indent, indent ≠ [] ∧ ∀ c ∈ indent, isBlank c = true) :
    Nameable r ↔ (∀ p ∈ path, ProperName p ∨ p = wholeModule)
      ∧ (r.isWholeModule = true → r.indent = none) := by
  -- where all bindings are names of exports, nothing can go wrong
  have hnames : (∀ b ∈ r.bindings, NamesExport b) → r.bindings ≠ [] →
      (∀ p ∈ path, ProperName p ∨ p = wholeModule) →
      (Nameable r ↔ (∀ p ∈ path, ProperName p ∨ p = wholeModule)
        ∧ (r.isWholeModule = true → r.indent = none)) := by
    intro hall hne hpath
    refine iff_of_true (.exports hne hall hindent) ⟨hpath, fun hwhole => ?_⟩
    rw [isWholeModule_of_namesExport hall] at hwhole
    cases hwhole
  -- and the module as a whole is written unless it is indented
  have hwhole : ∀ {name}, ProperName name → r.bindings = [⟨wholeModule, some name⟩] →
      (∀ p ∈ path, ProperName p ∨ p = wholeModule) →
      (Nameable r ↔ (∀ p ∈ path, ProperName p ∨ p = wholeModule)
        ∧ (r.isWholeModule = true → r.indent = none)) := by
    intro name hname hone hpath
    have htrue : r.isWholeModule = true := by
      unfold isWholeModule
      rw [hone]
      rfl
    exact ⟨fun hnameable => ⟨hpath, indent_of_nameable hnameable⟩,
      fun hcond => .whole hname hone (hcond.2 htrue)⟩
  cases h with
  | whole hname =>
    rw [List.map_singleton, simplified_whole hname] at hbindings
    exact hwhole hname hbindings (by simp)
  | exports hne hall =>
    refine hnames ?_ (by simpa [hbindings] using hne) (by simp)
    rw [hbindings, List.forall_mem_map]
    exact fun b hb => namesExport_simplified (hall b hb).key (hall b hb).localName
  | @member p name hname =>
    rw [List.map_singleton] at hbindings
    by_cases hproper : ProperName p
    · refine hnames ?_ (by simp [hbindings]) (by simpa using Or.inl hproper)
      rw [hbindings, List.forall_mem_singleton]
      exact namesExport_simplified hproper (by simpa using hname)
    · by_cases hstar : p = wholeModule
      · subst hstar
        rw [simplified_whole hname] at hbindings
        exact hwhole hname hbindings (by simp)
      · refine iff_of_false (fun hnameable => ?_) (fun hcond => (hcond.1 p rfl).elim hproper hstar)
        have hkey := key_of_nameable hnameable hbindings
        rw [key_simplified] at hkey
        exact hkey.elim hproper hstar

/-! ## Lines -/

/-- The module of a statement is not empty and has no quotes in it. -/
lemma statement?_target {t : Text} {s : Statement} (h : statement? t = some s) :
    s.target ≠ [] ∧ ∀ c ∈ s.target, isTargetQuote c = false := by
  have hcall : ∀ {keyword binding u}, call? keyword binding u = some s →
      s.target ≠ [] ∧ ∀ c ∈ s.target, isTargetQuote c = false := by
    intro keyword binding u hcall
    obtain ⟨-, -, -, text, tail, ⟨b₁, b₂, b₃, b₄, close, -, -, -, hne, hquotes, -⟩, -⟩ :=
      call?_eq_some hcall
    exact ⟨hne, hquotes⟩
  rcases statement?_eq_some h with ⟨front, binding, rest, -, -, -, h⟩ | h
  · exact hcall h
  · exact hcall h

/-- **What a line is read as**: what its statement says, with the bindings that are declared. -/
lemma ofLine_bindings {line : Text} {continued : Bool} {r : Requirement} {s : Statement}
    (hs : statement? line = some s) (h : ofLine line continued = .ok r) :
    (r.bindings = [] ∧ r.hasDefault = false ∧ s.path = none ∧ r.indent = none)
      ∨ ∃ bs, Declared s.path bs ∧ r.bindings = bs.map simplified ∧ r.indent = innerIndent? r.raw
        ∧ r.hasDefault = (isPackage r.target && r.isWholeModule) := by
  unfold ofLine at h
  simp only [hs] at h
  split at h
  · cases h
  · cases h
  · cases hbinding : s.binding with
    | none =>
      simp only [hbinding] at h
      split_ifs at h with hpath
      obtain rfl := Except.ok.inj h
      exact Or.inl ⟨rfl, rfl, by simpa using hpath, rfl⟩
    | some binding =>
      simp only [hbinding] at h
      unfold ofAssigned at h
      cases hread : readBindings binding with
      | error e => simp [hread] at h
      | ok bs =>
        simp only [hread] at h
        split_ifs at h
        cases hwith : withPath (line.take (line.length - s.rest.length)) bs s.path with
        | error e => simp [hwith] at h
        | ok bs' =>
          simp only [hwith] at h
          obtain rfl := Except.ok.inj h
          exact Or.inr ⟨bs', declared_of_withPath hread hwith, rfl, rfl, rfl⟩

/-- What is read from a line has its quote, its module and its default in order. -/
lemma located_placed {content line : Text} {start : Nat} {continued : Bool} {r : Requirement}
    (h : ofLine line continued = .ok r) : Located (placed content start continued r) := by
  obtain ⟨s, hs, -, -, htarget, hquote, -⟩ := ofLine_eq_ok h
  obtain ⟨hne, hunquoted⟩ := statement?_target hs
  have hcases := ofLine_bindings hs h
  constructor
  case quote => exact ⟨s.quote, hquote, statement?_quote hs⟩
  case target_ne_nil => exact fun hnil => hne (htarget ▸ hnil)
  case unquoted => exact fun c hc => hunquoted c (htarget ▸ hc)
  case renamed =>
    intro b hb
    have hmem : b ∈ r.bindings := hb
    rcases hcases with ⟨hnil, -⟩ | ⟨bs, -, hbindings, -⟩
    · rw [hnil] at hmem
      exact absurd hmem List.not_mem_nil
    · rw [hbindings] at hmem
      obtain ⟨b', -, rfl⟩ := List.mem_map.mp hmem
      exact localName_simplified b'
  case package =>
    intro hdefault
    have hread : r.hasDefault = true := (Bool.and_eq_true_iff.mp hdefault).1
    rcases hcases with ⟨-, hfalse, -⟩ | ⟨bs, -, -, -, hboth⟩
    · rw [hfalse] at hread
      cases hread
    · rw [hboth, Bool.and_eq_true] at hread
      exact hread.symm

/-! ## Texts -/

/-- **What is read from a text reaches the writer well-formed, unless** a member path that is no
name was folded into it, or it is a module as a whole with an indented line in its source. Quote,
module, local names and default are in order in any case. -/
theorem wellFormed_iff_of_mem {content : Text} {r : Requirement} (h : r ∈ (readAll content).value) :
    Located r ∧ ∃ line ∈ occurrences requireLine content, ∃ s : Statement,
      statement? (line.text content) = some s ∧ r.start = some line.start
        ∧ line.text content = r.raw ++ s.rest
        ∧ (WellFormed r ↔ (∀ path ∈ s.path, ProperName path ∨ path = wholeModule)
          ∧ (r.isWholeModule = true → ¬ HasIndentedLine r.raw)) := by
  rw [value_readAll] at h
  obtain ⟨line, hmem, continued, r', hread, rfl⟩ := exists_placed_of_mem h
  obtain ⟨s, hs, -, hsplit, -⟩ := ofLine_eq_ok hread
  have hlocated : Located (placed content line.start continued r') := located_placed hread
  refine ⟨hlocated, line, hmem, s, hs, rfl, hsplit, ?_⟩
  rcases ofLine_bindings hs hread with ⟨hnil, -, hpath, -⟩ | ⟨bs, hdeclared, hbindings, hindent, -⟩
  · -- a module that is only loaded
    have hfalse : (placed content line.start continued r').isWholeModule = false := by
      show r'.isWholeModule = false
      unfold isWholeModule
      rw [hnil]
    refine iff_of_true ⟨hlocated, Or.inl hnil⟩ ⟨by simp [hpath], fun hwhole => ?_⟩
    rw [hfalse] at hwhole
    cases hwhole
  · have hblank : ∀ indent ∈ (placed content line.start continued r').indent,
        indent ≠ [] ∧ ∀ c ∈ indent, isBlank c = true := by
      intro indent hsome
      have hfound : innerIndent? r'.raw = some indent := hindent ▸ hsome
      exact ⟨innerIndent?_ne_nil hfound, fun c hc => isBlank_of_isIndent
        (innerIndent?_eq_some hfound c hc)⟩
    have hnameable := nameable_iff (r := placed content line.start continued r') hdeclared
        hbindings hblank
    have hnone : (placed content line.start continued r').indent = none ↔
        ¬ HasIndentedLine r'.raw := by
      rw [← innerIndent?_eq_none_iff, ← hindent]
      rfl
    rw [hnone] at hnameable
    have hne : r'.bindings ≠ [] := by simpa [hbindings] using hdeclared.ne_nil
    constructor
    · rintro ⟨-, hnil | hform⟩
      · exact absurd hnil hne
      · exact hnameable.mp hform
    · exact fun hcond => ⟨hlocated, Or.inr (hnameable.mpr hcond)⟩

/-- Two statements, the second one with a line break in its call. -/
def brokenCall : Text :=
  "const \x7b a: b \x7d = require('m');\nconst x = require(\n  'x');\n".toList

/-- The module as a whole, as it is read with an indentation. -/
def brokenRequirement : Requirement :=
  ⟨"x".toList, "const x = require(\n  'x');".toList, "'".toList,
    [⟨wholeModule, some "x".toList⟩], false, false, some "  ".toList, some 31⟩

/-- The requirement is read from the text. -/
lemma brokenRequirement_mem : brokenRequirement ∈ (readAll brokenCall).value := by
  have hread : (readAll brokenCall).value.getLast? = some brokenRequirement := by decide
  exact List.mem_of_getLast? hread

/-- The condition, for the requirement of a call that goes over two lines. -/
theorem wellFormed_iff_of_mem_broken :
    brokenRequirement ∈ (readAll brokenCall).value ∧ Located brokenRequirement
      ∧ ∃ line ∈ occurrences requireLine brokenCall, ∃ s : Statement,
        statement? (line.text brokenCall) = some s ∧ brokenRequirement.start = some line.start
          ∧ line.text brokenCall = brokenRequirement.raw ++ s.rest
          ∧ (WellFormed brokenRequirement ↔ (∀ path ∈ s.path, ProperName path ∨ path = wholeModule)
            ∧ (brokenRequirement.isWholeModule = true → ¬ HasIndentedLine brokenRequirement.raw)) :=
  ⟨brokenRequirement_mem, wellFormed_iff_of_mem brokenRequirement_mem⟩

/-- A requirement whose only binding is neither a name nor the module as a whole is not
well-formed. -/
lemma not_wellFormed_of_key {r : Requirement} {b : Binding} {c : Char} (hb : r.bindings = [b])
    (hc : c ∈ b.key) (hname : isNameChar c = false) (hstar : b.key ≠ wholeModule) :
    ¬ WellFormed r := by
  rintro ⟨-, hnil | hnameable⟩
  · rw [hb] at hnil
    cases hnil
  · rcases key_of_nameable hnameable hb with hproper | hwhole
    · exact hproper.not_mem hname hc
    · exact hstar hwhole

/-- **Requirements that are read and cannot be written**: a member path that takes the comma behind
it for a part of the key, and so breaks the declaration up; one with an index; and a call with a
line break. -/
theorem readAll_malformed :
    (∃ r ∈ (readAll "const a = require('a').b,\n  c = require('c');\n".toList).value,
        r.bindings = [⟨"b,".toList, some "a".toList⟩] ∧ ¬ WellFormed r)
      ∧ (∃ r ∈ (readAll "const a = require('a').b[0];\n".toList).value,
        r.bindings = [⟨"b[0]".toList, some "a".toList⟩] ∧ ¬ WellFormed r)
      ∧ ∃ r ∈ (readAll brokenCall).value,
        r.isWholeModule = true ∧ r.indent = some "  ".toList ∧ ¬ WellFormed r := by
  refine ⟨?_, ?_, brokenRequirement, brokenRequirement_mem, by decide, rfl, ?_⟩
  · have hread : (readAll "const a = require('a').b,\n  c = require('c');\n".toList).value.map
        (·.bindings) = [[⟨"b,".toList, some "a".toList⟩]] := by decide
    obtain ⟨r, hr, hb⟩ := List.mem_map.mp (hread ▸ List.mem_singleton_self _)
    exact ⟨r, hr, hb, not_wellFormed_of_key (c := ',') hb (by decide) (by decide) (by decide)⟩
  · have hread : (readAll "const a = require('a').b[0];\n".toList).value.map (·.bindings) =
        [[⟨"b[0]".toList, some "a".toList⟩]] := by decide
    obtain ⟨r, hr, hb⟩ := List.mem_map.mp (hread ▸ List.mem_singleton_self _)
    exact ⟨r, hr, hb, not_wellFormed_of_key (c := '[') hb (by decide) (by decide) (by decide)⟩
  · rintro ⟨-, hnil | hnameable⟩
    · cases hnil
    · exact absurd (indent_of_nameable hnameable (by decide)) (by decide)

end Esmify.Requirement
