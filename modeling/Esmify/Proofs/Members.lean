import Esmify.Export.Global
import Esmify.Export.Reader
import Esmify.Proofs.Lexeme

/-!
# Members as they are read

What the two readers of an exported object promise about its members (`GlobalExports.Proper`):
**names are names**, one alone or two around a colon, **and a value with its comment has no line
break at either end**.

Both readers are covered: the one that takes a literal apart at its commas (`addMembers_proper`),
and the one that goes line by line, whose invariant is `BlockReader.Sound`. -/

namespace Esmify

open Text Source

/-! ## Members that are written -/

/-- A text that does not begin with a dot is no spread. -/
lemma spreadName?_eq_none {t : Text} (h : t.head? ≠ some '.') : spreadName? t = none := by
  have hafter : after? "...".toList t = none := by
    rw [Option.eq_none_iff_forall_ne_some]
    rintro rest hrest
    exact h (by rw [after?_eq_some_iff.mp hrest]; rfl)
  rw [spreadName?, wordThenBlanks?, hafter]
  rfl

/-- A name alone is the sole name of its text. -/
lemma soleName?_name (n : Name) : soleName? n.1 = some n.1 := by
  rw [soleName?, name?_eq_some_iff.mpr ⟨n.2, (List.append_nil n.1).symm, by simp⟩]
  rfl

/-- A name is a property. -/
lemma Member.parse_name (n : Name) : Member.parse n.1 = .ok (.property n.1) := by
  have hdot : (n.1).head? ≠ some '.' := fun h =>
    n.2.not_mem (c := '.') (by decide) (List.mem_of_head? h)
  rw [Member.parse, spreadName?_eq_none hdot]
  simp only [soleName?_name]

/-- Three dots and a name stand for the keys of an object. -/
lemma Member.parse_spread (n : Name) : Member.parse ("...".toList ++ n.1) = .ok (.keySet n.1) := by
  obtain ⟨c, rest, hcons, hc⟩ := n.2.firm.first
  have hspread : wordThenBlanks? "...".toList ("...".toList ++ n.1) = some n.1 := by
    rw [wordThenBlanks?_eq_some_iff]
    refine ⟨n.1, rfl, ?_⟩
    rw [hcons, skipBlanks_cons hc]
  rw [Member.parse, spreadName?, hspread]
  simp only [soleName?_name]

/-- The key of a member is read up to the colon. -/
lemma name?_key (key : Name) (v : Text) :
    name? (key.1 ++ (": ".toList ++ v)) = some (key.1, ": ".toList ++ v) := by
  refine name?_eq_some_iff.mpr ⟨key.2, rfl, ?_⟩
  rintro c r hcons
  rw [← (List.cons.inj hcons).1]
  decide

/-- The key and the value of a member that has both. -/
lemma keyValue?_append (key : Name) {v : Text} (hv : Firm v) :
    keyValue? (key.1 ++ (": ".toList ++ v)) = some (key.1, v) := by
  have htrim := hv.trim_append [' '] [] (by decide) (by simp)
  rw [List.append_nil] at htrim
  rw [keyValue?, name?_key]
  exact congrArg (fun v => some (key.1, v)) htrim

/-- A key, a colon and a value are read as such. -/
lemma Member.parse_keyValue (key : Name) {v : Text} (hv : Firm v) :
    Member.parse (key.1 ++ (": ".toList ++ v)) = .ok (Member.ofKeyValue key.1 v) := by
  have hdot : (key.1 ++ (": ".toList ++ v)).head? ≠ some '.' := by
    intro h
    refine key.2.not_mem (c := '.') (by decide) ?_
    rw [List.head?_append_of_ne_nil _ key.2.ne_nil] at h
    exact List.mem_of_head? h
  have hsole : soleName? (key.1 ++ (": ".toList ++ v)) = none := by
    rw [soleName?, name?_key]
    rfl
  rw [Member.parse, spreadName?_eq_none hdot]
  simp only [hsole, keyValue?_append key hv]

/-- A name under a key is a property, which is known by the key alone when both are the same. -/
lemma Member.parse_renamed (key n : Name) : Member.parse (key.1 ++ (": ".toList ++ n.1)) =
    .ok (.property (if n = key then key.1 else key.1 ++ ':' :: n.1)) := by
  rw [Member.parse_keyValue key n.2.firm, Member.ofKeyValue, isName_name]
  by_cases heq : n = key
  · simp [heq]
  · simp [heq, Subtype.val_inj]

/-- Anything else under a key is a value of its own. -/
lemma Member.parse_value (key : Name) {v : Text} (hv : Firm v) (hname : isName v = false) :
    Member.parse (key.1 ++ (": ".toList ++ v)) = .ok (.assignment key.1 v) := by
  have hne : v ≠ key.1 := by
    rintro rfl
    rw [isName_name] at hname
    exact absurd hname (by decide)
  rw [Member.parse_keyValue key hv, Member.ofKeyValue, hname, beq_false_of_ne hne]
  rfl

/-! ## Properties -/

/-- A property as it is read: a name, or two names around a colon. -/
def ProperProperty (property : Text) : Prop :=
  ProperName property ∨ ∃ key value, ProperName key ∧ value ≠ [] ∧ value.getLast? ≠ some '\n'
    ∧ property = key ++ ':' :: value

/-- What a text consists of is a proper name. -/
lemma properName_of_soleName? {t name : Text} (h : soleName? t = some name) : ProperName name := by
  unfold soleName? at h
  split at h
  · rename_i n rest hn
    split_ifs at h
    obtain rfl := Option.some.inj h
    exact (name?_eq_some_iff.mp hn).1
  · exact absurd h (by simp)

/-- A property keeps its name, which is a proper one, or has another name in the file. -/
lemma renamedFrom?_cases {property : Text} (h : ProperProperty property) :
    (ProperName property ∧ renamedFrom? property = none)
      ∨ ∃ value, value.getLast? ≠ some '\n' ∧ renamedFrom? property = some value := by
  rcases h with hname | ⟨key, value, hkey, hne, hlast, rfl⟩
  · left
    rcases partition_cases ':' property with ⟨-, hpart⟩ | ⟨l, r, -, rfl, -⟩
    · exact ⟨hname, by rw [renamedFrom?, hpart]⟩
    · exact absurd (by simp) (hname.not_mem (c := ':') (by decide))
  · right
    obtain ⟨c, cs, rfl⟩ := List.exists_cons_of_ne_nil hne
    rcases partition_cases ':' (key ++ ':' :: c :: cs) with ⟨hno, -⟩ | ⟨l, r, hl, hsplit, hpart⟩
    · exact absurd (by simp) hno
    · obtain ⟨rfl, rfl⟩ := append_cons_inj_left (hkey.not_mem (by decide)) hl hsplit
      exact ⟨c :: cs, hlast, by rw [renamedFrom?, hpart]⟩

/-! ## Members -/

/-- A member as it is read. -/
def Member.Proper : Member → Prop
  | .property name => ProperProperty name
  | .keySet name => ProperName name
  | .assignment _ value => value.getLast? ≠ some '\n'

/-- Without white space around it a text does not end with a line break. -/
lemma getLast?_trim (t : Text) : (trim t).getLast? ≠ some '\n' := by
  obtain ⟨-, -, -, -, -, -, hlast⟩ := trim_split t
  exact fun h => absurd (hlast _ h) (by decide)

/-- The parameters of a method run to the end of its text. -/
lemma plainHead?_suffix {isAsync : Bool} {t : Text} {m : MethodHead}
    (h : plainHead? isAsync t = some m) : m.fromParams ≠ [] ∧ m.fromParams <:+ t := by
  unfold plainHead? at h
  split at h
  next star u hstar =>
  have hu : u <:+ t := by
    split at hstar
    · obtain ⟨-, rfl⟩ := Prod.mk.inj hstar
      exact (skipBlanks_suffix _).trans (List.suffix_cons _ _)
    · obtain ⟨-, rfl⟩ := Prod.mk.inj hstar
      exact List.suffix_rfl
  split at h
  · rename_i name rest hname
    obtain ⟨-, hsplit, -⟩ := name?_eq_some_iff.mp hname
    split at h
    · rename_i cs hcs
      obtain rfl := Option.some.inj h
      refine ⟨List.cons_ne_nil _ _, ?_⟩
      show '(' :: cs <:+ t
      rw [← hcs]
      exact ((skipBlanks_suffix rest).trans ⟨name, hsplit.symm⟩).trans hu
    · exact absurd h (by simp)
  · exact absurd h (by simp)

/-- The parameters of a method begin inside its text. -/
lemma methodHead?_suffix {t : Text} {m : MethodHead} (h : methodHead? t = some m) :
    m.fromParams ≠ [] ∧ m.fromParams <:+ t := by
  rcases Option.or_eq_some_iff.mp h with h | ⟨-, h⟩
  · obtain ⟨rest, hrest, hm⟩ := Option.bind_eq_some_iff.mp h
    obtain ⟨gap, -, -, rfl, -⟩ := spacedWord?_eq_some_iff.mp hrest
    obtain ⟨hne, hsuffix⟩ := plainHead?_suffix hm
    exact ⟨hne, hsuffix.trans ⟨"async".toList ++ gap, List.append_assoc _ _ _⟩⟩
  · exact plainHead?_suffix h

/-- The function that a method becomes ends as the method does. -/
lemma getLast?_asFunction? {t value : Text} {m : MethodHead} (hm : methodHead? t = some m)
    (h : m.asFunction? = some value) : value.getLast? = t.getLast? := by
  obtain ⟨hne, hsuffix⟩ := methodHead?_suffix hm
  unfold MethodHead.asFunction? at h
  split at h
  · split_ifs at h
    all_goals
      obtain rfl := Option.some.inj h
      rw [List.getLast?_append_of_ne_nil _ hne, getLast?_of_suffix hne hsuffix]
  · exact absurd h (by simp)

/-- The value after a key ends with the text. -/
lemma keyValue?_proper {t key value : Text} (h : keyValue? t = some (key, value)) :
    ProperName key ∧ value.getLast? ≠ some '\n' := by
  unfold keyValue? at h
  split at h
  · rename_i name rest hname
    split at h
    · obtain ⟨rfl, rfl⟩ := Prod.mk.inj (Option.some.inj h)
      exact ⟨(name?_eq_some_iff.mp hname).1, getLast?_trim _⟩
    · exact absurd h (by simp)
  · exact absurd h (by simp)

/-- A key and a value make a proper member. -/
lemma Member.ofKeyValue_proper {key value : Text} (hkey : ProperName key)
    (hvalue : value.getLast? ≠ some '\n') : (Member.ofKeyValue key value).Proper := by
  unfold Member.ofKeyValue
  split_ifs with heq hname
  · exact Or.inl hkey
  · refine Or.inr ⟨key, value, hkey, ?_, hvalue, rfl⟩
    rintro rfl
    exact absurd hname (by decide)
  · exact hvalue

/-- **A member is read as it should be** from a text that does not end with a line break. -/
lemma Member.parse_proper {t : Text} {m : Member} (ht : t.getLast? ≠ some '\n')
    (h : Member.parse t = .ok m) : m.Proper := by
  unfold Member.parse at h
  split at h
  · rename_i name hname
    obtain rfl := Except.ok.inj h
    unfold spreadName? at hname
    split at hname
    · exact properName_of_soleName? hname
    · exact absurd hname (by simp)
  · split at h
    · rename_i name hname
      obtain rfl := Except.ok.inj h
      exact Or.inl (properName_of_soleName? hname)
    · split at h
      · rename_i key value hkv
        obtain rfl := Except.ok.inj h
        obtain ⟨hkey, hvalue⟩ := keyValue?_proper hkv
        exact Member.ofKeyValue_proper hkey hvalue
      · split at h
        · rename_i head hhead
          split at h
          · rename_i value hvalue
            obtain rfl := Except.ok.inj h
            show value.getLast? ≠ some '\n'
            rw [getLast?_asFunction? hhead hvalue]
            exact ht
          · exact absurd h (by simp)
        · exact absurd h (by simp)

/-! ## Exported objects -/

/-- A member with a value, as it is read. -/
def Assignment.Proper (a : Assignment) : Prop :=
  a.value.getLast? ≠ some '\n' ∧ (a.comment.getD []).head? ≠ some '\n'

/-- Global exports whose members are as they are read. -/
structure GlobalExports.Proper (e : GlobalExports) : Prop where
  properties : ∀ p ∈ e.properties, ProperProperty p
  keySets : ∀ k ∈ e.keySets, ProperName k
  assignments : ∀ a ∈ e.assignments, a.Proper

/-- No exports at all are proper. -/
lemma GlobalExports.proper_empty : ({} : GlobalExports).Proper :=
  ⟨by simp, by simp, by simp⟩

/-- Proper exports stay proper when a proper member is added. -/
lemma GlobalExports.Proper.add {e : GlobalExports} (he : e.Proper) {comment : Option Text}
    (hcomment : (comment.getD []).head? ≠ some '\n') {m : Member} (hm : m.Proper) :
    (e.add comment m).Proper := by
  cases m with
  | property name =>
    exact ⟨List.forall_mem_append.mpr ⟨he.properties, List.forall_mem_singleton.mpr hm⟩, he.keySets,
      he.assignments⟩
  | keySet name =>
    exact ⟨he.properties, List.forall_mem_append.mpr ⟨he.keySets, List.forall_mem_singleton.mpr hm⟩,
      he.assignments⟩
  | assignment key value =>
    refine ⟨he.properties, he.keySets, List.forall_mem_append.mpr ⟨he.assignments, ?_⟩⟩
    exact List.forall_mem_singleton.mpr ⟨hm, hcomment⟩

/-- The members of a literal that is taken apart at its commas. -/
lemma addMembers_proper {pieces : List Text} {e e' : GlobalExports} (he : e.Proper)
    (h : addMembers e pieces = .ok e') : e'.Proper := by
  induction pieces generalizing e with
  | nil => exact Except.ok.inj h ▸ he
  | cons piece pieces ih =>
    rw [addMembers] at h
    split_ifs at h
    · exact ih he h
    · split at h
      · rename_i m hm
        exact ih (he.add (by simp) (Member.parse_proper (getLast?_trim _) hm)) h
      · exact absurd h (by simp)

/-! ## Lines -/

/-- What is stripped of comments keeps its code. -/
lemma mem_stripFrom {m : Mode} {offset : Nat} {t : Text} :
    ∀ p ∈ codeChars m offset t, p.2 ∈ stripFrom m t := by
  induction t generalizing m offset with
  | nil => simp [codeChars]
  | cons c cs ih =>
    intro p hp
    rw [codeChars] at hp
    rw [stripFrom]
    cases hstep : m.step c cs.head? with
    | mk region m' =>
      rw [hstep] at hp
      cases region with
      | code =>
        rcases List.mem_cons.mp hp with rfl | hp
        · exact List.mem_cons_self
        · exact List.mem_cons_of_mem _ (ih p hp)
      | comment => exact ih p hp
      | literal => exact List.mem_cons_of_mem _ (ih p hp)

/-- A text that closes more brackets than it opens has a closing one in code. -/
lemma exists_closer {t : Text} (h : bracketDepth t < 0) :
    ∃ c ∈ stripComments t, isCloser c = true := by
  have hfold : ∀ (ps : List (Nat × Char)) (depth : Int),
      ps.foldl (fun depth p => depth + bracketStep p.2) depth < depth →
        ∃ p ∈ ps, isCloser p.2 = true := by
    intro ps
    induction ps with
    | nil => intro depth h; exact absurd h (Int.lt_irrefl _)
    | cons p ps ih =>
      intro depth h
      by_cases hp : isCloser p.2 = true
      · exact ⟨p, List.mem_cons_self, hp⟩
      · have hstep : 0 ≤ bracketStep p.2 := by
          unfold bracketStep
          split_ifs <;> omega
        obtain ⟨q, hq, hcloser⟩ := ih (depth + bracketStep p.2)
          (by rw [List.foldl_cons] at h; omega)
        exact ⟨q, List.mem_cons_of_mem _ hq, hcloser⟩
  obtain ⟨p, hp, hcloser⟩ := hfold _ 0 h
  exact ⟨p.2, mem_stripFrom p hp, hcloser⟩

/-- A text is what it is without the white space at its end, and that white space. -/
lemma trimEnd_split (t : Text) :
    ∃ ending, (∀ c ∈ ending, isBlank c = true) ∧ t = trimEnd t ++ ending
    ∧ ∀ c, (trimEnd t).getLast? = some c → isBlank c = false :=
  dropEndWhile_split isBlank t

/-- What is cut off at the end is white space. -/
lemma mem_trimEnd {t : Text} {c : Char} (hc : isBlank c = false) (h : c ∈ t) : c ∈ trimEnd t := by
  obtain ⟨ending, hending, hsplit, -⟩ := trimEnd_split t
  rw [hsplit] at h
  rcases List.mem_append.mp h with h | h
  · exact h
  · exact absurd (hending c h) (by simp [hc])

/-- A closing bracket is neither white space nor a comma. -/
lemma isBlank_of_isCloser {c : Char} (h : isCloser c = true) : isBlank c = false ∧ c ≠ ',' := by
  simp only [isCloser, Bool.or_eq_true, beq_iff_eq] at h
  rcases h with (rfl | rfl) | rfl
  all_goals decide

/-- The last line of a value ends it: neither nothing nor a line break is left of it. -/
lemma lastLine_proper {line : Text} (h : bracketDepth line < 0) :
    BlockReader.lastLine line ≠ [] ∧ (BlockReader.lastLine line).getLast? ≠ some '\n' := by
  obtain ⟨c, hc, hcloser⟩ := exists_closer h
  obtain ⟨hblank, hcomma⟩ := isBlank_of_isCloser hcloser
  have hbare := mem_trimEnd hblank hc
  have hlast : ∀ t : Text, (trimEnd t).getLast? ≠ some '\n' := by
    intro t heq
    obtain ⟨-, -, -, hlast⟩ := trimEnd_split t
    exact absurd (hlast _ heq) (by decide)
  unfold BlockReader.lastLine
  dsimp only
  split_ifs with hends
  · refine ⟨List.ne_nil_of_mem (mem_trimEnd hblank ?_), hlast _⟩
    obtain ⟨front, hfront⟩ := List.getLast?_eq_some_iff.mp (eq_of_beq hends)
    rw [hfront] at hbare ⊢
    rw [List.dropLast_concat]
    exact (List.mem_append.mp hbare).resolve_right (by simpa using hcomma)
  · exact ⟨List.ne_nil_of_mem hbare, hlast _⟩

/-- The last of several lines ends them. -/
lemma getLast?_unlines {lines : List Text} {line : Text} (hne : line ≠ []) :
    (unlines (lines ++ [line])).getLast? = line.getLast? := by
  induction lines with
  | nil => simp [unlines]
  | cons first lines ih =>
    unfold unlines at ih ⊢
    cases lines with
    | nil =>
      rw [List.singleton_append, List.intercalate_cons_cons, List.intercalate_singleton]
      exact List.getLast?_append_of_ne_nil _ hne
    | cons second lines =>
      rw [List.cons_append, List.cons_append, List.intercalate_cons_cons, ← List.cons_append]
      rw [List.getLast?_append_of_ne_nil _ ?_, ih]
      rw [← List.getLast?_isSome, ih, List.getLast?_isSome]
      exact hne

/-! ## The line reader -/

namespace BlockReader

/-- **The invariant of the line reader**: its members are proper, its comments are lines of which
the first is not empty, a comment that it is inside of has begun, and a value that it is inside of
has a bracket open. -/
structure Sound (r : BlockReader) : Prop where
  exports : r.exports.Proper
  comments : ∀ c ∈ r.comments, '\n' ∉ c
  first : r.comments.head? ≠ some []
  comment : r.state = .comment → r.comments ≠ []
  depth : ∀ key lines depth, r.state = .block key lines depth → 0 < depth

variable {r r' : BlockReader}

/-- Between members a reader is sound when its exports and its comments are. -/
lemma sound_of_scanning (hstate : r.state = .scanning) (hexports : r.exports.Proper)
    (hcomments : ∀ c ∈ r.comments, '\n' ∉ c) (hfirst : r.comments.head? ≠ some []) : r.Sound :=
  ⟨hexports, hcomments, hfirst, fun h => absurd (hstate.symm.trans h) (by simp),
    fun _ _ _ h => absurd (hstate.symm.trans h) (by simp)⟩

/-- The waiting comments do not begin with a line break. -/
lemma Sound.head?_comment? (hr : r.Sound) : (r.comment?.getD []).head? ≠ some '\n' := by
  unfold comment?
  split_ifs with hempty
  · simp
  · cases hlist : r.comments with
    | nil => simp [hlist] at hempty
    | cons c cs =>
      have hne : c ≠ [] := fun h => hr.first (by rw [hlist, h]; rfl)
      have hbreak : '\n' ∉ c := hr.comments c (by rw [hlist]; exact List.mem_cons_self)
      obtain ⟨x, xs, rfl⟩ := List.exists_cons_of_ne_nil hne
      have hhead : (unlines ((x :: xs) :: cs)).head? = some x := by
        cases cs <;> simp [unlines]
      rw [Option.getD_some, hhead, ne_eq, Option.some.injEq]
      rintro rfl
      exact hbreak List.mem_cons_self

/-- A proper member keeps the reader sound. -/
lemma Sound.addMember (hr : r.Sound) (hstate : r.state = .scanning) {m : Member} (hm : m.Proper) :
    (r.addMember m).Sound ∧ (r.addMember m).state = .scanning := by
  have hnone : ((none : Option Text).getD []).head? ≠ some '\n' := by simp
  cases m with
  | assignment key value =>
    exact ⟨sound_of_scanning hstate (hr.exports.add hr.head?_comment? hm)
      (by simp [BlockReader.addMember]) (by simp [BlockReader.addMember]), hstate⟩
  | property name =>
    exact ⟨sound_of_scanning hstate (hr.exports.add hnone hm) hr.comments hr.first, hstate⟩
  | keySet name =>
    exact ⟨sound_of_scanning hstate (hr.exports.add hnone hm) hr.comments hr.first, hstate⟩

/-- So do pieces that end on their lines. -/
lemma Sound.addPieces {pieces : List Text} (hr : r.Sound) (hstate : r.state = .scanning)
    (hpieces : ∀ p ∈ pieces, p.getLast? ≠ some '\n') (h : r.addPieces pieces = .ok r') :
    r'.Sound ∧ r'.state = .scanning := by
  induction pieces generalizing r with
  | nil => exact Except.ok.inj h ▸ ⟨hr, hstate⟩
  | cons p pieces ih =>
    obtain ⟨hp, hpieces⟩ := List.forall_mem_cons.mp hpieces
    rw [BlockReader.addPieces, addPiece] at h
    cases hm : Member.parse p with
    | error e => simp [hm] at h
    | ok m =>
      simp only [hm] at h
      obtain ⟨hr', hstate'⟩ := hr.addMember hstate (Member.parse_proper hp hm)
      exact ih hr' hstate' hpieces h

/-- A line of members. -/
lemma Sound.startMember {body : Text} (hr : r.Sound) (hstate : r.state = .scanning)
    (h : r.startMember body = .ok r') : r'.Sound := by
  have hpieces : ∀ p ∈ ((splitTopLevel (trim (stripComments body)) ',').map trim).filter
      fun p => !p.isEmpty, p.getLast? ≠ some '\n' := by
    intro p hp
    obtain ⟨u, -, rfl⟩ := List.mem_map.mp (List.mem_filter.mp hp).1
    exact getLast?_trim u
  unfold BlockReader.startMember at h
  dsimp only at h
  split_ifs at h with hneg hzero
  · split at h
    · rename_i r₁ hadd
      obtain ⟨hr₁, hstate₁⟩ := hr.addPieces hstate hpieces hadd
      obtain rfl := Except.ok.inj h
      exact sound_of_scanning hstate₁ hr₁.exports (by simp) (by simp)
    · exact absurd h (by simp)
  · split at h
    · rename_i r₁ hadd
      obtain ⟨hr₁, -⟩ := hr.addPieces hstate
        (fun p hp => hpieces p ((List.dropLast_sublist _).subset hp)) hadd
      split at h
      · obtain rfl := Except.ok.inj h
        refine ⟨hr₁.exports, hr₁.comments, hr₁.first, by simp, ?_⟩
        rintro key lines depth ⟨⟩
        omega
      · exact absurd h (by simp)
    · exact absurd h (by simp)

/-- A line that goes on with a value; the one that closes it has a closing bracket. -/
lemma Sound.continueBlock {key body : Text} {lines : List Text} {depth : Int} (hr : r.Sound)
    (hstate : r.state = .block key lines depth)
    (h : r.continueBlock key lines depth body = .ok r') :
    r'.Sound := by
  have hdepth := hr.depth _ _ _ hstate
  unfold BlockReader.continueBlock at h
  dsimp only at h
  split_ifs at h with hneg hzero
  · obtain rfl := Except.ok.inj h
    have hcloses : bracketDepth body < 0 := by omega
    obtain ⟨hne, hlast⟩ := lastLine_proper hcloses
    have hvalue : (Member.assignment key (unlines ((lines ++ [body]).dropLast
        ++ [lastLine ((lines ++ [body]).getLast?.getD [])]))).Proper := by
      rw [List.dropLast_concat, List.getLast?_concat, Option.getD_some, Member.Proper,
        getLast?_unlines hne]
      exact hlast
    exact sound_of_scanning rfl (hr.exports.add hr.head?_comment? hvalue) (by simp [flush])
      (by simp [flush])
  · obtain rfl := Except.ok.inj h
    refine ⟨hr.exports, hr.comments, hr.first, by simp, ?_⟩
    rintro key lines depth ⟨⟩
    omega

/-- A line while the reader looks for the next member. -/
lemma Sound.scanLine {body : Text} (hr : r.Sound) (hstate : r.state = .scanning)
    (hbody : '\n' ∉ body) (h : r.scanLine body = .ok r') : r'.Sound := by
  have hcomments : ∀ c ∈ r.comments ++ [body], '\n' ∉ c :=
    List.forall_mem_append.mpr ⟨hr.comments, List.forall_mem_singleton.mpr hbody⟩
  have hfirst : body ≠ [] → (r.comments ++ [body]).head? ≠ some [] := by
    intro hne
    rw [List.head?_append]
    cases hhead : r.comments.head? with
    | none => simpa using hne
    | some c => exact fun h => hr.first (hhead.trans h)
  have hne : LineKind.of body ≠ .blank → body ≠ [] := by
    rintro hkind rfl
    exact hkind rfl
  unfold BlockReader.scanLine at h
  cases hkind : LineKind.of body with
  | blank =>
    simp only [hkind, Except.ok.injEq] at h
    exact h ▸ hr
  | lineComment =>
    simp only [hkind, Except.ok.injEq] at h
    subst h
    exact sound_of_scanning hstate hr.exports hcomments (hfirst (hne (by simp [hkind])))
  | commentStart =>
    simp only [hkind, Except.ok.injEq] at h
    subst h
    split_ifs
    · exact sound_of_scanning hstate hr.exports hcomments (hfirst (hne (by simp [hkind])))
    · exact ⟨hr.exports, hcomments, hfirst (hne (by simp [hkind])), by simp, by simp⟩
  | blockEnd => simp [hkind] at h
  | continuation => simp [hkind] at h
  | member =>
    simp only [hkind] at h
    exact hr.startMember hstate h

/-- A line outside comments has no other line breaks than the text does. -/
lemma not_mem_bodyOf {line body : Text} (hline : '\n' ∉ line) (h : r.bodyOf line = .ok body) :
    '\n' ∉ body := by
  unfold bodyOf at h
  split_ifs at h
  · exact Except.ok.inj h ▸ by simp
  · split at h
    · rename_i rest hrest
      obtain rfl := Except.ok.inj h
      obtain ⟨ending, -, hsplit, -⟩ := trimEnd_split rest
      intro hmem
      refine hline ?_
      rw [after?_eq_some_iff.mp hrest, hsplit]
      simp [hmem]
    · exact absurd h (by simp)

/-- A line of a comment stays one line. -/
lemma not_mem_dedent {line : Text} (hline : '\n' ∉ line) : '\n' ∉ r.dedent line := by
  have hend : ∀ t : Text, '\n' ∈ trimEnd t → '\n' ∈ t := by
    intro t hmem
    obtain ⟨ending, -, hsplit, -⟩ := trimEnd_split t
    rw [hsplit]
    exact List.mem_append_left _ hmem
  intro hmem
  refine hline ?_
  unfold dedent at hmem
  have hmem := hend _ hmem
  cases hafter : after? r.indent line with
  | none =>
    rw [hafter] at hmem
    exact mem_of_mem_trim hmem
  | some rest =>
    rw [hafter] at hmem
    rw [after?_eq_some_iff.mp hafter]
    exact List.mem_append_right _ hmem

/-- **One line keeps the invariant.** -/
lemma Sound.feed {line : Text} (hr : r.Sound) (hline : '\n' ∉ line) (h : r.feed line = .ok r') :
    r'.Sound := by
  unfold BlockReader.feed at h
  cases hstate : r.state with
  | comment =>
    simp only [hstate, Except.ok.injEq] at h
    have hcomments : ∀ c ∈ r.comments ++ [r.dedent line], '\n' ∉ c :=
      List.forall_mem_append.mpr ⟨hr.comments, List.forall_mem_singleton.mpr (not_mem_dedent hline)⟩
    have hfirst : (r.comments ++ [r.dedent line]).head? ≠ some [] := by
      obtain ⟨c, cs, hlist⟩ := List.exists_cons_of_ne_nil (hr.comment hstate)
      have hold := hr.first
      rw [hlist] at hold ⊢
      exact hold
    subst h
    split_ifs
    · exact sound_of_scanning rfl hr.exports hcomments hfirst
    · exact ⟨hr.exports, hcomments, hfirst, by simp, by simp⟩
  | scanning =>
    simp only [hstate] at h
    split at h
    · rename_i body hbody
      exact hr.scanLine hstate (not_mem_bodyOf hline hbody) h
    · exact absurd h (by simp)
  | block key lines depth =>
    simp only [hstate] at h
    split at h
    · rename_i body hbody
      unfold blockLine at h
      split at h
      · exact absurd h (by simp)
      · exact hr.continueBlock hstate h
    · exact absurd h (by simp)

/-- **All lines keep the invariant.** -/
lemma Sound.feedAll {lines : List Text} (hr : r.Sound) (hlines : ∀ line ∈ lines, '\n' ∉ line)
    (h : r.feedAll lines = .ok r') : r'.Sound := by
  induction lines generalizing r with
  | nil => exact Except.ok.inj h ▸ hr
  | cons line lines ih =>
    obtain ⟨hline, hlines⟩ := List.forall_mem_cons.mp hlines
    rw [BlockReader.feedAll] at h
    split at h
    · rename_i r₁ hfeed
      exact ih (hr.feed hline hfeed) hlines h
    · exact absurd h (by simp)

end BlockReader

/-! ## Texts -/

/-- The members of an object that is read line by line. -/
lemma readBlock_proper {inner : Text} {e : GlobalExports} (h : readBlock inner = .ok e) :
    e.Proper := by
  have hlines : ∀ line ∈ inner.lines.tail, '\n' ∉ line := fun line hline =>
    (splitOn_parts (List.mem_of_mem_tail hline)).1
  unfold readBlock at h
  simp only [bind, Except.bind] at h
  split at h
  · exact absurd h (by simp)
  rename_i opened hopened
  split at h
  · exact absurd h (by simp)
  split at h
  · exact absurd h (by simp)
  rename_i read hread
  have hstart : opened.Sound := by
    have hempty : ({} : BlockReader).Sound :=
      BlockReader.sound_of_scanning rfl GlobalExports.proper_empty (by simp) (by simp)
    unfold BlockReader.feedHead at hopened
    split_ifs at hopened
    · exact Except.ok.inj hopened ▸ hempty
    · exact hempty.startMember rfl hopened
  have hindent : ∀ indent, ({ opened with indent } : BlockReader).Sound := fun indent =>
    ⟨hstart.exports, hstart.comments, hstart.first, hstart.comment, hstart.depth⟩
  have hend := (hindent _).feedAll hlines hread
  unfold BlockReader.finish at h
  split at h
  · exact Except.ok.inj h ▸ hend.exports
  · exact absurd h (by simp)
  · exact absurd h (by simp)

/-- The members between the braces of an exported object. -/
lemma readLiteral_proper {inner snippet : Text} {experimental : Bool} {e : GlobalExports}
    (h : readLiteral inner snippet experimental = .ok e) : e.Proper := by
  unfold readLiteral at h
  dsimp only at h
  split at h
  · split_ifs at h
    exact readBlock_proper h
  · split at h
    · rename_i e' hmembers
      exact Except.ok.inj h ▸ addMembers_proper GlobalExports.proper_empty hmembers
    · exact absurd h (by simp)

/-- The names of merged objects. -/
lemma mergedObjects_names {pieces names : List Text} {inner : Option Text}
    (h : mergedObjects pieces = some (names, inner)) : ∀ name ∈ names, ProperName name := by
  induction pieces generalizing names inner with
  | nil =>
    obtain ⟨rfl, -⟩ := Prod.mk.inj (Option.some.inj h)
    simp
  | cons piece pieces ih =>
    unfold mergedObjects at h
    dsimp only at h
    split_ifs at h
    · split at h
      · obtain ⟨close, -, hclose⟩ := Option.map_eq_some_iff.mp h
        obtain ⟨rfl, -⟩ := Prod.mk.inj hclose
        simp
      · exact absurd h (by simp)
    · split at h
      · rename_i name hname
        obtain ⟨⟨names', inner'⟩, hrest, hnames⟩ := Option.map_eq_some_iff.mp h
        obtain ⟨rfl, -⟩ := Prod.mk.inj hnames
        exact List.forall_mem_cons.mpr ⟨properName_of_soleName? hname, ih hrest⟩
      · exact absurd h (by simp)

/-- An exported object has proper members. -/
lemma readObject_proper {content : Text} {m : Occurrence Text} {experimental : Bool}
    {e : GlobalExports} (h : readObject content m experimental = .ok e) : e.Proper := by
  unfold readObject at h
  dsimp only at h
  split at h
  · exact absurd h (by simp)
  · split at h
    · rename_i e' hliteral
      obtain ⟨hproperties, hkeySets, hassignments⟩ := readLiteral_proper hliteral
      exact Except.ok.inj h ▸ ⟨hproperties, hkeySets, hassignments⟩
    · exact absurd h (by simp)

/-- So do merged objects. -/
lemma readMerge_proper {content : Text} {m : Occurrence Text} {experimental : Bool}
    {e : GlobalExports} (h : readMerge content m experimental = .ok e) : e.Proper := by
  unfold readMerge at h
  dsimp only at h
  split at h
  · exact absurd h (by simp)
  · split_ifs at h
    split at h
    · exact absurd h (by simp)
    · rename_i names hmerged
      exact Except.ok.inj h ▸ ⟨by simp, mergedObjects_names hmerged, by simp⟩
    · rename_i names inner hmerged
      split at h
      · rename_i e' hliteral
        obtain ⟨hproperties, hkeySets, hassignments⟩ := readLiteral_proper hliteral
        exact Except.ok.inj h ▸ ⟨hproperties,
          List.forall_mem_append.mpr ⟨mergedObjects_names hmerged, hkeySets⟩, hassignments⟩
      · exact absurd h (by simp)

/-- A value that is exported as a whole has no members that could be improper. -/
lemma readDirect_proper {content : Text} {m : Occurrence Unit} {e : GlobalExports}
    (h : readDirect content m = .ok e) : e.Proper := by
  unfold readDirect at h
  dsimp only at h
  split_ifs at h
  · exact Except.ok.inj h ▸ GlobalExports.proper_empty
  · exact Except.ok.inj h ▸ ⟨by simp, by simp, by simp⟩

/-- **The members of a text are proper.** -/
theorem read_proper (content : Text) (experimental : Bool) :
    (GlobalExports.read content experimental).value.Proper := by
  unfold GlobalExports.read
  cases hfind : findGlobal content experimental with
  | error r => exact GlobalExports.proper_empty
  | ok e =>
    show e.Proper
    unfold findGlobal at hfind
    split at hfind
    · exact readObject_proper hfind
    · split at hfind
      · exact readMerge_proper hfind
      · split at hfind
        · exact readDirect_proper hfind
        · exact Except.ok.inj hfind ▸ GlobalExports.proper_empty

end Esmify
