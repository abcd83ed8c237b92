import Esmify.Proofs.Infix
import Esmify.Proofs.Lexeme
import Esmify.Requirement.Reader

/-!
# Bindings that a left-hand side declares

**What is accepted is made of names.** A left-hand side that is read is a name, or a brace group
whose members are names, some of them with a local name; a member path may take the place of a key
(`ProperBinding`). So nothing stands in an accepted left-hand side that two characters with a space
between them could be part of, except next to a colon, a comma or the braces
(`readBindings_no_gap`): no import statement can be read as a left-hand side. -/

namespace Esmify.Requirement

open Text Source

/-! ## Well-formed bindings -/

/-- What a key can be: not empty, without white space, semicolon and opening parenthesis. -/
def ProperKey (key : Text) : Prop :=
  key ≠ [] ∧ ∀ c ∈ key, isPathChar c = true ∧ c ≠ '('

/-- A member under its own name, or a key with a local name. -/
def ProperBinding (b : Binding) : Prop :=
  (ProperName b.key ∧ b.localName = none) ∨
    ∃ name, b.localName = some name ∧ ProperName name ∧ ProperKey b.key

/-- A proper name is a proper key. -/
lemma properKey_of_properName {t : Text} (h : ProperName t) : ProperKey t := by
  refine ⟨h.ne_nil, fun c hc => ?_⟩
  have hname := h.forall_isNameChar c hc
  refine ⟨?_, ?_⟩
  · simp only [isPathChar, Bool.and_eq_true, Bool.not_eq_true', bne_iff_ne]
    constructor
    · by_contra hblank
      rw [Bool.not_eq_false] at hblank
      rw [isNameChar_of_isBlank hblank] at hname
      exact absurd hname (by decide)
    · rintro rfl
      exact absurd hname (by decide)
  · rintro rfl
    exact absurd hname (by decide)

/-- A key has no line break. -/
lemma ProperKey.break_not_mem {key : Text} (h : ProperKey key) : '\n' ∉ key := by
  intro hmem
  exact absurd (h.2 _ hmem).1 (by decide)

/-- The key that stands for a whole module is proper. -/
lemma properKey_wholeModule : ProperKey wholeModule :=
  ⟨by decide, by decide⟩

/-- The module as a whole is only bound under a name. -/
lemma ProperBinding.isSome_of_wholeModule {b : Binding} (h : ProperBinding b)
    (hkey : b.key = wholeModule) : b.localName.isSome = true := by
  rcases h with ⟨hproper, -⟩ | ⟨name, hname, -⟩
  · rw [hkey] at hproper
    exact absurd (List.mem_singleton_self '*') (hproper.not_mem (by decide))
  · rw [hname]
    rfl

/-- Leaving out a local name that equals its key keeps a binding well-formed. -/
lemma ProperBinding.simplified {b : Binding} (h : ProperBinding b) :
    ProperBinding (simplified b) := by
  unfold Requirement.simplified
  split_ifs with heq
  · rw [beq_iff_eq] at heq
    rcases h with ⟨hproper, -⟩ | ⟨name, hname, hproper, -⟩
    · exact Or.inl ⟨hproper, rfl⟩
    · rw [hname, Option.some.injEq] at heq
      exact Or.inl ⟨heq ▸ hproper, rfl⟩
  · exact h

/-! ## Members -/

/-- A member of a brace group is a name, or two names around a colon. -/
lemma member?_eq_some {t : Text} {b : Binding} (hbreak : '\n' ∉ t) (h : member? t = some b) :
    ProperName b.key ∧ ∀ name, b.localName = some name → ProperName name := by
  have hproper : ∀ part : Text, (∀ c ∈ part, c ∈ t) → isName (trim part) = true →
      ProperName (trim part) := by
    intro part hpart hname
    exact (isName_iff_of_not_mem fun hmem => hbreak (hpart _ (mem_of_mem_trim hmem))).mp hname
  have hparts : ∀ c, c ∈ (partition ':' (trim t)).1 ∨ c ∈ (partition ':' (trim t)).2.getD [] →
      c ∈ t := by
    intro c hc
    apply mem_of_mem_trim
    rcases partition_cases ':' (trim t) with ⟨-, hcut⟩ | ⟨l, r, -, hsplit, hcut⟩
    · simpa [hcut] using hc
    · rw [hsplit]
      rw [hcut] at hc
      rcases hc with hc | hc
      · exact List.mem_append_left _ hc
      · exact List.mem_append_right _ (List.mem_cons_of_mem _ hc)
  unfold member? at h
  dsimp only at h
  split_ifs at h with hnames hempty
  · obtain ⟨rfl⟩ := Option.some.inj h
    simp only [Bool.or_eq_true, Bool.not_eq_true', not_or, Bool.not_eq_false] at hnames
    exact ⟨hproper _ (fun c hc => hparts c (Or.inl hc)) hnames.1, by simp⟩
  · obtain ⟨rfl⟩ := Option.some.inj h
    simp only [hempty, Bool.or_eq_true, Bool.not_eq_true', not_or, Bool.not_eq_false,
      Bool.not_false, Bool.true_and] at hnames
    refine ⟨hproper _ (fun c hc => hparts c (Or.inl hc)) hnames.1, ?_⟩
    rintro _ ⟨⟩
    exact hproper _ (fun c hc => hparts c (Or.inr hc)) hnames.2

/-- The members of a brace group are names, or pairs of names. -/
lemma members?_eq_some {ts : List Text} {bs : List Binding} (hbreak : ∀ t ∈ ts, '\n' ∉ t)
    (h : members? ts = some bs) :
    ∀ b ∈ bs, ProperName b.key ∧ ∀ name, b.localName = some name → ProperName name := by
  induction ts generalizing bs with
  | nil =>
    rw [members?, Option.some.injEq] at h
    simp [← h]
  | cons t ts ih =>
    rw [List.forall_mem_cons] at hbreak
    rw [members?] at h
    split_ifs at h with hblank
    · exact ih hbreak.2 h
    · cases hmember : member? t with
      | none => simp [hmember] at h
      | some b =>
        rw [hmember] at h
        obtain ⟨bs', hbs', rfl⟩ := Option.map_eq_some_iff.mp h
        rw [List.forall_mem_cons]
        exact ⟨member?_eq_some hbreak.1 hmember, ih hbreak.2 hbs'⟩

/-! ## Left-hand sides -/

/-- A left-hand side without its line breaks is a name, or a brace group with members. -/
lemma readBindings_eq_ok {raw : Text} {bs : List Binding} (h : readBindings raw = .ok bs) :
    (ProperName ((trim raw).filter (· != '\n'))
        ∧ bs = [⟨wholeModule, some ((trim raw).filter (· != '\n'))⟩]) ∨
      ∃ mid, (trim raw).filter (· != '\n') = '\x7b' :: (mid ++ ['\x7d']) ∧ '\x7b' ∉ trim mid
        ∧ members? ((trim mid).splitOn ',') = some bs ∧ bs ≠ [] := by
  unfold readBindings at h
  set value : Text := (trim raw).filter (· != '\n') with hvalue
  have hbreak : '\n' ∉ value := by
    rw [hvalue]
    simp
  dsimp only at h
  split_ifs at h with hbraces hdeep hname
  · right
    simp only [Bool.and_eq_true, beq_iff_eq] at hbraces
    obtain ⟨hfirst, hlast⟩ := hbraces
    obtain ⟨rest, hrest⟩ := List.head?_eq_some_iff.mp hfirst
    obtain ⟨front, hfront⟩ := List.getLast?_eq_some_iff.mp hlast
    obtain ⟨mid, rfl⟩ : ∃ mid, front = '\x7b' :: mid := by
      cases front with
      | nil => simp [hrest] at hfront
      | cons c mid =>
        rw [hrest, List.cons_append, List.cons.injEq] at hfront
        exact ⟨mid, by rw [← hfront.1]⟩
    have hinner : value.slice 1 (value.length - 1) = mid := by
      have hlength : value.length - 1 = 1 + mid.length := by
        simp only [hfront, List.length_append, List.length_cons, List.length_nil]
        omega
      rw [hlength, hfront]
      exact slice_append ['\x7b'] mid ['\x7d']
    rw [hinner] at h hdeep
    refine ⟨mid, hfront, by simpa using hdeep, ?_⟩
    split at h
    · rename_i b bs' hmembers
      obtain ⟨rfl⟩ := Except.ok.inj h
      exact ⟨hmembers, List.cons_ne_nil b bs'⟩
    · exact absurd h (by simp)
  · left
    exact ⟨(isName_iff_of_not_mem hbreak).mp hname, (Except.ok.inj h).symm⟩

/-- A left-hand side declares the module as a whole under a name, or members that are names. -/
lemma readBindings_cases {raw : Text} {bs : List Binding} (h : readBindings raw = .ok bs) :
    (∃ name, ProperName name ∧ bs = [⟨wholeModule, some name⟩]) ∨
      (bs ≠ [] ∧ ∀ b ∈ bs, ProperName b.key ∧ ∀ name, b.localName = some name →
        ProperName name) := by
  rcases readBindings_eq_ok h with ⟨hname, rfl⟩ | ⟨mid, hvalue, -, hmembers, hne⟩
  · exact Or.inl ⟨_, hname, rfl⟩
  · have hbreak : ∀ t ∈ (trim mid).splitOn ',', '\n' ∉ t := by
      intro t ht hmem
      have hmid : '\n' ∈ '\x7b' :: (mid ++ ['\x7d']) := by
        simp [mem_of_mem_trim ((splitOn_parts ht).2 hmem)]
      rw [← hvalue] at hmid
      simp at hmid
    exact Or.inr ⟨hne, members?_eq_some hbreak hmembers⟩

/-- What a left-hand side declares is well-formed. -/
lemma properBinding_of_readBindings {raw : Text} {bs : List Binding}
    (h : readBindings raw = .ok bs) : ∀ b ∈ bs, ProperBinding b := by
  intro b hb
  rcases readBindings_cases h with ⟨name, hname, rfl⟩ | ⟨-, hnames⟩
  · rw [List.mem_singleton.mp hb]
    exact Or.inr ⟨_, rfl, hname, properKey_wholeModule⟩
  · obtain ⟨hkey, hlocal⟩ := hnames b hb
    cases hname : b.localName with
    | none => exact Or.inl ⟨hkey, hname⟩
    | some name => exact Or.inr ⟨name, hname, hlocal name hname, properKey_of_properName hkey⟩

/-- A member path in place of the key keeps the bindings well-formed. -/
lemma properBinding_of_withPath {raw : Text} {bs bs' : List Binding} {path : Option Text}
    (hbs : ∀ b ∈ bs, ProperBinding b)
    (hpath : ∀ p, path = some p → p ≠ [] ∧ ∀ c ∈ p, isPathChar c = true)
    (h : withPath raw bs path = .ok bs') : ∀ b ∈ bs', ProperBinding b := by
  cases path with
  | none => exact Except.ok.inj h ▸ hbs
  | some p =>
    unfold withPath at h
    dsimp only at h
    split_ifs at h with hcall hdeep
    cases bs with
    | nil => exact absurd h (by simp)
    | cons b bs =>
      dsimp only at h
      split_ifs at h with hwhole
      obtain ⟨rfl⟩ := Except.ok.inj h
      rw [beq_iff_eq] at hwhole
      have hb := hbs b List.mem_cons_self
      obtain ⟨hne, hchars⟩ := hpath p rfl
      have hkey : ProperKey p := by
        refine ⟨hne, fun c hc => ⟨hchars c hc, ?_⟩⟩
        rintro rfl
        exact hcall (by simpa using hc)
      rcases hb with ⟨hproper, hnone⟩ | ⟨name, hname, hproper, -⟩
      · exact absurd (ProperBinding.isSome_of_wholeModule (Or.inl ⟨hproper, hnone⟩) hwhole)
          (by simp [hnone])
      · intro b' hb'
        rw [List.mem_singleton.mp hb']
        exact Or.inr ⟨name, hname, hproper, hkey⟩

/-! ## What no left-hand side holds -/

/-- A space between two characters stays when the text is trimmed. -/
lemma gap_trim {t : Text} {x y : Char} (hx : isBlank x = false) (hy : isBlank y = false)
    (h : [x, ' ', y] <:+: t) : [x, ' ', y] <:+: trim t :=
  infix_trim (w := [' ']) hx hy h

/-- A name has no space between two of its characters. -/
lemma not_isName_of_gap {t : Text} {x y : Char} (h : [x, ' ', y] <:+: t) : isName t = false := by
  by_contra hname
  exact space_not_mem_of_isName (by simpa using hname) (h.subset (by simp))

/-- A space in a member of a brace group stands next to white space or the colon. -/
lemma member?_no_gap {t : Text} {b : Binding} {x y : Char} (hx : isBlank x = false)
    (hy : isBlank y = false) (hcolon : ':' ∉ [x, ' ', y]) (h : member? t = some b) :
    ¬ [x, ' ', y] <:+: t := by
  intro hgap
  unfold member? at h
  dsimp only at h
  have hsides : [x, ' ', y] <:+: (partition ':' (trim t)).1
      ∨ [x, ' ', y] <:+: (partition ':' (trim t)).2.getD [] := by
    have htrim := gap_trim hx hy hgap
    rcases partition_cases ':' (trim t) with ⟨-, hcut⟩ | ⟨l, r, -, hsplit, hcut⟩
    · rw [hcut]
      exact Or.inl htrim
    · rw [hcut]
      rw [hsplit] at htrim
      exact infix_append_cons hcolon htrim
  rcases hsides with hside | hside
  · simp [not_isName_of_gap (gap_trim hx hy hside)] at h
  · have hmem := gap_trim hx hy hside
    have hne : (trim ((partition ':' (trim t)).2.getD [])).isEmpty = false := by
      rw [List.isEmpty_eq_false_iff]
      exact List.ne_nil_of_mem (hmem.subset (by simp : x ∈ [x, ' ', y]))
    simp [not_isName_of_gap hmem, hne] at h

/-- A member that is read stands in each part of the brace group that is not blank. -/
lemma exists_member?_of_members? {ts : List Text} {bs : List Binding} (h : members? ts = some bs)
    {t : Text} (ht : t ∈ ts) (hblank : isBlankText t = false) : ∃ b, member? t = some b := by
  induction ts generalizing bs with
  | nil => exact absurd ht (by simp)
  | cons t' ts ih =>
    rw [members?] at h
    split_ifs at h with hblank'
    · rcases List.mem_cons.mp ht with rfl | ht
      · rw [hblank] at hblank'
        exact absurd hblank' (by decide)
      · exact ih h ht
    · cases hmember : member? t' with
      | none => simp [hmember] at h
      | some b =>
        rw [hmember] at h
        obtain ⟨bs', hbs', -⟩ := Option.map_eq_some_iff.mp h
        rcases List.mem_cons.mp ht with rfl | ht
        · exact ⟨b, hmember⟩
        · exact ih hbs' ht

/-- **A space in a left-hand side that is read stands next to white space, a colon, a comma or a
brace.** -/
lemma readBindings_no_gap {raw : Text} {bs : List Binding} {x y : Char} (hx : isBlank x = false)
    (hy : isBlank y = false) (hmarks : ':' ∉ [x, ' ', y] ∧ ',' ∉ [x, ' ', y])
    (hopen : x ≠ '\x7b') (hclose : y ≠ '\x7d') (h : readBindings raw = .ok bs) :
    ¬ [x, ' ', y] <:+: raw := by
  intro hgap
  have hbreak : ∀ c : Char, isBlank c = false → c ≠ '\n' := by
    rintro c hc rfl
    exact absurd hc (by decide)
  have hvalue : [x, ' ', y] <:+: (trim raw).filter (· != '\n') := by
    have hfilter := (gap_trim hx hy hgap).filter (· != '\n')
    rwa [List.filter_eq_self.mpr (by simp [hbreak x hx, hbreak y hy])] at hfilter
  rcases readBindings_eq_ok h with ⟨hname, -⟩ | ⟨mid, hmid, hdeep, hmembers, -⟩
  · exact absurd (hvalue.subset (by simp)) (hname.not_mem (c := ' ') (by decide))
  · rw [hmid] at hvalue
    have hinner : [x, ' ', y] <:+: mid := by
      have hfront := infix_of_infix_append ['\x7b'] (by simpa using hopen) hvalue
      exact infix_of_append_infix (w := [x, ' ']) ['\x7d'] (by simpa using hclose) hfront
    obtain ⟨part, hpart, hgap'⟩ := exists_mem_splitOn hmarks.2 (gap_trim hx hy hinner)
    have hnonblank : isBlankText part = false := by
      rw [isBlankText, List.all_eq_false]
      exact ⟨x, hgap'.subset (by simp), by simp [hx]⟩
    obtain ⟨b, hb⟩ := exists_member?_of_members? hmembers hpart hnonblank
    exact member?_no_gap hx hy hmarks.1 hb hgap'

end Esmify.Requirement
