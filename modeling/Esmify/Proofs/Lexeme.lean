import Esmify.Proofs.Text
import Esmify.Source.Lexeme

/-!
# Names and spacing, read back

What the smallest readers recognise, said by the text they were given. **A proper name** is a name
without the line break that `isName` tolerates at the end; `name?_eq_some_iff` and `isName_iff` say
that the readers of names accept exactly these, and `wordThenBlanks?_eq_some_iff` what a word with
the white space behind it is.
-/

namespace Esmify.Source

open Text

/-! ## Words and white space -/

/-- Passing over white space that is there changes nothing. -/
lemma skipBlanks_append {blanks : Text} (h : ∀ c ∈ blanks, isBlank c = true) (t : Text) :
    skipBlanks (blanks ++ t) = skipBlanks t := by
  unfold skipBlanks
  exact List.dropWhile_append_of_pos h

/-- What a line is indented with is white space. -/
lemma isBlank_of_isIndent {c : Char} (h : isIndent c = true) : isBlank c = true := by
  simp only [isIndent, Bool.or_eq_true, beq_iff_eq] at h
  rcases h with rfl | rfl
  · decide
  · decide

/-- Nothing is passed over in front of a character that is not white space. -/
lemma skipBlanks_cons {c : Char} (h : isBlank c = false) (t : Text) :
    skipBlanks (c :: t) = c :: t := by
  unfold skipBlanks
  exact List.dropWhile_cons_of_neg (by simp [h])

/-- What follows white space and then a given other character. -/
lemma skipBlanks_eq_cons_iff {t rest : Text} {c : Char} (hc : isBlank c = false) :
    skipBlanks t = c :: rest ↔ ∃ blanks, (∀ x ∈ blanks, isBlank x = true)
      ∧ t = blanks ++ c :: rest := by
  constructor
  · intro h
    obtain ⟨blanks, hblanks, hsplit, -⟩ := dropWhile_split isBlank t
    refine ⟨blanks, hblanks, ?_⟩
    rwa [show t.dropWhile isBlank = c :: rest from h] at hsplit
  · rintro ⟨blanks, hblanks, rfl⟩
    rw [skipBlanks_append hblanks, skipBlanks_cons hc]

/-- A word at the front is followed by white space that is passed over. -/
lemma wordThenBlanks?_eq_some_iff {word t rest : Text} :
    wordThenBlanks? word t = some rest ↔ ∃ t', t = word ++ t' ∧ rest = skipBlanks t' := by
  unfold wordThenBlanks?
  rw [Option.map_eq_some_iff]
  constructor
  · rintro ⟨t', hafter, rfl⟩
    exact ⟨t', after?_eq_some_iff.mp hafter, rfl⟩
  · rintro ⟨t', rfl, rfl⟩
    exact ⟨t', after?_eq_some_iff.mpr rfl, rfl⟩

/-- A character at the front that may be missing is passed over once. -/
lemma skipOne_eq (c : Char) (t : Text) : t = c :: skipOne c t ∨ t = skipOne c t := by
  unfold skipOne
  cases h : after? [c] t with
  | none => exact Or.inr rfl
  | some rest => exact Or.inl (after?_eq_some_iff.mp h)

/-! ## Names -/

/-- A name, with nothing behind it. -/
def ProperName (t : Text) : Prop :=
  ∃ c cs, t = c :: cs ∧ isNameStart c = true ∧ ∀ x ∈ cs, isNameChar x = true

/-- A name goes on with what it may begin with. -/
lemma isNameChar_of_isNameStart {c : Char} (h : isNameStart c = true) : isNameChar c = true := by
  simp only [isNameStart, Bool.or_eq_true, beq_iff_eq] at h
  rcases h with (h | rfl) | rfl
  · have hlt : c.toNat < 128 := by
      have hcase : c.isUpper = true ∨ c.isLower = true := Bool.or_eq_true_iff.mp h
      rcases hcase with hupper | hlower
      · have hle : c.val ≤ 'Z'.val := (of_decide_eq_true hupper).2
        exact Nat.lt_of_le_of_lt (UInt32.le_iff_toNat_le.mp hle) (by decide)
      · have hle : c.val ≤ 'z'.val := of_decide_eq_true (Bool.and_eq_true_iff.mp hlower).2
        exact Nat.lt_of_le_of_lt (UInt32.le_iff_toNat_le.mp hle) (by decide)
    simp [isNameChar, isWord, hlt, isAsciiWord, Char.isAlphanum, h]
  · decide
  · decide

/-- The code points of white space. -/
def blankCodes : List Nat :=
  [9, 10, 11, 12, 13, 28, 29, 30, 31, 32, 0x85, 0xa0, 0x1680, 0x2000, 0x2001, 0x2002, 0x2003,
    0x2004, 0x2005, 0x2006, 0x2007, 0x2008, 0x2009, 0x200a, 0x2028, 0x2029, 0x202f, 0x205f, 0x3000]

/-- White space is never part of a name. -/
lemma isNameChar_of_isBlank {c : Char} (h : isBlank c = true) : isNameChar c = false := by
  have hcodes : ∀ n ∈ blankCodes, isNameChar (Char.ofNat n) = false := by decide +kernel
  have hmem : c.toNat ∈ blankCodes := by
    simp only [isBlank, Bool.or_eq_true, Bool.and_eq_true, decide_eq_true_iff, beq_iff_eq] at h
    simp only [blankCodes, List.mem_cons]
    omega
  have hfalse := hcodes c.toNat hmem
  rwa [Char.ofNat_toNat] at hfalse

/-- A proper name has only characters of names. -/
lemma ProperName.forall_isNameChar {t : Text} (h : ProperName t) :
    ∀ c ∈ t, isNameChar c = true := by
  obtain ⟨c, cs, rfl, hc, hcs⟩ := h
  intro x hx
  rcases List.mem_cons.mp hx with rfl | hx
  · exact isNameChar_of_isNameStart hc
  · exact hcs x hx

/-- What cannot be part of a name is not in a name. -/
lemma ProperName.not_mem {t : Text} (h : ProperName t) {c : Char} (hc : isNameChar c = false) :
    c ∉ t := by
  intro hmem
  rw [h.forall_isNameChar c hmem] at hc
  exact absurd hc (by decide)

/-- A proper name is not empty. -/
lemma ProperName.ne_nil {t : Text} (h : ProperName t) : t ≠ [] := by
  obtain ⟨c, cs, rfl, -⟩ := h
  exact List.cons_ne_nil c cs

/-- A name has no white space in it. -/
lemma ProperName.firm {t : Text} (h : ProperName t) : Firm t := by
  have hchars : ∀ c ∈ t, isBlank c = false := by
    intro c hc
    by_contra hblank
    rw [Bool.not_eq_false] at hblank
    exact h.not_mem (isNameChar_of_isBlank hblank) hc
  constructor
  case first =>
    obtain ⟨c, rest, rfl⟩ := List.exists_cons_of_ne_nil h.ne_nil
    exact ⟨c, rest, rfl, hchars c List.mem_cons_self⟩
  case last =>
    refine ⟨t.dropLast, t.getLast h.ne_nil, (List.dropLast_append_getLast h.ne_nil).symm, ?_⟩
    exact hchars _ (List.getLast_mem h.ne_nil)

/-- The name at the front of a text is a proper one, and ends where it must. -/
lemma name?_eq_some_iff {t name rest : Text} :
    name? t = some (name, rest) ↔
      ProperName name ∧ t = name ++ rest ∧ ∀ c r, rest = c :: r → isNameChar c = false := by
  constructor
  · intro h
    cases t with
    | nil => exact absurd h (by simp [name?])
    | cons c cs =>
      rw [name?] at h
      split_ifs at h with hc
      simp only [Option.some.injEq, Prod.mk.injEq] at h
      obtain ⟨rfl, rfl⟩ := h
      obtain ⟨passed, hpassed, hsplit, hhead⟩ := dropWhile_split isNameChar cs
      refine ⟨⟨c, _, rfl, hc, fun x hx => List.mem_takeWhile_imp hx⟩, ?_, hhead⟩
      rw [List.cons_append, List.takeWhile_append_dropWhile]
  · rintro ⟨⟨c, cs, rfl, hc, hcs⟩, rfl, hrest⟩
    simp only [List.cons_append, name?, hc, if_true]
    cases rest with
    | nil =>
      rw [List.append_nil, List.takeWhile_eq_self_iff.mpr hcs, List.dropWhile_eq_nil_iff.mpr hcs]
    | cons d r =>
      have hd := hrest d r rfl
      rw [takeWhile_append_cons hcs hd, dropWhile_append_cons hcs hd]

/-- A text is a name when it is a proper one, or a proper one and one line break. -/
lemma isName_iff {t : Text} :
    isName t = true ↔ ProperName t ∨ ∃ n, ProperName n ∧ t = n ++ ['\n'] := by
  have hbreak : isNameChar '\n' = false := by decide
  unfold isName soleName?
  constructor
  · intro h
    cases hname : name? t with
    | none => simp [hname] at h
    | some found =>
      obtain ⟨name, rest⟩ := found
      obtain ⟨hproper, rfl, -⟩ := name?_eq_some_iff.mp hname
      simp only [hname] at h
      split_ifs at h with hend
      · simp only [atEnd, Bool.or_eq_true, beq_iff_eq] at hend
        rcases hend with rfl | rfl
        · left
          rwa [List.append_nil]
        · exact Or.inr ⟨name, hproper, rfl⟩
      · exact absurd h (by simp)
  · rintro (h | ⟨n, h, rfl⟩)
    · rw [name?_eq_some_iff.mpr ⟨h, (List.append_nil t).symm, by simp⟩]
      rfl
    · rw [name?_eq_some_iff.mpr ⟨h, rfl, by rintro c r ⟨⟩; exact hbreak⟩]
      rfl

/-- A name as it is written in a program. -/
abbrev Name := {t : Text // ProperName t}

/-- A name is a name. -/
lemma isName_name (x : Name) : isName x.1 = true :=
  isName_iff.mpr (Or.inl x.2)

/-- A keyword that declares variables. -/
abbrev Keyword := {word : Text // word ∈ variableKeywords}

/-- A name has no space in it. -/
lemma space_not_mem_of_isName {t : Text} (h : isName t = true) : ' ' ∉ t := by
  have hspace : isNameChar ' ' = false := by decide
  rcases isName_iff.mp h with hproper | ⟨n, hproper, rfl⟩
  · exact hproper.not_mem hspace
  · simp [hproper.not_mem hspace]

/-- Without a line break a name is a proper one. -/
lemma isName_iff_of_not_mem {t : Text} (h : '\n' ∉ t) : isName t = true ↔ ProperName t := by
  rw [isName_iff]
  constructor
  · rintro (hproper | ⟨n, -, rfl⟩)
    · exact hproper
    · exact absurd (by simp) h
  · exact Or.inl

/-! ## Names behind white space -/

/-- A given name at the front ends where no name goes on. -/
lemma endedName?_eq_some_iff {name t rest : Text} :
    endedName? name t = some rest ↔ t = name ++ rest ∧ outsideName rest.head? = true := by
  unfold endedName?
  constructor
  · intro h
    cases hafter : after? name t with
    | none => simp [hafter] at h
    | some rest' =>
      simp only [hafter] at h
      split_ifs at h with hout
      obtain rfl := Option.some.inj h
      exact ⟨after?_eq_some_iff.mp hafter, hout⟩
  · rintro ⟨rfl, hout⟩
    simp only [after?_eq_some_iff.mpr rfl, hout, if_true]

/-- A reader that may go to the right finds something where it finds something that far in. -/
lemma rightmost?_isSome_iff {α : Type} {f : Text → Option α} {width : Nat} {t : Text} :
    (rightmost? f width t).isSome = true ↔ ∃ k ≤ width, (f (t.drop k)).isSome = true := by
  induction width generalizing t with
  | zero => simp [rightmost?]
  | succ n ih =>
    cases t with
    | nil =>
      simp only [rightmost?, List.drop_nil]
      exact ⟨fun h => ⟨0, Nat.zero_le _, h⟩, fun ⟨_, _, h⟩ => h⟩
    | cons c cs =>
      rw [rightmost?, Option.isSome_or, Bool.or_eq_true, ih]
      constructor
      · rintro (⟨k, hk, h⟩ | h)
        · exact ⟨k + 1, by omega, h⟩
        · exact ⟨0, Nat.zero_le _, h⟩
      · rintro ⟨k, hk, h⟩
        cases k with
        | zero => exact Or.inr h
        | succ k => exact Or.inl ⟨k, by omega, h⟩

/-- The first characters of a text are passed over by `takeWhile` exactly when they all satisfy the
test. -/
lemma le_length_takeWhile_iff {p : Char → Bool} {t : Text} {k : Nat} (hk : k ≤ t.length) :
    k ≤ (t.takeWhile p).length ↔ ∀ c ∈ t.take k, p c = true := by
  induction t generalizing k with
  | nil =>
    obtain rfl : k = 0 := by simpa using hk
    simp
  | cons c cs ih =>
    cases k with
    | zero => simp
    | succ k =>
      rw [List.take_succ_cons, List.forall_mem_cons]
      by_cases hc : p c = true
      · rw [List.takeWhile_cons_of_pos hc, List.length_cons, Nat.add_le_add_iff_right,
          ih (by simpa using hk)]
        simp [hc]
      · rw [List.takeWhile_cons_of_neg hc]
        simp [hc]

/-- What is found behind white space, missing or not, stands behind some of it. -/
lemma afterBlanks?_isSome_iff {α : Type} {f : Text → Option α} {t : Text} :
    (afterBlanks? f t).isSome = true ↔
      ∃ gap rest, (∀ c ∈ gap, isBlank c = true) ∧ t = gap ++ rest ∧ (f rest).isSome = true := by
  have hwidth : (t.takeWhile isBlank).length ≤ t.length := (List.takeWhile_sublist _).length_le
  unfold afterBlanks?
  rw [rightmost?_isSome_iff]
  constructor
  · rintro ⟨k, hk, hf⟩
    exact ⟨t.take k, t.drop k, (le_length_takeWhile_iff (by omega)).mp hk,
      (List.take_append_drop k t).symm, hf⟩
  · rintro ⟨gap, rest, hgap, rfl, hf⟩
    refine ⟨gap.length, ?_, by rwa [List.drop_left]⟩
    rw [le_length_takeWhile_iff (by simp), List.take_left]
    exact hgap

/-- What is found behind some white space stands behind some of it. -/
lemma afterSomeBlanks?_isSome_iff {α : Type} {f : Text → Option α} {t : Text} :
    (afterSomeBlanks? f t).isSome = true ↔ ∃ gap rest, gap ≠ [] ∧ (∀ c ∈ gap, isBlank c = true)
      ∧ t = gap ++ rest ∧ (f rest).isSome = true := by
  cases t with
  | nil =>
    refine ⟨fun h => absurd h (by simp [afterSomeBlanks?]), ?_⟩
    rintro ⟨gap, rest, hne, -, ht, -⟩
    exact absurd (List.append_eq_nil_iff.mp ht.symm).1 hne
  | cons c cs =>
    rw [afterSomeBlanks?]
    constructor
    · intro h
      split_ifs at h with hc
      · obtain ⟨gap, rest, hgap, rfl, hf⟩ := afterBlanks?_isSome_iff.mp h
        exact ⟨c :: gap, rest, List.cons_ne_nil c gap, List.forall_mem_cons.mpr ⟨hc, hgap⟩, rfl, hf⟩
      · exact absurd h (by simp)
    · rintro ⟨gap, rest, hne, hgap, ht, hf⟩
      obtain ⟨d, gap, rfl⟩ := List.exists_cons_of_ne_nil hne
      rw [List.cons_append, List.cons.injEq] at ht
      obtain ⟨rfl, rfl⟩ := ht
      obtain ⟨hc, hgap⟩ := List.forall_mem_cons.mp hgap
      rw [if_pos hc]
      exact afterBlanks?_isSome_iff.mpr ⟨gap, rest, hgap, rfl, hf⟩

/-- A word with some white space behind it at the front; what follows begins with something else. -/
lemma spacedWord?_eq_some_iff {word t rest : Text} :
    spacedWord? word t = some rest ↔ ∃ gap, gap ≠ [] ∧ (∀ c ∈ gap, isBlank c = true)
      ∧ t = word ++ (gap ++ rest) ∧ ∀ c r, rest = c :: r → isBlank c = false := by
  unfold spacedWord?
  rw [Option.bind_eq_some_iff]
  constructor
  · rintro ⟨t', hafter, hblanks⟩
    obtain rfl := after?_eq_some_iff.mp hafter
    cases t' with
    | nil => exact absurd hblanks (by simp [blanks?])
    | cons c cs =>
      rw [blanks?] at hblanks
      split_ifs at hblanks with hc
      obtain rfl := Option.some.inj hblanks
      obtain ⟨gap, hgap, hsplit, hhead⟩ := dropWhile_split isBlank cs
      refine ⟨c :: gap, List.cons_ne_nil c gap, List.forall_mem_cons.mpr ⟨hc, hgap⟩, ?_, hhead⟩
      rw [List.cons_append, skipBlanks, ← hsplit]
  · rintro ⟨gap, hne, hgap, rfl, hhead⟩
    obtain ⟨d, gap, rfl⟩ := List.exists_cons_of_ne_nil hne
    obtain ⟨hd, hgap⟩ := List.forall_mem_cons.mp hgap
    refine ⟨d :: gap ++ rest, after?_eq_some_iff.mpr rfl, ?_⟩
    rw [List.cons_append, blanks?, if_pos hd, skipBlanks_append hgap]
    cases rest with
    | nil => rfl
    | cons c r => rw [skipBlanks_cons (hhead c r rfl)]

/-! ## What is left of a text -/

/-- What follows the blanks ends the text. -/
lemma skipBlanks_suffix (t : Text) : skipBlanks t <:+ t :=
  List.dropWhile_suffix _

/-- What follows the front ends the text. -/
lemma after?_suffix {head t rest : Text} (h : after? head t = some rest) : rest <:+ t :=
  ⟨head, (after?_eq_some_iff.mp h).symm⟩

/-- What follows a word and a blank ends the text. -/
lemma spacedWord?_suffix {word t rest : Text} (h : spacedWord? word t = some rest) :
    rest <:+ t := by
  obtain ⟨gap, -, -, rfl, -⟩ := spacedWord?_eq_some_iff.mp h
  exact ⟨word ++ gap, List.append_assoc _ _ _⟩

/-- What follows a name ends the text. -/
lemma name?_suffix {t name rest : Text} (h : name? t = some (name, rest)) : rest <:+ t :=
  ⟨name, (name?_eq_some_iff.mp h).2.1.symm⟩

end Esmify.Source
