import Esmify.Proofs.Bindings

/-!
# Statements, read back

What a line that was read as a requirement looks like. The readers go through the line once from
left to right, so each of them is inverted by writing its text as a concatenation:

* `callArgument?_eq_some` and `call?_eq_some`: a call with a quoted module, a member path and the
  end of the statement;
* `statement?_eq_some`: a statement is a call, alone or behind a left-hand side;
* `ofLine_eq_ok`: **a requirement keeps its source**, which is the front of the line up to the end
  of the statement, and takes module and quote from it. -/

namespace Esmify.Requirement

open Text Source

/-! ## Calls -/

/-- The text of a call with a quoted module, up to its closing parenthesis. -/
def CallText (quote : Char) (target text : Text) : Prop :=
  ∃ b₁ b₂ b₃ b₄ close, (∀ c ∈ b₁, isBlank c = true) ∧ (∀ c ∈ b₂, isBlank c = true)
    ∧ isTargetQuote quote = true ∧ target ≠ [] ∧ (∀ c ∈ target, isTargetQuote c = false)
    ∧ text = b₁ ++ ("require".toList ++ (b₂ ++ '(' :: (b₃ ++ quote :: (target ++
        close :: (b₄ ++ [')'])))))

/-- The argument of a call is read up to the closing parenthesis. -/
lemma callArgument?_eq_some {t target rest : Text} {quote : Char}
    (h : callArgument? t = some (quote, target, rest)) :
    ∃ text, CallText quote target text ∧ t = text ++ rest := by
  unfold callArgument? at h
  obtain ⟨b₁, hb₁, hsplit, -⟩ := dropWhile_split isBlank t
  cases hcall : (wordThenBlanks? "require".toList (skipBlanks t)).bind (wordThenBlanks? ['(']) with
  | none =>
    rw [hcall] at h
    exact absurd h (by simp)
  | some inner =>
    rw [hcall] at h
    obtain ⟨u, hword, hopen⟩ := Option.bind_eq_some_iff.mp hcall
    obtain ⟨v, hv, rfl⟩ := wordThenBlanks?_eq_some_iff.mp hword
    obtain ⟨w, hw, rfl⟩ := wordThenBlanks?_eq_some_iff.mp hopen
    rw [List.singleton_append] at hw
    obtain ⟨b₂, hb₂, rfl⟩ := (skipBlanks_eq_cons_iff (by decide)).mp hw
    obtain ⟨b₃, -, hinner, -⟩ := dropWhile_split isBlank w
    cases hskip : skipBlanks w with
    | nil => simp [hskip] at h
    | cons q cs =>
      rw [hskip] at h
      dsimp only at h
      split at h
      · rename_i c target'' close rest' hq htake hdrop
        obtain ⟨rest'', hafter, heq⟩ := Option.map_eq_some_iff.mp h
        simp only [Prod.mk.injEq] at heq
        obtain ⟨rfl, rfl, rfl⟩ := heq
        have hskip' : skipBlanks rest' = ')' :: rest'' := after?_eq_some_iff.mp hafter
        obtain ⟨b₄, -, rfl⟩ := (skipBlanks_eq_cons_iff (by decide)).mp hskip'
        refine ⟨_, ⟨b₁, b₂, b₃, b₄, close, hb₁, hb₂, hq, List.cons_ne_nil c target'', ?_, rfl⟩, ?_⟩
        · intro x hx
          rw [← htake] at hx
          simpa using List.mem_takeWhile_imp hx
        · have hquoted : cs = (c :: target'') ++ close :: (b₄ ++ ')' :: rest'') := by
            rw [← htake, ← hdrop, List.takeWhile_append_dropWhile]
          have hw' : w = b₃ ++ q :: cs := by rw [← hskip]; exact hinner
          have ht : t = b₁ ++ ("require".toList ++ (b₂ ++ '(' :: w)) := by
            rw [hsplit]
            exact congrArg (b₁ ++ ·) hv
          rw [ht, hw', hquoted]
          simp only [List.append_assoc, List.cons_append, List.nil_append]
      · exact absurd h (by simp)

/-- The member path is cut off the front. -/
lemma memberPath_split (t : Text) :
    ∃ head, t = head ++ (memberPath t).2 ∧
      ∀ path, (memberPath t).1 = some path → path ≠ [] ∧ ∀ c ∈ path, isPathChar c = true := by
  unfold memberPath
  split
  · rename_i cs
    cases hpath : cs.takeWhile isPathChar with
    | nil => exact ⟨[], rfl, by simp⟩
    | cons c path =>
      refine ⟨'.' :: c :: path, ?_, ?_⟩
      · show '.' :: cs = '.' :: ((c :: path) ++ cs.dropWhile isPathChar)
        rw [← hpath, List.takeWhile_append_dropWhile]
      · rintro _ ⟨⟩
        refine ⟨List.cons_ne_nil c path, fun x hx => ?_⟩
        rw [← hpath] at hx
        exact List.mem_takeWhile_imp hx
  · exact ⟨[], rfl, by simp⟩

/-- A statement that begins with a call is the call, perhaps a member path, and what ends it. -/
lemma call?_eq_some {keyword binding : Option Text} {t : Text} {s : Statement}
    (h : call? keyword binding t = some s) :
    s.keyword = keyword ∧ s.binding = binding
      ∧ (∀ path, s.path = some path → path ≠ [] ∧ ∀ c ∈ path, isPathChar c = true)
      ∧ ∃ text tail, CallText s.quote s.target text ∧ t = text ++ (tail ++ s.rest) := by
  unfold call? at h
  cases hcall : callArgument? t with
  | none => simp [hcall] at h
  | some found =>
    obtain ⟨quote, target, rest⟩ := found
    obtain ⟨text, htext, rfl⟩ := callArgument?_eq_some hcall
    obtain ⟨head, hhead, hpath⟩ := memberPath_split rest
    rw [hcall] at h
    dsimp only at h
    set rest' := (memberPath rest).2 with hrest'
    obtain ⟨blanks, -, hblanks, -⟩ := dropWhile_split isBlank rest'
    have hend : ∃ mark, skipBlanks rest' = mark ++ skipOne ';' (skipBlanks rest') := by
      rcases skipOne_eq ';' (skipBlanks rest') with h | h
      · exact ⟨[';'], h⟩
      · exact ⟨[], h⟩
    obtain ⟨mark, hmark⟩ := hend
    have hsplit : rest = head ++ (blanks ++ (mark ++ skipOne ';' (skipBlanks rest'))) := by
      rw [← hmark]
      exact hhead.trans (congrArg (head ++ ·) hblanks)
    cases hcomma : after? [','] (skipOne ';' (skipBlanks rest')) with
    | none =>
      simp only [hcomma, Option.some.injEq] at h
      subst h
      refine ⟨rfl, rfl, hpath, text, head ++ (blanks ++ mark), htext, ?_⟩
      simp only [List.append_assoc]
      exact congrArg (text ++ ·) hsplit
    | some rest'' =>
      simp only [hcomma, Option.some.injEq] at h
      subst h
      refine ⟨rfl, rfl, hpath, text, head ++ (blanks ++ (mark ++ [','])), htext, ?_⟩
      rw [after?_eq_some_iff.mp hcomma] at hsplit
      simp only [List.append_assoc] at hsplit ⊢
      exact congrArg (text ++ ·) hsplit

/-- A closing parenthesis stands in every call. -/
lemma CallText.close_mem {quote : Char} {target text : Text} (h : CallText quote target text) :
    ')' ∈ text := by
  obtain ⟨b₁, b₂, b₃, b₄, close, -, -, -, -, -, rfl⟩ := h
  simp

/-- No equals sign stands before the opening parenthesis of a call. -/
lemma CallText.exists_open {quote : Char} {target text : Text} (h : CallText quote target text) :
    ∃ front back, '=' ∉ front ∧ text = front ++ '(' :: back := by
  obtain ⟨b₁, b₂, b₃, b₄, close, hb₁, hb₂, -, -, -, rfl⟩ := h
  refine ⟨b₁ ++ ("require".toList ++ b₂),
    b₃ ++ quote :: (target ++ close :: (b₄ ++ [')'])), fun hmem => ?_,
    by simp only [List.append_assoc]⟩
  rcases List.mem_append.mp hmem with hmem | hmem
  · exact absurd (hb₁ _ hmem) (by decide)
  · rcases List.mem_append.mp hmem with hmem | hmem
    · exact absurd hmem (by decide)
    · exact absurd (hb₂ _ hmem) (by decide)

/-! ## Statements -/

/-- A keyword at the front is one of the keywords, and ends there as a word. -/
lemma keyword?_outsideWord {t word rest : Text} (h : keyword? t = some (word, rest)) :
    word ∈ variableKeywords ∧ t = word ++ rest ∧ outsideWord rest.head? = true := by
  unfold keyword? at h
  obtain ⟨word', hmem, hword⟩ := List.exists_of_findSome?_eq_some h
  cases hafter : after? word' t with
  | none => simp [hafter] at hword
  | some rest' =>
    simp only [hafter] at hword
    split_ifs at hword with hout
    obtain ⟨rfl, rfl⟩ := Prod.mk.inj (Option.some.inj hword)
    exact ⟨hmem, after?_eq_some_iff.mp hafter, hout⟩

/-- A keyword at the front is one of the keywords. -/
lemma keyword?_eq_some {t word rest : Text} (h : keyword? t = some (word, rest)) :
    word ∈ variableKeywords ∧ t = word ++ rest :=
  ⟨(keyword?_outsideWord h).1, (keyword?_outsideWord h).2.1⟩

/-- The binding is the whole left-hand side, or what follows its keyword. -/
lemma declared?_eq_some {front binding : Text} {keyword : Option Text}
    (h : declared? front = some (keyword, binding)) :
    binding = trim front ∨
      ∃ word rest, word ∈ variableKeywords ∧ trimStart front = word ++ rest
        ∧ binding = trim rest := by
  unfold declared? at h
  split_ifs at h with hempty
  split at h
  · rename_i word c cs hword
    obtain ⟨-, rfl⟩ := Prod.mk.inj (Option.some.inj h)
    obtain ⟨hmem, hsplit⟩ := keyword?_eq_some hword
    exact Or.inr ⟨word, c :: cs, hmem, hsplit, rfl⟩
  · obtain ⟨-, rfl⟩ := Prod.mk.inj (Option.some.inj h)
    exact Or.inl rfl

/-- A statement with a left-hand side is cut at its first equals sign. -/
lemma assigned?_eq_some {t : Text} {s : Statement} (h : assigned? t = some s) :
    ∃ front binding rest, '=' ∉ front ∧ t = front ++ '=' :: rest
      ∧ declared? front = some (s.keyword, binding)
      ∧ call? s.keyword (some binding) rest = some s := by
  unfold assigned? at h
  dsimp only at h
  obtain ⟨-, -, -, hsign⟩ := dropWhile_split (· != '=') t
  split at h
  · rename_i sign rest hdrop
    obtain rfl : sign = '=' := by simpa using hsign sign rest hdrop
    split_ifs at h with hslash
    split at h
    · rename_i keyword binding hdeclared
      obtain ⟨rfl, -⟩ := call?_eq_some h
      refine ⟨_, binding, rest, fun hmem => ?_, ?_, hdeclared, h⟩
      · exact absurd (List.mem_takeWhile_imp hmem) (by decide)
      · rw [← hdrop, List.takeWhile_append_dropWhile]
    · exact absurd h (by simp)
  · exact absurd h (by simp)

/-- A statement is a call, alone or behind a left-hand side and its equals sign. -/
lemma statement?_eq_some {t : Text} {s : Statement} (h : statement? t = some s) :
    (∃ front binding rest, '=' ∉ front ∧ t = front ++ '=' :: rest
        ∧ declared? front = some (s.keyword, binding)
        ∧ call? s.keyword (some binding) rest = some s) ∨
      call? none none t = some s := by
  rcases Option.or_eq_some_iff.mp h with hassigned | ⟨-, hcall⟩
  · exact Or.inl (assigned?_eq_some hassigned)
  · exact Or.inr hcall

/-- The member path of a statement is not empty and made of path characters. -/
lemma statement?_path {t : Text} {s : Statement} (h : statement? t = some s) :
    ∀ path, s.path = some path → path ≠ [] ∧ ∀ c ∈ path, isPathChar c = true := by
  rcases statement?_eq_some h with ⟨front, binding, rest, -, -, -, hcall⟩ | hcall
  · exact (call?_eq_some hcall).2.2.1
  · exact (call?_eq_some hcall).2.2.1

/-- The module of a statement stands in one of the two quotes. -/
lemma statement?_quote {t : Text} {s : Statement} (h : statement? t = some s) :
    isTargetQuote s.quote = true := by
  rcases statement?_eq_some h with ⟨front, binding, rest, -, -, -, hcall⟩ | hcall
  · obtain ⟨-, -, -, text, tail, ⟨b₁, b₂, b₃, b₄, close, -, -, hquote, -⟩, -⟩ := call?_eq_some hcall
    exact hquote
  · obtain ⟨-, -, -, text, tail, ⟨b₁, b₂, b₃, b₄, close, -, -, hquote, -⟩, -⟩ := call?_eq_some hcall
    exact hquote

/-- The statement is cut off the front of the text, closing parenthesis and all. -/
lemma statement?_split {t : Text} {s : Statement} (h : statement? t = some s) :
    ∃ raw, ')' ∈ raw ∧ t = raw ++ s.rest := by
  rcases statement?_eq_some h with ⟨front, binding, rest, -, rfl, -, hcall⟩ | hcall
  · obtain ⟨-, -, -, text, tail, htext, rfl⟩ := call?_eq_some hcall
    refine ⟨front ++ '=' :: (text ++ tail), ?_, ?_⟩
    · simp [htext.close_mem]
    · simp only [List.append_assoc, List.cons_append]
  · obtain ⟨-, -, -, text, tail, htext, rfl⟩ := call?_eq_some hcall
    refine ⟨text ++ tail, ?_, ?_⟩
    · simp [htext.close_mem]
    · simp only [List.append_assoc]

/-! ## Lines -/

/-- The indentation of the bindings is made of blanks and tabs. -/
lemma innerIndent?_eq_some {t indent : Text} (h : innerIndent? t = some indent) :
    ∀ c ∈ indent, isIndent c = true := by
  induction t with
  | nil => exact absurd h (by simp [innerIndent?])
  | cons c cs ih =>
    rw [innerIndent?] at h
    split_ifs at h
    · obtain ⟨rfl⟩ := Option.some.inj h
      exact fun x hx => List.mem_takeWhile_imp hx
    · exact ih h

/-- A requirement with a left-hand side keeps what its statement says. -/
lemma ofAssigned_eq_ok {raw binding : Text} {s : Statement} {continued : Bool} {r : Requirement}
    (hpath : ∀ p, s.path = some p → p ≠ [] ∧ ∀ c ∈ p, isPathChar c = true)
    (h : ofAssigned raw binding s continued = .ok r) :
    r.raw = raw ∧ r.target = s.target ∧ r.quote = [s.quote] ∧ r.indent = innerIndent? raw
      ∧ (∀ b ∈ r.bindings, ProperBinding b) ∧ ∃ bs, readBindings binding = .ok bs := by
  unfold ofAssigned at h
  cases hread : readBindings binding with
  | error e => simp [hread] at h
  | ok bs =>
    simp only [hread] at h
    split_ifs at h
    cases hwith : withPath raw bs s.path with
    | error e => simp [hwith] at h
    | ok bs' =>
      simp only [hwith] at h
      obtain ⟨rfl⟩ := Except.ok.inj h
      refine ⟨rfl, rfl, rfl, rfl, ?_, bs, rfl⟩
      have hproper := properBinding_of_withPath (properBinding_of_readBindings hread) hpath hwith
      intro b hb
      obtain ⟨b', hb', rfl⟩ := List.mem_map.mp hb
      exact (hproper b' hb').simplified

/-- **A line that is read gives a requirement that keeps its source**, up to the end of the
statement, with the module and the quote of the statement, and well-formed bindings. -/
lemma ofLine_eq_ok {line : Text} {continued : Bool} {r : Requirement}
    (h : ofLine line continued = .ok r) :
    ∃ s, statement? line = some s ∧ ')' ∈ r.raw ∧ line = r.raw ++ s.rest ∧ r.target = s.target
      ∧ r.quote = [s.quote] ∧ (∀ indent, r.indent = some indent → ∀ c ∈ indent, isIndent c = true)
      ∧ (∀ b ∈ r.bindings, ProperBinding b)
      ∧ ∀ binding, s.binding = some binding → ∃ bs, readBindings binding = .ok bs := by
  unfold ofLine at h
  cases hstatement : statement? line with
  | none => simp [hstatement] at h
  | some s =>
    obtain ⟨raw, hclose, hsplit⟩ := statement?_split hstatement
    have hraw : line.take (line.length - s.rest.length) = raw := by
      rw [hsplit, List.length_append, Nat.add_sub_cancel, List.take_left]
    simp only [hstatement, hraw] at h
    split at h
    · exact absurd h (by simp)
    · exact absurd h (by simp)
    · cases hbinding : s.binding with
      | some binding =>
        simp only [hbinding] at h
        obtain ⟨hraw', htarget, hquote, hindent, hproper, hread⟩ :=
          ofAssigned_eq_ok (statement?_path hstatement) h
        subst hraw'
        refine ⟨s, rfl, hclose, hsplit, htarget, hquote, ?_, hproper, ?_⟩
        · intro indent hsome
          rw [hindent] at hsome
          exact innerIndent?_eq_some hsome
        · intro b hb
          rw [hbinding, Option.some.injEq] at hb
          exact hb ▸ hread
      | none =>
        simp only [hbinding] at h
        split_ifs at h
        obtain ⟨rfl⟩ := Except.ok.inj h
        exact ⟨s, rfl, hclose, hsplit, rfl, rfl, by simp, by simp, by simp [hbinding]⟩

/-- A left-hand side that is read by itself is also read behind a comma. -/
lemma ofAssigned_continued {raw binding : Text} {s : Statement} {r : Requirement}
    (h : ofAssigned raw binding s false = .ok r) : ofAssigned raw binding s true = .ok r := by
  unfold ofAssigned at h ⊢
  cases hread : readBindings binding with
  | error e => simp [hread] at h
  | ok bs =>
    simp only [hread] at h ⊢
    split_ifs at h
    rw [if_neg (by simp)]
    exact h

/-- A line that is read by itself is also read behind a comma. -/
lemma ofLine_continued {line : Text} {r : Requirement} (continued : Bool)
    (h : ofLine line false = .ok r) : ofLine line continued = .ok r := by
  cases continued with
  | false => exact h
  | true =>
    unfold ofLine at h ⊢
    cases hstatement : statement? line with
    | none => simp [hstatement] at h
    | some s =>
      simp only [hstatement] at h ⊢
      split at h
      · exact absurd h (by simp)
      · exact absurd h (by simp)
      · cases hbinding : s.binding with
        | some binding =>
          simp only [hbinding] at h ⊢
          exact ofAssigned_continued h
        | none =>
          simp only [hbinding] at h ⊢
          exact h

end Esmify.Requirement
