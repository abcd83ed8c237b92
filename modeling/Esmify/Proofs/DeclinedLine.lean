import Esmify.Proofs.ImportText
import Esmify.Proofs.RequireLine

/-!
# Import statements are not read as requirements

Lines that hold parts of an import statement, and why the reader declines them. **A line with
an import in its left-hand side is declined** (`declined_of_import`): the space behind the word
would have to stand in a name. A line of an import clause is no line with a call, unless a key with
a brace in it opens a group; then the group holds the word `as` between two spaces and the line is
declined (`declined_of_clauseLine`). -/

namespace Esmify.Requirement

open Text Source

/-- The reader declines a line that stands by itself. -/
def Declined (line : Text) : Prop :=
  ∀ r, ofLine line false ≠ .ok r

/-! ## Left-hand sides -/

/-- A line with a left-hand side is read by way of that left-hand side. -/
lemma exists_readBindings {line front rest : Text} {continued : Bool} {r : Requirement}
    (hsplit : line = front ++ '=' :: rest) (hsign : '=' ∉ front) (hopen : '(' ∉ front)
    (h : ofLine line continued = .ok r) :
    ∃ keyword binding bs, declared? front = some (keyword, binding)
      ∧ readBindings binding = .ok bs := by
  obtain ⟨s, hstatement, -, -, -, -, -, -, hread⟩ := ofLine_eq_ok h
  rcases statement?_eq_some hstatement with ⟨front', binding, rest', hsign', hsplit',
    hdeclared, hcall⟩
    | hcall
  · obtain ⟨rfl, -⟩ := append_cons_inj_left hsign hsign' (hsplit.symm.trans hsplit')
    obtain ⟨-, hbinding, -⟩ := call?_eq_some hcall
    obtain ⟨bs, hbs⟩ := hread binding hbinding
    exact ⟨s.keyword, binding, bs, hdeclared, hbs⟩
  · obtain ⟨-, -, -, text, tail, htext, hline⟩ := call?_eq_some hcall
    obtain ⟨front', back, hsign', rfl⟩ := htext.exists_open
    rw [hline, List.append_assoc, List.cons_append] at hsplit
    exact absurd hsplit (append_cons_ne (by decide) hopen hsign')

/-- A word of the left-hand side that is no part of a keyword stands in the binding. -/
lemma infix_binding {front binding w : Text} {keyword : Option Text} {x y : Char}
    (hx : isBlank x = false) (hy : isBlank y = false)
    (hkeyword : ∀ word ∈ variableKeywords, ∀ t, x :: w ++ [y] <:+: word ++ t → x :: w ++ [y] <:+: t)
    (hdeclared : declared? front = some (keyword, binding)) (h : x :: w ++ [y] <:+: front) :
    x :: w ++ [y] <:+: binding := by
  rcases declared?_eq_some hdeclared with rfl | ⟨word, rest, hword, hsplit, rfl⟩
  · exact infix_trim hx hy h
  · obtain ⟨blanks, hblanks, hfront, -⟩ := dropWhile_split isBlank front
    have hnot : x ∉ blanks := fun hmem => absurd (hblanks x hmem) (by simp [hx])
    rw [hfront] at h
    have hstart := infix_of_infix_append blanks hnot h
    rw [show front.dropWhile isBlank = word ++ rest from hsplit] at hstart
    exact infix_trim hx hy (hkeyword word hword rest hstart)

/-- **A line with an import statement in its left-hand side is declined.** -/
lemma declined_of_import {front rest : Text} {c : Char} (hc : isImportStart c = true)
    (hsign : '=' ∉ front) (hopen : '(' ∉ front) (h : "import ".toList ++ [c] <:+: front) :
    Declined (front ++ '=' :: rest) := by
  intro r hr
  obtain ⟨keyword, binding, bs, hdeclared, hbs⟩ := exists_readBindings rfl hsign hopen hr
  obtain ⟨hblank, hcolon, hcomma, hbrace, -⟩ := isImportStart_ne hc
  have hkeywords : ∀ word ∈ variableKeywords, 'm' ∉ word := by decide
  have hword : 'm' :: "port ".toList ++ [c] <:+: front :=
    List.IsInfix.trans ⟨['i'], [], by simp⟩ h
  have hbinding : 'm' :: "port ".toList ++ [c] <:+: binding := by
    refine infix_binding (by decide) hblank (fun word hmem t ht => ?_) hdeclared hword
    exact infix_of_infix_append word (hkeywords word hmem) ht
  have hgap : ['t', ' ', c] <:+: binding := List.IsInfix.trans ⟨"mpor".toList, [], by simp⟩ hbinding
  exact readBindings_no_gap (by decide) hblank ⟨by simp [Ne.symm hcolon], by simp [Ne.symm hcomma]⟩
    (by decide) hbrace hbs hgap

/-- A line with the word `as` before a name in its left-hand side is declined. -/
lemma declined_of_alias {front rest name : Text} (hname : ProperName name) (hsign : '=' ∉ front)
    (hopen : '(' ∉ front) (h : " as ".toList ++ name <:+: front) :
    Declined (front ++ '=' :: rest) := by
  intro r hr
  obtain ⟨keyword, binding, bs, hdeclared, hbs⟩ := exists_readBindings rfl hsign hopen hr
  obtain ⟨c, cs, rfl, hc, -⟩ := hname
  have hnot : ∀ d, isNameChar d = false → c ≠ d := by
    rintro d hd rfl
    rw [isNameChar_of_isNameStart hc] at hd
    exact absurd hd (by decide)
  have hblank : isBlank c = false := by
    by_contra hblank
    exact hnot c (isNameChar_of_isBlank (by simpa using hblank)) rfl
  have hword : ['s', ' ', c] <:+: front :=
    List.IsInfix.trans ⟨" a".toList, cs, by simp⟩ h
  have hbinding : ['s', ' ', c] <:+: binding := by
    refine infix_binding (w := [' ']) (by decide) hblank (fun word hmem t ht => ?_) hdeclared hword
    simp only [variableKeywords, List.mem_cons, List.not_mem_nil, or_false] at hmem
    rcases hmem with rfl | rfl | rfl
    all_goals
      simp only [String.reduceToList, List.cons_append, List.nil_append, List.infix_cons_iff,
        List.cons_prefix_cons] at ht
      simpa using ht
  exact readBindings_no_gap (by decide) hblank
    ⟨by simp [Ne.symm (hnot ':' (by decide))], by simp [Ne.symm (hnot ',' (by decide))]⟩
    (by decide) (hnot _ (by decide)) hbs hbinding

/-! ## Lines of a clause -/

/-- What follows a key: its first character that is not white space neither opens a parenthesis nor
stands in the word `require`. -/
def KeyEnd (t : Text) : Prop :=
  ∃ c rest, skipBlanks t = c :: rest ∧ c ≠ '(' ∧ c ∉ "require".toList

/-- What follows a member of a block follows a key. -/
lemma keyEnd_of_behindMember {t : Text} (h : BehindMember t) : KeyEnd t := by
  rcases h with ⟨rest, rfl⟩ | ⟨rest, rfl⟩
  · exact ⟨',', '\n' :: rest, rfl, by decide, by decide⟩
  · exact ⟨'\x7d', rest, rfl, by decide, by decide⟩

/-- No call begins in a key that has no parenthesis. -/
lemma callHead_append_ne {call key behind rest : Text} (hcall : CallHead call) (hopen : '(' ∉ key)
    (hend : KeyEnd behind) : call ++ rest ≠ key ++ behind := by
  intro h
  obtain ⟨indent, blanks, hindent, hblanks, rfl⟩ := hcall
  obtain ⟨c, end', hskip, hc, hrequire⟩ := hend
  have hsplit : key ++ behind = (indent ++ ("require".toList ++ blanks)) ++ '(' :: rest := by
    rw [← h]
    simp only [List.append_assoc, List.cons_append, List.nil_append]
  obtain ⟨a, hhead, rfl⟩ := append_eq_append_cons_of_not_mem hopen hsplit
  have hopens : ∀ a', (∀ x ∈ a', isBlank x = true) →
      skipBlanks (a' ++ '(' :: rest) ≠ c :: end' := by
    intro a' ha' heq
    rw [skipBlanks_append ha', skipBlanks_cons (by decide), List.cons.injEq] at heq
    exact hc heq.1.symm
  -- where the key ends: in the indentation, behind the word, or within the word
  rcases List.append_eq_append_iff.mp hhead with ⟨k, rfl, hword⟩ | ⟨m, rfl, rfl⟩
  · rcases List.append_eq_append_iff.mp hword with ⟨m, rfl, rfl⟩ | ⟨m, hrest, rfl⟩
    · exact hopens a (fun x hx => hblanks x (List.mem_append_right m hx)) hskip
    · cases m with
      | nil => exact hopens blanks hblanks hskip
      | cons d m =>
        have hd : d ∈ "require".toList := by
          rw [hrest]
          simp
        have hdblank : isBlank d = false :=
          (by decide : ∀ x ∈ "require".toList, isBlank x = false) d hd
        rw [List.cons_append, List.cons_append, skipBlanks_cons hdblank, List.cons.injEq] at hskip
        exact hrequire (hskip.1 ▸ hd)
  · have hm : ∀ x ∈ m, isBlank x = true := fun x hx =>
      isBlank_of_isIndent (hindent x (List.mem_append_right key hx))
    rw [List.append_assoc, skipBlanks_append hm, List.append_assoc] at hskip
    change 'r' :: _ = c :: end' at hskip
    rw [List.cons.injEq] at hskip
    exact hrequire (hskip.1 ▸ by decide)

/-- A left-hand side with a line break opens its group before the break. -/
lemma LeftFront.brace_mem {front a b : Text} (h : LeftFront front)
    (hbreak : front = a ++ '\n' :: b) :
    '\x7b' ∈ a := by
  rcases h with h | ⟨plain, group, hfront, hplain, -, -⟩
  · exact absurd (h '\n' (by rw [hbreak]; simp)) (by decide)
  · have hnot : '\n' ∉ plain := fun hmem => absurd (hplain _ hmem) (by decide)
    obtain ⟨a', rfl, hgroup⟩ := append_eq_append_cons_of_not_mem hnot (hfront.symm.trans hbreak)
    cases a' with
    | nil => exact absurd (List.cons.inj hgroup).1 (by decide)
    | cons c a' =>
      rw [List.cons_append, List.cons.injEq] at hgroup
      rw [← hgroup.1]
      simp

/-- The head of a line does not begin with a closing brace. -/
lemma LineHead.ne_brace {head : Text} (h : LineHead head) (rest : Text) :
    head ≠ '\x7d' :: rest := by
  rintro rfl
  rcases h with ⟨indent, blanks, hindent, -, heq⟩ | ⟨front, call, hfront, -, heq⟩
  · cases indent with
    | nil => exact absurd (List.cons.inj heq).1 (by decide)
    | cons c indent =>
      have hc := hindent c List.mem_cons_self
      rw [← (List.cons.inj heq).1] at hc
      exact absurd hc (by decide)
  · cases front with
    | nil => exact absurd (List.cons.inj heq).1 (by decide)
    | cons c front =>
      obtain ⟨rfl, -⟩ := List.cons.inj heq
      rcases hfront with hplain | ⟨plain, group, hsplit, hplain, -, -⟩
      · exact absurd (hplain _ List.mem_cons_self) (by decide)
      · cases plain with
        | nil => exact absurd (List.cons.inj hsplit).1 (by decide)
        | cons d plain =>
          have hd := hplain d List.mem_cons_self
          rw [← (List.cons.inj hsplit).1] at hd
          exact absurd hd (by decide)

/-- A member of a clause is a key without a parenthesis and something behind it that ends keys. -/
lemma exists_key_of_clauseMember {m behind : Text} (hm : ClauseMember m)
    (hbehind : BehindMember behind) :
    ∃ key behind', '(' ∉ key ∧ KeyEnd behind' ∧ m ++ behind = key ++ behind'
      ∧ ('=' ∉ key → '=' ∉ m) := by
  rcases hm with hname | ⟨key, name, hkey, hname, rfl⟩
  · exact ⟨m, behind, hname.not_mem (by decide), keyEnd_of_behindMember hbehind, rfl, id⟩
  · refine ⟨key, " as ".toList ++ name ++ behind, fun hmem => (hkey.2 _ hmem).2 rfl,
      ⟨'a', 's' :: ' ' :: (name ++ behind), rfl, by decide, by decide⟩,
      by simp only [List.append_assoc], fun hsign => ?_⟩
    have h := hname.not_mem (c := '=') (by decide)
    simp [hsign, h]

/-- A line of a clause does not begin with a call. -/
lemma callHead_append_ne_member {call indent m behind rest : Text} (hcall : CallHead call)
    (hindent : ∀ c ∈ indent, isIndent c = true) (hm : ClauseMember m)
    (hbehind : BehindMember behind) : call ++ rest ≠ indent ++ (m ++ behind) := by
  obtain ⟨key, behind', hopen, hend, hkey, -⟩ := exists_key_of_clauseMember hm hbehind
  have hopen' : '(' ∉ indent ++ key := by
    rw [List.mem_append, not_or]
    exact ⟨fun hmem => absurd (hindent _ hmem) (by decide), hopen⟩
  rw [hkey, ← List.append_assoc]
  exact callHead_append_ne hcall hopen' hend

/-- **A line of an import clause is no requirement.** -/
lemma declined_of_clauseLine {line rest : Text} (h : ClauseLine (line ++ rest))
    (hline : LineText line) : Declined line := by
  obtain ⟨head, args, tail, hhead, -, -, -, rfl⟩ := hline
  rcases h with ⟨indent, m, behind, hindent, hm, hbehind, htext⟩ | ⟨r, htext⟩
  · rcases hhead with hcall | ⟨front, call, hfront, hcall, rfl⟩
    · rw [List.append_assoc] at htext
      exact absurd htext (callHead_append_ne_member hcall hindent hm hbehind)
    · have hsplit : indent ++ (m ++ behind) =
          front ++ '=' :: (call ++ (args ++ ')' :: tail ++ rest)) := by
        rw [← htext]
        simp only [List.append_assoc, List.cons_append]
      have hsign := hfront.not_mem (c := '=') (by decide) (by decide) (by decide)
      have hopen := hfront.not_mem (c := '(') (by decide) (by decide) (by decide)
      have hnosign : '=' ∉ indent := fun hmem => absurd (hindent _ hmem) (by decide)
      obtain ⟨key, behind', hopen', hend, hkey, hkeysign⟩ := exists_key_of_clauseMember hm hbehind
      by_cases hmem : '=' ∈ key
      · -- the first equals sign stands in the key, and no call can follow it there
        obtain ⟨k₁, k₂, rfl, hk₁⟩ := List.eq_append_cons_of_mem hmem
        rw [hkey] at hsplit
        have hfirst : (indent ++ k₁) ++ '=' :: (k₂ ++ behind') =
            front ++ '=' :: (call ++ (args ++ ')' :: tail ++ rest)) := by
          rw [← hsplit]
          simp only [List.append_assoc, List.cons_append]
        obtain ⟨-, hcallkey⟩ := append_cons_inj_left (by simp [hnosign, hk₁]) hsign hfirst
        have hopen₂ : '(' ∉ k₂ := fun hmem => hopen' (by simp [hmem])
        exact absurd hcallkey.symm (callHead_append_ne hcall hopen₂ hend)
      · -- the left-hand side holds the whole member, so its key opens a group
        have hmsign : '=' ∉ indent ++ m := by
          rw [List.mem_append, not_or]
          exact ⟨hnosign, hkeysign hmem⟩
        rw [← List.append_assoc] at hsplit
        obtain ⟨front', rfl, rfl⟩ := append_eq_append_cons_of_not_mem hmsign hsplit
        obtain ⟨a, b, rfl, ha⟩ := hbehind.exists_break
        have hbrace := hfront.brace_mem (a := indent ++ m ++ a) (b := b)
          (by simp only [List.append_assoc])
        have hbrace' : '\x7b' ∈ m := by
          simp only [List.mem_append] at hbrace
          rcases hbrace with (hmem | hmem) | hmem
          · exact absurd (hindent _ hmem) (by decide)
          · exact hmem
          · exact absurd hmem ha
        rcases hm with hname | ⟨key, name, hkey, hname, rfl⟩
        · exact absurd hbrace' (hname.not_mem (by decide))
        · rw [List.append_assoc, List.cons_append]
          refine declined_of_alias hname hsign hopen ⟨indent ++ key, a ++ '\n' :: b, ?_⟩
          simp only [List.append_assoc]
  · obtain ⟨c, head, rfl⟩ := List.exists_cons_of_ne_nil hhead.ne_nil
    rw [List.append_assoc, List.cons_append, List.cons.injEq] at htext
    exact absurd (by rw [htext.1]) (hhead.ne_brace head)

end Esmify.Requirement
