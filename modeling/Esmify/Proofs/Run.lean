import Mathlib.Tactic.Lemma
import Esmify.Fault
import Esmify.Text.Basic

/-!
# Passes over a text

A pass changes a text by actions, one after the other. It is given by what an action makes of a text
and by the spans of the text that the action works on (`Pass`); the texts along the way are those
that the actions before a point of the run leave.

**What an action keeps unless it works on it, a run keeps unless it is cut** (`Pass.run_keeps`): a
text of a given kind that stands at some point of the run stands at its end, or there is an action
further on whose spans meet it as it stands then (`Pass.Cut`). A single part can be followed to the
place where it comes (`Pass.run_follows`). A run fails at the first action that does
(`Pass.foldlM_eq_error_iff`). -/

namespace Esmify

/-! ## Texts of a kind -/

/-- A text of a given kind stands behind a character that `start` allows; the kind may depend on the
character that follows. -/
def Stands (start : Option Char → Bool) (P : Text → Option Char → Prop) (t : Text) : Prop :=
  ∃ front u back, t = front ++ (u ++ back) ∧ start front.getLast? = true ∧ P u back.head?

/-- A span meets the part of a text from `p` to `q`; an empty one does when it lies inside. -/
def Meets (p q : Nat) (span : Nat × Nat) : Prop :=
  span.1 < q ∧ (p < span.2 ∨ p ≤ span.1)

/-- A span reaches into the part of a text from `p` to `q`; an empty one does when it lies strictly
inside. -/
def Reaches (p q : Nat) (span : Nat × Nat) : Prop :=
  span.1 < q ∧ p < span.2

/-- A span from the character before `a` on that does not meet a part lies ahead of it, or behind
the character that follows it. -/
lemma clear_of_not_meets {p q a b : Nat} (hpq : p < q) (h : ¬ Meets p q (a - 1, b)) :
    b ≤ p ∨ q < a := by
  unfold Meets at h
  dsimp only at h
  omega

/-! ## Runs -/

/-- What the actions of a pass make of a text, if they succeed, and the spans that they work on. -/
structure Pass (A : Type) where
  act : A → Text → Option Text
  spans : A → Text → List (Nat × Nat)

namespace Pass

variable {A : Type} {p : Pass A} {start : Option Char → Bool} {P : Text → Option Char → Prop}
  {t t' mid : Text} {actions others : List A}

/-- The text after several actions. -/
def run (p : Pass A) : Text → List A → Option Text
  | t, [] => some t
  | t, a :: actions => (p.act a t).bind fun t' => p.run t' actions

/-- Without actions the text stays as it is. -/
@[simp] lemma run_nil : p.run t [] = some t :=
  rfl

/-- The run goes on with the text that the first action leaves. -/
lemma run_cons {a : A} (h : p.act a t = some mid) : p.run t (a :: actions) = p.run mid actions := by
  rw [run, h, Option.bind_some]

/-- The run goes on with the text that the first actions leave. -/
lemma run_append (h : p.run t actions = some mid) :
    p.run t (actions ++ others) = p.run mid others := by
  induction actions generalizing t with
  | nil =>
    obtain rfl := Option.some.inj h
    rfl
  | cons a actions ih =>
    obtain ⟨t₁, hact, hrun⟩ := Option.bind_eq_some_iff.mp h
    rw [List.cons_append, run_cons hact]
    exact ih hrun

/-- A run over two lists goes over the first and then over the second. -/
lemma exists_of_run_append (h : p.run t (actions ++ others) = some t') :
    ∃ mid, p.run t actions = some mid ∧ p.run mid others = some t' := by
  induction actions generalizing t with
  | nil => exact ⟨t, rfl, h⟩
  | cons a actions ih =>
    obtain ⟨t₁, hact, hrun⟩ := Option.bind_eq_some_iff.mp h
    obtain ⟨mid, hmid, hrest⟩ := ih hrun
    exact ⟨mid, (run_cons hact).trans hmid, hrest⟩

/-- Some text along a run has a property. -/
def Passes (p : Pass A) (Q : Text → Prop) (t : Text) (actions : List A) : Prop :=
  ∃ done left mid, actions = done ++ left ∧ p.run t done = some mid ∧ Q mid

/-- An action of a run meets a text of a given kind as it stands when the action comes. -/
def Cut (p : Pass A) (start : Option Char → Bool) (P : Text → Option Char → Prop) (t : Text)
    (actions : List A) : Prop :=
  ∃ done a left mid front u back, actions = done ++ a :: left ∧ p.run t done = some mid
    ∧ mid = front ++ (u ++ back) ∧ start front.getLast? = true ∧ P u back.head?
    ∧ ∃ span ∈ p.spans a mid, Meets front.length (front.length + u.length) span

/-- A run comes by the text at its end. -/
lemma passes_of_run {Q : Text → Prop} (h : p.run t actions = some mid) (hQ : Q mid) :
    p.Passes Q t actions :=
  ⟨actions, [], mid, (List.append_nil actions).symm, h, hQ⟩

/-- A run that goes on has come by the same texts. -/
lemma Passes.append {Q : Text → Prop} (h : p.Passes Q t actions) (others : List A) :
    p.Passes Q t (actions ++ others) := by
  obtain ⟨done, left, mid, rfl, hrun, hQ⟩ := h
  exact ⟨done, left ++ others, mid, List.append_assoc _ _ _, hrun, hQ⟩

/-- A run comes by the texts of its second half. -/
lemma Passes.behind {Q : Text → Prop} (hrun : p.run t actions = some mid)
    (h : p.Passes Q mid others) : p.Passes Q t (actions ++ others) := by
  obtain ⟨done, left, mid', rfl, hdone, hQ⟩ := h
  exact ⟨actions ++ done, left, mid', (List.append_assoc _ _ _).symm,
    (run_append hrun).trans hdone, hQ⟩

/-- A text is cut in a run when it is cut in its second half. -/
lemma Cut.behind (hrun : p.run t actions = some mid) (h : p.Cut start P mid others) :
    p.Cut start P t (actions ++ others) := by
  obtain ⟨done, a, left, mid', front, u, back, rfl, hdone, hcut⟩ := h
  exact ⟨actions ++ done, a, left, mid', front, u, back, (List.append_assoc _ _ _).symm,
    (run_append hrun).trans hdone, hcut⟩

/-- Every action keeps the texts of a kind that its spans do not meet. -/
def Keeps (p : Pass A) (start : Option Char → Bool) (P : Text → Option Char → Prop) : Prop :=
  ∀ {a t t' front u back}, p.act a t = some t' → t = front ++ (u ++ back) →
    start front.getLast? = true → P u back.head? →
    (∃ span ∈ p.spans a t, Meets front.length (front.length + u.length) span)
      ∨ ∃ front' back', t' = front' ++ (u ++ back') ∧ start front'.getLast? = true ∧ P u back'.head?

/-- A pass that keeps every part which its spans do not meet, with the character that follows, keeps
texts of any kind wherever they stand. -/
lemma keeps_of_clear
    (hp : ∀ {a t t' front u back}, p.act a t = some t' → u ≠ [] → t = front ++ (u ++ back) →
      (∀ span ∈ p.spans a t, ¬ Meets front.length (front.length + u.length) span) →
      ∃ front' back', t' = front' ++ (u ++ back') ∧ back'.head? = back.head?)
    (hP : ∀ {u next}, P u next → u ≠ []) : p.Keeps (fun _ => true) P := by
  intro a t t' front u back hact ht _ hu
  by_cases hmeets : ∃ span ∈ p.spans a t, Meets front.length (front.length + u.length) span
  · exact Or.inl hmeets
  · have hclear : ∀ span ∈ p.spans a t, ¬ Meets front.length (front.length + u.length) span :=
      fun span hspan h => hmeets ⟨span, hspan, h⟩
    obtain ⟨front', back', ht', hhead⟩ := hp hact (hP hu) ht hclear
    exact Or.inr ⟨front', back', ht', rfl, hhead ▸ hu⟩

/-- **Along a run a text stands to the end, or an action cuts into it.** -/
theorem run_keeps (hp : p.Keeps start P) (hrun : p.run t actions = some t') (h : Stands start P t) :
    Stands start P t' ∨ p.Cut start P t actions := by
  induction actions generalizing t with
  | nil =>
    obtain rfl := Option.some.inj hrun
    exact Or.inl h
  | cons a actions ih =>
    obtain ⟨t₁, hact, hrest⟩ := Option.bind_eq_some_iff.mp hrun
    obtain ⟨front, u, back, ht, hstart, hu⟩ := h
    rcases hp hact ht hstart hu with hmeets | ⟨front', back', ht', hstart', hu'⟩
    · exact Or.inr ⟨[], a, actions, t, front, u, back, rfl, rfl, ht, hstart, hu, hmeets⟩
    · refine (ih hrest ⟨front', u, back', ht', hstart', hu'⟩).imp_right fun hcut => ?_
      have hone : p.run t [a] = some t₁ := run_cons hact
      exact Cut.behind hone hcut

/-- What stands at some point of a run stands at its end, or an action cuts into it. -/
theorem Passes.written (hp : p.Keeps start P) (h : p.Passes (Stands start P) t actions)
    (hrun : p.run t actions = some t') : Stands start P t' ∨ p.Cut start P t actions := by
  obtain ⟨done, left, mid, rfl, hdone, hstands⟩ := h
  rw [run_append hdone] at hrun
  exact (run_keeps hp hrun hstands).imp_right fun hcut => hcut.behind hdone

/-! ## Places -/

/-- Where a place of a text comes along a run, when `move` says where one action takes it. -/
def follow (p : Pass A) (move : A → Text → Nat → Nat) : Text → Nat → List A → Option Nat
  | _, i, [] => some i
  | t, i, a :: actions => (p.act a t).bind fun t' => p.follow move t' (move a t i) actions

/-- An action of a run meets the part of a given size that stood at `i`, where it stands when the
action comes. -/
def CutAt (p : Pass A) (move : A → Text → Nat → Nat) (size : Nat) (t : Text) (i : Nat)
    (actions : List A) : Prop :=
  ∃ done a left mid j, actions = done ++ a :: left ∧ p.run t done = some mid
    ∧ p.follow move t i done = some j ∧ ∃ span ∈ p.spans a mid, Meets j (j + size) span

variable {move : A → Text → Nat → Nat} {front u back : Text}

/-- **Along a run a part stands where it is followed to, or an action cuts into it.** -/
theorem run_follows
    (hp : ∀ {a t t' front u back}, p.act a t = some t' → u ≠ [] → t = front ++ (u ++ back) →
      (∀ span ∈ p.spans a t, ¬ Meets front.length (front.length + u.length) span) →
      ∃ front' back', t' = front' ++ (u ++ back') ∧ back'.head? = back.head?
        ∧ front'.length = move a t front.length)
    (hu : u ≠ []) (ht : t = front ++ (u ++ back)) (hrun : p.run t actions = some t') :
    (∃ front' back', t' = front' ++ (u ++ back') ∧ back'.head? = back.head?
        ∧ p.follow move t front.length actions = some front'.length)
      ∨ p.CutAt move u.length t front.length actions := by
  induction actions generalizing t front back with
  | nil =>
    obtain rfl := Option.some.inj hrun
    exact Or.inl ⟨front, back, ht, rfl, rfl⟩
  | cons a actions ih =>
    obtain ⟨t₁, hact, hrest⟩ := Option.bind_eq_some_iff.mp hrun
    by_cases hmeets : ∃ span ∈ p.spans a t, Meets front.length (front.length + u.length) span
    · exact Or.inr ⟨[], a, actions, t, front.length, rfl, rfl, rfl, hmeets⟩
    · obtain ⟨front', back', ht', hhead, hplace⟩ := hp hact hu ht fun span hspan h =>
        hmeets ⟨span, hspan, h⟩
      have hfollow : ∀ left, p.follow move t front.length (a :: left)
          = p.follow move t₁ front'.length left := fun left => by
        rw [follow, hact, Option.bind_some, ← hplace]
      rcases ih ht' hrest with ⟨front'', back'', ht'', hhead', hplace'⟩ | hcut
      · exact Or.inl ⟨front'', back'', ht'', hhead'.trans hhead, (hfollow actions).trans hplace'⟩
      · obtain ⟨done, b, left, mid, j, rfl, hdone, hj, hspan⟩ := hcut
        exact Or.inr ⟨a :: done, b, left, mid, j, rfl, (run_cons hact).trans hdone,
          (hfollow done).trans hj, hspan⟩

/-! ## Runs that fail -/

section failure

variable {g : Text → A → Except Fault Text} {f : Fault}
  (hp : ∀ a t, p.act a t = (g t a).toOption)

include hp

/-- A run gives what its steps give, one after the other. -/
lemma run_eq_toOption (t : Text) (actions : List A) :
    p.run t actions = (actions.foldlM g t).toOption := by
  induction actions generalizing t with
  | nil => rfl
  | cons a actions ih =>
    rw [run, hp, List.foldlM_cons]
    cases h : g t a with
    | error e => rfl
    | ok t' => exact ih t'

/-- A run that comes to a text does so step by step. -/
lemma foldlM_eq_ok_iff : actions.foldlM g t = .ok mid ↔ p.run t actions = some mid := by
  rw [run_eq_toOption hp]
  cases actions.foldlM g t with
  | error e => simp [Except.toOption]
  | ok t' => simp [Except.toOption]

/-- **A run fails at the first action that does**, in the text that the actions before it leave. -/
theorem foldlM_eq_error_iff : actions.foldlM g t = .error f ↔
    ∃ done a left mid, actions = done ++ a :: left ∧ p.run t done = some mid
      ∧ g mid a = .error f := by
  induction actions generalizing t with
  | nil =>
    refine iff_of_false (by rintro ⟨⟩) ?_
    rintro ⟨done, a, left, mid, hsplit, -⟩
    exact absurd hsplit (by simp)
  | cons a actions ih =>
    rw [List.foldlM_cons]
    cases hact : g t a with
    | error e =>
      constructor
      · intro h
        exact ⟨[], a, actions, t, rfl, rfl, hact.trans h⟩
      · rintro ⟨done, a', left, mid, hsplit, hrun, herror⟩
        cases done with
        | nil =>
          obtain ⟨rfl, rfl⟩ := List.cons.inj hsplit
          obtain rfl := Option.some.inj hrun
          exact hact.symm.trans herror
        | cons a'' done =>
          obtain ⟨rfl, rfl⟩ := List.cons.inj hsplit
          rw [run, hp, hact] at hrun
          cases hrun
    | ok t' =>
      have hact' : p.act a t = some t' := by
        rw [hp, hact]
        rfl
      refine Iff.trans (ih (t := t')) ⟨?_, ?_⟩
      · rintro ⟨done, a', left, mid, rfl, hrun, herror⟩
        exact ⟨a :: done, a', left, mid, rfl, (run_cons hact').trans hrun, herror⟩
      · rintro ⟨done, a', left, mid, hsplit, hrun, herror⟩
        cases done with
        | nil =>
          obtain ⟨rfl, rfl⟩ := List.cons.inj hsplit
          obtain rfl := Option.some.inj hrun
          rw [hact] at herror
          cases herror
        | cons a'' done =>
          obtain ⟨rfl, rfl⟩ := List.cons.inj hsplit
          exact ⟨done, a', left, mid, rfl, (run_cons hact').symm.trans hrun, herror⟩

end failure

end Pass

end Esmify
