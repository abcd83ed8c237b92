import Esmify.Proofs.GlobalPass
import Esmify.Proofs.Run
import Esmify.Proofs.Uses

/-!
# The pass over uses

Uses of names are replaced one name after the other (`usePass`). **Replacing the uses of a name
keeps what none of them meets** (`usePass_keeps`), with the character that follows: a text that is
cut into pieces at the matches of a pattern loses nothing but the matches
(`Scan.replaced_keeps`). -/

namespace Esmify

open Text Source

/-! ## Replacing -/

section replacing

variable {p : Pattern Text} {before : Option Char} {pieces : List (Piece Text)}
    {front u back : Text}

/-- A match at an offset meets the part of a text that goes on there or ends there. -/
lemma meets_of_found {a b offset size : Nat} (ha : a ≤ offset) (hb : offset ≤ b) (hab : a < b)
    (hsize : 0 < size) : Meets a b (offset - 1, offset + size) := by
  unfold Meets
  dsimp only
  omega

/-- A part at the front of a text is kept, up to its end at `b`, and so is the character behind
it. -/
lemma Scan.replaced_front (h : Scan p before pieces) {a b offset : Nat} (ha : a ≤ offset)
    (hb : offset + u.length = b) (hab : a < b) (heq : joined pieces = u ++ back)
    (hclear : ∀ o ∈ places offset pieces, ¬ Meets a b (o.start - 1, o.stop)) :
    ∃ back', replaced pieces = u ++ back' ∧ back'.head? = back.head? := by
  induction u generalizing before pieces offset with
  | nil =>
    rw [List.length_nil] at hb
    cases h with
    | done _ => exact ⟨[], rfl, congrArg List.head? heq⟩
    | @plain _ c _ _ _ => exact ⟨_, rfl, show some c = _ from congrArg List.head? heq⟩
    | found _ _ =>
      exact absurd (meets_of_found ha hb.le hab (Nat.succ_pos _)) (hclear _ List.mem_cons_self)
  | cons c u ih =>
    rw [List.length_cons] at hb
    cases h with
    | done _ => cases heq
    | plain _ hscan =>
      obtain ⟨rfl, htail⟩ := List.cons.inj heq
      obtain ⟨back', hreplaced, hhead⟩ := ih hscan (Nat.le_succ_of_le ha) (by omega) htail hclear
      exact ⟨back', congrArg (List.cons _) hreplaced, hhead⟩
    | found _ _ =>
      exact absurd (meets_of_found ha (by omega) hab (Nat.succ_pos _)) (hclear _ List.mem_cons_self)

/-- **Replacing keeps a part that no match meets**, and the character that follows it. -/
lemma Scan.replaced_keeps (h : Scan p before pieces) (hu : u ≠ []) (offset : Nat)
    (heq : joined pieces = front ++ (u ++ back))
    (hclear : ∀ o ∈ places offset pieces,
      ¬ Meets (offset + front.length) (offset + front.length + u.length) (o.start - 1, o.stop)) :
    ∃ front' back', replaced pieces = front' ++ (u ++ back') ∧ back'.head? = back.head? := by
  have hlt : ∀ n : Nat, n < n + u.length := fun n =>
    Nat.lt_add_of_pos_right (List.length_pos_iff.mpr hu)
  induction h generalizing front offset with
  | done _ =>
    obtain ⟨-, hnil⟩ := List.append_eq_nil_iff.mp heq.symm
    exact absurd (List.append_eq_nil_iff.mp hnil).1 hu
  | @plain before c pieces hnone hscan ih =>
    cases front with
    | nil =>
      obtain ⟨back', hreplaced, hhead⟩ := Scan.replaced_front (.plain hnone hscan) le_rfl rfl
        (hlt offset) heq hclear
      exact ⟨[], back', hreplaced, hhead⟩
    | cons d front =>
      obtain ⟨rfl, htail⟩ := List.cons.inj heq
      rw [List.length_cons, Nat.add_comm front.length, ← Nat.add_assoc] at hclear
      obtain ⟨front', back', hreplaced, hhead⟩ := ih (offset + 1) htail hclear
      exact ⟨c :: front', back', congrArg (List.cons c) hreplaced, hhead⟩
  | @found before c m value pieces hmatch hscan ih =>
    -- the match stands ahead of the part
    have hahead : (c :: m).length ≤ front.length := by
      have := clear_of_not_meets (hlt _) (hclear _ List.mem_cons_self)
      dsimp only at this
      omega
    obtain ⟨front', rfl, htail⟩ := exists_of_append_eq_append heq hahead
    rw [List.length_append, ← Nat.add_assoc] at hclear
    obtain ⟨front'', back', hreplaced, hhead⟩ := ih _ htail fun o ho =>
      hclear o (List.mem_cons_of_mem _ ho)
    refine ⟨value ++ front'', back', ?_, hhead⟩
    rw [replaced, hreplaced, List.append_assoc]

end replacing

/-! ## Uses -/

/-- Filling in a template does not move the matches of a pattern. -/
lemma occurrencesFrom_filled {α : Type} (p : Pattern α) (template : Template) (before : Option Char)
    (offset skip : Nat) (t : Text) :
    (Source.occurrencesFrom (filled p template) before offset skip t).map
      (fun o => (o.start, o.stop)) =
      (Source.occurrencesFrom p before offset skip t).map fun o => (o.start, o.stop) := by
  fun_induction Source.occurrencesFrom p before offset skip t with
  | case1 before offset a rest hmatch => simp [Source.occurrencesFrom, filled, hmatch]
  | case2 before offset hmatch => simp [Source.occurrencesFrom, filled, hmatch]
  | case3 => rfl
  | case4 before offset c cs a rest hmatch size ih =>
    simp only [Source.occurrencesFrom, filled, hmatch, Option.map_some, List.map_cons]
    exact congrArg (List.cons _) ih
  | case5 before offset c cs hmatch ih => simp [Source.occurrencesFrom, filled, hmatch, ← ih]
  | case6 before offset skip c cs ih => exact ih

/-- The pass that replaces the uses of names. Each use is taken with the character ahead of it. -/
def usePass : Pass Text where
  act name t := (replaceUse t name).toOption
  spans name t := (occurrences (exportsUse name) t).map fun o => (o.start - 1, o.stop)

/-- **Replacing the uses of a name keeps what none of them meets.** -/
lemma replaceUse_keeps {t t' front u back name : Text} (h : replaceUse t name = .ok t')
    (hu : u ≠ []) (ht : t = front ++ (u ++ back))
    (hclear : ∀ span ∈ usePass.spans name t, ¬ Meets front.length (front.length + u.length) span) :
    ∃ front' back', t' = front' ++ (u ++ back') ∧ back'.head? = back.head? := by
  unfold replaceUse at h
  split_ifs at h with hholds
  · cases htemplate : Template.ofText name with
    | error f =>
      rw [htemplate] at h
      cases h
    | ok template =>
      rw [htemplate] at h
      obtain rfl := Except.ok.inj h
      obtain ⟨pieces, rfl, hscan⟩ :=
        exists_scan (consumes_filled (exportsUse_consumes name) template) t none
      rw [replaceAll_eq_replaced hscan]
      refine Scan.replaced_keeps hscan hu 0 ht fun o ho => ?_
      rw [← occurrences_eq_places hscan] at ho
      -- a match of the filled pattern is a use at the same place
      have hmem := List.mem_map_of_mem (f := fun o => (o.start, o.stop)) ho
      rw [Source.occurrences, occurrencesFrom_filled] at hmem
      obtain ⟨use, huse, heq⟩ := List.mem_map.mp hmem
      obtain ⟨hstart, hstop⟩ := Prod.mk.inj heq
      rw [Nat.zero_add, ← hstart, ← hstop]
      exact hclear _ (List.mem_map_of_mem huse)
  · obtain rfl := Except.ok.inj h
    exact ⟨front, back, ht, rfl⟩

/-- **The pass over uses keeps what its spans do not meet.** -/
lemma usePass_keeps {P : Text → Option Char → Prop} (hP : ∀ {u next}, P u next → u ≠ []) :
    usePass.Keeps (fun _ => true) P :=
  Pass.keeps_of_clear (p := usePass) (P :=
    P) (fun hact => replaceUse_keeps (exists_of_toOption hact)) hP

end Esmify
