import Mathlib.Tactic.Lemma
import Esmify.Revision

/-!
# Steps of a revision

What a revision that is made of steps gives, said by what its steps give. A step that succeeds hands
its value on and its warnings stay in front (`run_bind_of_ok`); a revision that succeeds is made of
steps that do (`exists_of_run_bind`), and one that fails has a step that does
(`value_run_bind_eq_error_iff`).
-/

namespace Esmify

variable {α β : Type}

/-! ## Values with warnings -/

namespace Reported

/-- A plain value is the value. -/
@[simp] lemma value_pure (a : α) : (pure a : Reported α).value = a :=
  rfl

/-- A plain value reports nothing. -/
@[simp] lemma warnings_pure (a : α) : (pure a : Reported α).warnings = [] :=
  rfl

/-- The value of two steps is that of the second, made from that of the first. -/
@[simp] lemma value_bind (x : Reported α) (f : α → Reported β) :
    (x >>= f).value = (f x.value).value :=
  rfl

/-- What the first step reports comes first. -/
@[simp] lemma warnings_bind (x : Reported α) (f : α → Reported β) :
    (x >>= f).warnings = x.warnings ++ (f x.value).warnings :=
  rfl

/-- A warning reports itself. -/
@[simp] lemma warnings_warn (w : Warning) : (warn w).warnings = [w] :=
  rfl

end Reported

/-! ## Revisions -/

/-- A step without a fault hands on its value. -/
lemma ok_bind (a : α) (f : α → Except Fault β) : (Except.ok a >>= f) = f a :=
  rfl

namespace Revision

/-- A plain value has no fault and reports nothing. -/
@[simp] lemma run_pure (a : α) : (pure a : Revision α).run = ⟨.ok a, []⟩ :=
  rfl

/-- A warning has no fault and reports itself. -/
@[simp] lemma run_warn (w : Warning) : (warn w).run = ⟨.ok (), [w]⟩ :=
  rfl

/-- A step that may fail reports nothing. -/
@[simp] lemma run_ofExcept (e : Except Fault α) : (ofExcept e).run = ⟨e, []⟩ :=
  rfl

/-- A step that reports has no fault. -/
@[simp] lemma run_ofReported (r : Reported α) : (ofReported r).run = ⟨.ok r.value, r.warnings⟩ := by
  show (⟨.ok r.value, r.warnings ++ []⟩ : Reported (Except Fault α)) = _
  rw [List.append_nil]

/-- A step that succeeds hands its value on; its warnings come first. -/
lemma run_bind_of_ok {x : Revision α} {f : α → Revision β} {a : α} {ws : List Warning}
    (h : x.run = ⟨.ok a, ws⟩) :
    (x >>= f).run = ⟨(f a).run.value, ws ++ (f a).run.warnings⟩ := by
  show Reported.bind x.run (ExceptT.bindCont f) = _
  rw [h]
  rfl

/-- A step that fails ends the revision. -/
lemma run_bind_of_error {x : Revision α} {f : α → Revision β} {e : Fault} {ws : List Warning}
    (h : x.run = ⟨.error e, ws⟩) : (x >>= f).run = ⟨.error e, ws⟩ := by
  show Reported.bind x.run (ExceptT.bindCont f) = _
  rw [h]
  show (⟨.error e, ws ++ []⟩ : Reported (Except Fault β)) = _
  rw [List.append_nil]

/-- The outcome of a revision whose first step succeeds. -/
lemma value_run_bind_of_ok {x : Revision α} {f : α → Revision β} {a : α}
    (h : x.run.value = .ok a) : (x >>= f).run.value = (f a).run.value := by
  rw [run_bind_of_ok (show x.run = ⟨.ok a, x.run.warnings⟩ by rw [← h])]

/-- A revision that succeeds is made of steps that do. -/
lemma exists_of_run_bind {x : Revision α} {f : α → Revision β} {b : β}
    (h : (x >>= f).run.value = .ok b) :
    ∃ a, x.run.value = .ok a ∧ (f a).run.value = .ok b
      ∧ (x >>= f).run.warnings = x.run.warnings ++ (f a).run.warnings := by
  cases hx : x.run with
  | mk value ws =>
    cases value with
    | error e =>
      rw [run_bind_of_error hx] at h
      exact absurd h (by simp)
    | ok a =>
      rw [run_bind_of_ok hx] at h ⊢
      exact ⟨a, rfl, h, rfl⟩

/-- The outcome of a revision is that of its steps, warnings aside. -/
lemma value_run_bind (x : Revision α) (f : α → Revision β) :
    (x >>= f).run.value = x.run.value >>= fun a => (f a).run.value := by
  cases hx : x.run with
  | mk value ws =>
    cases value with
    | error e =>
      rw [run_bind_of_error hx]
      rfl
    | ok a =>
      rw [run_bind_of_ok hx]
      rfl

/-- A revision fails when its first step does, or else the rest of it. -/
lemma value_run_bind_eq_error_iff {x : Revision α} {f : α → Revision β} {e : Fault} :
    (x >>= f).run.value = .error e ↔
      x.run.value = .error e ∨ ∃ a, x.run.value = .ok a ∧ (f a).run.value = .error e := by
  rw [value_run_bind]
  cases x.run.value with
  | error e' => simp [bind, Except.bind]
  | ok a => simp [bind, Except.bind]

/-- Raising warnings one by one succeeds. -/
lemma value_run_warnEach (w : α → Warning) (as : List α) :
    (warnEach w as).run.value = .ok () := by
  induction as with
  | nil => rfl
  | cons a as ih =>
    rw [warnEach, run_bind_of_ok (run_warn (w a))]
    exact ih

end Revision

/-- A report is known by what came out and by its warnings. -/
lemma Reported.eq_of_toOption {r : Reported (Except Fault α)} {a : α} {ws : List Warning}
    (hvalue : r.value.toOption = some a) (hwarnings : r.warnings = ws) : r = ⟨.ok a, ws⟩ := by
  obtain ⟨value, warnings⟩ := r
  cases value with
  | error e => exact absurd hvalue (by simp [Except.toOption])
  | ok b =>
    obtain rfl := Option.some.inj hvalue
    exact hwarnings ▸ rfl

end Esmify
