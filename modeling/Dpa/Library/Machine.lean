import Mathlib.Tactic

namespace Dpa.Library

variable {σ ε : Type}

/-- The state after a list of events, or `none` where one of them cannot happen. -/
def run (exec : σ → ε → Option σ) : List ε → σ → Option σ
  | [], s => some s
  | e :: es, s => (exec s e).bind (run exec es)

/-- Every event of the run finds the state as `C` wants it. -/
def Throughout (exec : σ → ε → Option σ) (C : σ → ε → Prop) : List ε → σ → Prop
  | [], _ => True
  | e :: es, s => C s e ∧ ∀ s', exec s e = some s' → Throughout exec C es s'

variable {exec : σ → ε → Option σ} {C : σ → ε → Prop} {P : σ → Prop} {es es₁ es₂ : List ε} {e : ε}
  {s s' : σ}

def Throughout.decide [∀ s e, Decidable (C s e)] :
    (es : List ε) → (s : σ) → Decidable (Throughout exec C es s)
  | [], _ => isTrue trivial
  | e :: es, s =>
    match hexec : exec s e with
    | none => decidable_of_iff (C s e) (by simp [Throughout, hexec])
    | some s' =>
      have : Decidable (Throughout exec C es s') := Throughout.decide es s'
      decidable_of_iff (C s e ∧ Throughout exec C es s') (by simp [Throughout, hexec])

instance [∀ s e, Decidable (C s e)] : Decidable (Throughout exec C es s) := Throughout.decide es s

theorem run_cons (h : exec s e = some s') : run exec (e :: es) s = run exec es s' := by
  rw [run, h, Option.bind_some]

theorem run_append : run exec (es₁ ++ es₂) s = (run exec es₁ s).bind (run exec es₂) := by
  induction es₁ generalizing s with
  | nil => rfl
  | cons e es ih =>
    rw [List.cons_append, run, run, Option.bind_assoc]
    exact congrArg _ (funext fun _ ↦ ih)

theorem run_trans {s'' : σ} (h₁ : run exec es₁ s = some s') (h₂ : run exec es₂ s' = some s'') :
    run exec (es₁ ++ es₂) s = some s'' := by
  rw [run_append, h₁, Option.bind_some, h₂]

theorem run_snoc (hr : run exec es s = some s') :
    run exec (es ++ [e]) s = exec s' e := by
  rw [run_append, hr, Option.bind_some, run]
  cases exec s' e with
  | none => rfl
  | some s => rfl

theorem Throughout.left (h : Throughout exec C (es₁ ++ es₂) s) : Throughout exec C es₁ s := by
  induction es₁ generalizing s with
  | nil => exact trivial
  | cons e es ih => exact ⟨h.1, fun s' heq ↦ ih (h.2 s' heq)⟩

theorem Throughout.append (h₁ : Throughout exec C es₁ s) (hr : run exec es₁ s = some s')
    (h₂ : Throughout exec C es₂ s') : Throughout exec C (es₁ ++ es₂) s := by
  induction es₁ generalizing s with
  | nil =>
    obtain rfl : s = s' := Option.some.inj hr
    exact h₂
  | cons e es ih =>
    refine ⟨h₁.1, fun s₁ heq ↦ ih (h₁.2 s₁ heq) ?_⟩
    rwa [run_cons heq] at hr

theorem Throughout.right (h : Throughout exec C (es₁ ++ es₂) s) (hr : run exec es₁ s = some s') :
    Throughout exec C es₂ s' := by
  induction es₁ generalizing s with
  | nil =>
    obtain rfl : s = s' := Option.some.inj hr
    exact h
  | cons e es ih =>
    obtain ⟨s₁, heq, hr₁⟩ := Option.bind_eq_some_iff.1 hr
    exact ih (h.2 s₁ heq) hr₁

theorem Throughout.next (h : Throughout exec C (es₁ ++ e :: es₂) s)
    (hr : run exec es₁ s = some s') : C s' e := (h.right hr).1

theorem Throughout.cons (h : C s e) (heq : exec s e = some s') (hes : Throughout exec C es s') :
    Throughout exec C (e :: es) s := by
  refine ⟨h, ?_⟩
  intro s'' heq'
  obtain rfl : s' = s'' := Option.some.inj (heq.symm.trans heq')
  exact hes

theorem Throughout.of_forall (h : ∀ s e, C s e) : Throughout exec C es s := by
  induction es generalizing s with
  | nil => exact trivial
  | cons e es ih => exact ⟨h s e, fun _ _ ↦ ih⟩

/-- A run that does not meet `C` throughout has a first event that does not. -/
theorem exists_first (h : ¬Throughout exec C es s) (hr : run exec es s = some s') :
    ∃ es₁ e es₂ s₁, es = es₁ ++ e :: es₂ ∧ Throughout exec C es₁ s ∧
      run exec es₁ s = some s₁ ∧ ¬C s₁ e := by
  induction es generalizing s with
  | nil => exact absurd trivial h
  | cons e es ih =>
    by_cases hC : C s e
    · obtain ⟨s₁, heq, hr₁⟩ := Option.bind_eq_some_iff.1 hr
      have hes : ¬Throughout exec C es s₁ := fun hes ↦ h (.cons hC heq hes)
      obtain ⟨es₁, e', es₂, s₂, rfl, h₁, hrun, hn⟩ := ih hes hr₁
      exact ⟨e :: es₁, e', es₂, s₂, rfl, .cons hC heq h₁, (run_cons heq).trans hrun, hn⟩
    · exact ⟨[], e, es, s, rfl, trivial, rfl, hC⟩

theorem Throughout.preserves (hstep : ∀ s e s', P s → C s e → exec s e = some s' → P s')
    (h : Throughout exec C es s) (hs : P s) (hr : run exec es s = some s') : P s' := by
  induction es generalizing s with
  | nil =>
    obtain rfl : s = s' := Option.some.inj hr
    exact hs
  | cons e es ih =>
    obtain ⟨s₁, heq, hr₁⟩ := Option.bind_eq_some_iff.1 hr
    exact ih (h.2 s₁ heq) (hstep s e s₁ hs h.1 heq) hr₁

theorem run_foldl (f : σ → ε → σ) (es : List ε) (s : σ) :
    run (fun s e ↦ some (f s e)) es s = some (es.foldl f s) := by
  induction es generalizing s with
  | nil => rfl
  | cons e es ih => exact ih (f s e)

theorem run_preserves (hstep : ∀ s e s', P s → exec s e = some s' → P s') (hs : P s)
    (hr : run exec es s = some s') : P s' := by
  induction es generalizing s with
  | nil =>
    obtain rfl : s = s' := Option.some.inj hr
    exact hs
  | cons e es ih =>
    obtain ⟨s₁, heq, hr₁⟩ := Option.bind_eq_some_iff.1 hr
    exact ih (hstep s e s₁ hs heq) hr₁

end Dpa.Library
