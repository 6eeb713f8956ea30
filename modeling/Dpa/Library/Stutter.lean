import Mathlib.Data.List.ReduceOption
import Mathlib.Tactic

namespace Dpa.Library

variable {σ τ ι : Type} {step : σ → σ} {env : ι → σ → σ} {step' : τ → τ} {env' : ι → τ → τ}
  {R : σ → τ → Prop} {m : σ → ℕ} {s : σ} {t : τ}

/-- A machine among its surroundings: `none` is a step of its own, `some i` one of theirs. -/
def schedule (step : σ → σ) (env : ι → σ → σ) : List (Option ι) → σ → σ
  | [], s => s
  | none :: l, s => schedule step env l (step s)
  | some i :: l, s => schedule step env l (env i s)

theorem schedule_append (l l' : List (Option ι)) (s : σ) :
    schedule step env (l ++ l') s = schedule step env l' (schedule step env l s) := by
  induction l generalizing s with
  | nil => rfl
  | cons e l ih =>
    cases e with
    | none => exact ih (step s)
    | some i => exact ih (env i s)

theorem schedule_preserves {P : σ → Prop} (hstep : ∀ s, P s → P (step s))
    (henv : ∀ i s, P s → P (env i s)) (l : List (Option ι)) (hs : P s) :
    P (schedule step env l s) := by
  induction l generalizing s with
  | nil => exact hs
  | cons e l ih =>
    cases e with
    | none => exact ih (hstep s hs)
    | some i => exact ih (henv i s hs)

theorem schedule_spends (hstep : ∀ s, m (step s) ≤ m s - 1) (henv : ∀ i s, m (env i s) = m s)
    (l : List (Option ι)) (s : σ) :
    m (schedule step env l s) ≤ m s - l.countP Option.isNone := by
  induction l generalizing s with
  | nil => exact le_rfl
  | cons e l ih =>
    cases e with
    | none =>
      have hrest := ih (step s)
      have hone := hstep s
      rw [List.countP_cons_of_pos rfl]
      exact hrest.trans (by omega)
    | some i =>
      have hrest := ih (env i s)
      rw [henv] at hrest
      rw [List.countP_cons_of_neg (by simp)]
      exact hrest

inductive RunWith (R : σ → σ → Prop) (f : σ → σ) : ℕ → σ → σ → Prop
  | refl (s : σ) : RunWith R f 0 s s
  | own {n : ℕ} {s t : σ} : RunWith R f n s t → RunWith R f (n + 1) s (f t)
  | other {n : ℕ} {s t t' : σ} : RunWith R f n s t → R t t' → RunWith R f n s t'

theorem RunWith.iterate (R : σ → σ → Prop) (f : σ → σ) (n : ℕ) (s : σ) :
    RunWith R f n s (f^[n] s) := by
  induction n with
  | zero => exact .refl s
  | succ n ih =>
    rw [Function.iterate_succ_apply']
    exact ih.own

/-- What the steps of `f` use up and no other step gives back is gone after enough of them. -/
theorem RunWith.spends {R : σ → σ → Prop} {f : σ → σ} {P : σ → Prop} {n : ℕ} {s t : σ}
    (hown : ∀ t, P t → P (f t) ∧ m (f t) ≤ m t - 1)
    (hother : ∀ t t', R t t' → P t → P t' ∧ m t' ≤ m t) (h : RunWith R f n s t) (hs : P s) :
    P t ∧ m t ≤ m s - n := by
  induction h with
  | refl s => exact ⟨hs, le_rfl⟩
  | own h ih =>
    obtain ⟨hP, hm⟩ := ih hs
    obtain ⟨hP', hm'⟩ := hown _ hP
    exact ⟨hP', hm'.trans (by omega)⟩
  | other h hR ih =>
    obtain ⟨hP, hm⟩ := ih hs
    obtain ⟨hP', hm'⟩ := hother _ _ hR hP
    exact ⟨hP', hm'.trans hm⟩

structure Stutters (step : σ → σ) (env : ι → σ → σ) (step' : τ → τ) (env' : ι → τ → τ)
    (R : σ → τ → Prop) (m : σ → ℕ) : Prop where
  own : ∀ s t, R s t → R (step s) (step' t) ∨ R (step s) t ∧ m (step s) < m s
  env : ∀ i s t, R s t → R (env i s) (env' i t)

namespace Stutters

variable (h : Stutters step env step' env' R m)

include h

theorem forward (l : List (Option ι)) (hR : R s t) :
    ∃ l' : List (Option ι), l'.reduceOption = l.reduceOption ∧
      R (schedule step env l s) (schedule step' env' l' t) := by
  induction l generalizing s t with
  | nil => exact ⟨[], rfl, hR⟩
  | cons e l ih =>
    cases e with
    | none =>
      rcases h.own s t hR with hboth | ⟨hstay, -⟩
      · obtain ⟨l', hl', hR'⟩ := ih hboth
        exact ⟨none :: l', by simpa using hl', hR'⟩
      · obtain ⟨l', hl', hR'⟩ := ih hstay
        exact ⟨l', by simpa using hl', hR'⟩
    | some i =>
      obtain ⟨l', hl', hR'⟩ := ih (h.env i s t hR)
      exact ⟨some i :: l', by simpa [List.reduceOption_cons_of_some] using hl', hR'⟩

theorem catches_up (hR : R s t) :
    ∃ n, R (schedule step env (List.replicate n none) s) (step' t) := by
  induction hm : m s using Nat.strong_induction_on generalizing s with
  | h k ih =>
    subst hm
    rcases h.own s t hR with hboth | ⟨hstay, hlt⟩
    · exact ⟨1, hboth⟩
    · obtain ⟨n, hn⟩ := ih _ hlt hstay rfl
      exact ⟨n + 1, hn⟩

theorem backward (l' : List (Option ι)) (hR : R s t) :
    ∃ l : List (Option ι), l.reduceOption = l'.reduceOption ∧
      R (schedule step env l s) (schedule step' env' l' t) := by
  induction l' generalizing s t with
  | nil => exact ⟨[], rfl, hR⟩
  | cons e l' ih =>
    cases e with
    | none =>
      obtain ⟨n, hn⟩ := h.catches_up hR
      obtain ⟨l, hl, hR'⟩ := ih hn
      refine ⟨List.replicate n none ++ l, ?_, ?_⟩
      · rw [List.reduceOption_append, List.reduceOption_replicate_none, List.nil_append, hl]
        exact (List.reduceOption_cons_of_none l').symm
      · rw [schedule_append]
        exact hR'
    | some i =>
      obtain ⟨l, hl, hR'⟩ := ih (h.env i s t hR)
      exact ⟨some i :: l, by simpa [List.reduceOption_cons_of_some] using hl, hR'⟩

end Stutters

end Dpa.Library
