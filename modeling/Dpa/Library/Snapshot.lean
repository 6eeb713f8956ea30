import Mathlib.Data.List.Perm.Basic
import Dpa.Library.Machine

namespace Dpa.Library

open Function

variable {σ ρ ε : Type}

/-- An object whose calls read their arguments in one step and do their work in a later one.
`act` is what else can happen to the object. -/
structure Snapshots (σ ρ ε : Type) where
  read : σ → ρ
  body : ρ → σ → Option σ
  act : ε → σ → Option σ

namespace Snapshots

inductive Event (ε : Type)
  | enter (call : ℕ)
  | body (call : ℕ)
  | act (e : ε)

structure Shared (σ ρ : Type) where
  object : σ
  entered : ℕ → Option ρ

def start (s : σ) : Shared σ ρ := ⟨s, fun _ ↦ none⟩

variable (sys : Snapshots σ ρ ε)

def exec (t : Shared σ ρ) : Event ε → Option (Shared σ ρ)
  | .enter c =>
    if (t.entered c).isNone then
      some { t with entered := update t.entered c (some (sys.read t.object)) }
    else none
  | .body c => (t.entered c).bind fun r ↦
      (sys.body r t.object).map fun s ↦ ⟨s, update t.entered c none⟩
  | .act e => (sys.act e t.object).map fun s ↦ { t with object := s }

/-- The event where each call reads its arguments as it does its work. -/
def serial (s : σ) : Event ε → Option σ
  | .enter _ => some s
  | .body _ => sys.body (sys.read s) s
  | .act e => sys.act e s

/-- Some serial order of the events leads from `s` to `s'`. -/
def Serialisable (s : σ) (es : List (Event ε)) (s' : σ) : Prop :=
  ∃ es', es'.Perm es ∧ run sys.serial es' s = some s'

/-- The arguments of a call that does its work are still those that it read. -/
def Fresh (t : Shared σ ρ) : Event ε → Prop
  | .body c => ∀ r, t.entered c = some r → r = sys.read t.object
  | _ => True

variable {sys} {es : List (Event ε)} {e : Event ε} {t t' : Shared σ ρ}

theorem exec_cases (h : sys.exec t e = some t') :
    (∃ c, e = .enter c ∧ t' = { t with entered := update t.entered c (some (sys.read t.object)) }) ∨
    (∃ c r s, e = .body c ∧ t.entered c = some r ∧ sys.body r t.object = some s ∧
      t' = ⟨s, update t.entered c none⟩) ∨
    ∃ a s, e = .act a ∧ sys.act a t.object = some s ∧ t' = { t with object := s } := by
  cases e with
  | enter c =>
    left
    simp only [exec] at h
    split_ifs at h
    exact ⟨c, rfl, (Option.some.inj h).symm⟩
  | body c =>
    obtain ⟨r, hr, hbody⟩ := Option.bind_eq_some_iff.1 h
    obtain ⟨s, hs, rfl⟩ := Option.map_eq_some_iff.1 hbody
    exact .inr (.inl ⟨c, r, s, rfl, hr, hs, rfl⟩)
  | act a =>
    obtain ⟨s, hs, rfl⟩ := Option.map_eq_some_iff.1 h
    exact .inr (.inr ⟨a, s, rfl, hs, rfl⟩)

theorem Fresh.serial (h : sys.Fresh t e) (heq : sys.exec t e = some t') :
    sys.serial t.object e = some t'.object := by
  obtain ⟨c, rfl, rfl⟩ | ⟨c, r, s, rfl, hr, hs, rfl⟩ | ⟨a, s, rfl, hs, rfl⟩ := exec_cases heq
  · rfl
  · rw [h r hr] at hs
    exact hs
  · exact hs

/-- A run of fresh calls ends where they lead when each is done at once, in the same order. -/
theorem fresh_serial (h : Throughout sys.exec sys.Fresh es t) (hr : run sys.exec es t = some t') :
    run sys.serial es t.object = some t'.object := by
  induction es generalizing t with
  | nil =>
    obtain rfl : t = t' := Option.some.inj hr
    rfl
  | cons e es ih =>
    obtain ⟨t₁, heq, hr₁⟩ := Option.bind_eq_some_iff.1 hr
    rw [run_cons (h.1.serial heq)]
    exact ih (h.2 t₁ heq) hr₁

theorem fresh_serialisable (h : Throughout sys.exec sys.Fresh es t)
    (hr : run sys.exec es t = some t') : sys.Serialisable t.object es t'.object :=
  ⟨es, .refl es, fresh_serial h hr⟩

theorem exists_stale (h : ¬Throughout sys.exec sys.Fresh es t)
    (hr : run sys.exec es t = some t') :
    ∃ es₁ c es₂ t₁ r, es = es₁ ++ .body c :: es₂ ∧ Throughout sys.exec sys.Fresh es₁ t ∧
      run sys.exec es₁ t = some t₁ ∧ t₁.entered c = some r ∧ r ≠ sys.read t₁.object := by
  obtain ⟨es₁, e, es₂, t₁, rfl, h₁, hr₁, hn⟩ := exists_first h hr
  cases e with
  | enter c => exact absurd trivial hn
  | act e => exact absurd trivial hn
  | body c =>
    obtain ⟨r, hr⟩ := not_forall.1 hn
    obtain ⟨hr, hne⟩ := Classical.not_imp.1 hr
    exact ⟨es₁, c, es₂, t₁, r, rfl, h₁, hr₁, hr, hne⟩

section

variable {P : σ → Prop} {Q : ρ → Prop}

theorem exec_entered (hread : ∀ s, P s → Q (sys.read s)) (hs : P t.object)
    (ht : ∀ c r, t.entered c = some r → Q r) (heq : sys.exec t e = some t') (c : ℕ) (r : ρ)
    (hr : t'.entered c = some r) : Q r := by
  obtain ⟨d, rfl, rfl⟩ | ⟨d, _, s, rfl, _, _, rfl⟩ | ⟨_, s, rfl, _, rfl⟩ := exec_cases heq
  · change update t.entered d (some (sys.read t.object)) c = some r at hr
    by_cases hcd : c = d
    · rw [hcd, update_self, Option.some.injEq] at hr
      rw [← hr]
      exact hread _ hs
    · rw [update_of_ne hcd] at hr
      exact ht c r hr
  · change update t.entered d none c = some r at hr
    by_cases hcd : c = d
    · rw [hcd, update_self] at hr
      cases hr
    · rw [update_of_ne hcd] at hr
      exact ht c r hr
  · exact ht c r hr

/-- An invariant of the serial object holds in every state of a run of fresh calls. -/
theorem fresh_preserves (hstep : ∀ s e s', P s → sys.serial s e = some s' → P s')
    (hread : ∀ s, P s → Q (sys.read s)) (h : Throughout sys.exec sys.Fresh es t)
    (hs : P t.object) (ht : ∀ c r, t.entered c = some r → Q r)
    (hr : run sys.exec es t = some t') :
    P t'.object ∧ ∀ c r, t'.entered c = some r → Q r := by
  refine h.preserves (P := fun t ↦ P t.object ∧ ∀ c r, t.entered c = some r → Q r) ?_ ⟨hs, ht⟩ hr
  rintro t e t' ⟨hs, ht⟩ hf heq
  exact ⟨hstep _ e _ hs (hf.serial heq), exec_entered hread hs ht heq⟩

end

end Snapshots

end Dpa.Library
