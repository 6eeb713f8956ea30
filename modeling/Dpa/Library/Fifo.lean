import Mathlib.Logic.Relation
import Mathlib.Tactic

namespace Dpa.Library

open Relation

variable {α : Type}

/-- A channel that neither loses, repeats nor reorders: what was sent is what was received and
then what is pending. -/
structure Fifo (α : Type) where
  sent : List α
  received : List α
  pending : List α
  split : sent = received ++ pending

namespace Fifo

def empty : Fifo α := ⟨[], [], [], rfl⟩

def push (q : Fifo α) (xs : List α) : Fifo α where
  sent := q.sent ++ xs
  received := q.received
  pending := q.pending ++ xs
  split := by rw [q.split, List.append_assoc]

def pop (q : Fifo α) (n : ℕ) : Fifo α where
  sent := q.sent
  received := q.received ++ q.pending.take n
  pending := q.pending.drop n
  split := by rw [List.append_assoc, List.take_append_drop, q.split]

inductive Step : Fifo α → Fifo α → Prop
  | push (q : Fifo α) (xs : List α) : Step q (q.push xs)
  | pop (q : Fifo α) (n : ℕ) : Step q (q.pop n)

theorem received_prefix (q : Fifo α) : q.received <+: q.sent := ⟨q.pending, q.split.symm⟩

theorem received_eq (q : Fifo α) (h : q.pending = []) : q.received = q.sent := by
  rw [q.split, h, List.append_nil]

@[simp]
theorem push_nil (q : Fifo α) : q.push [] = q := by
  cases q
  simp [push]

theorem step_idle (q : Fifo α) : Step q q := by
  have h := Step.push q []
  rwa [push_nil] at h

end Fifo

/-- A system whose every step some queue can follow: then every run has one. -/
theorem Fifo.follows {σ : Type} {step : σ → σ → Prop} {abs : σ → Fifo α → Prop}
    (hstep : ∀ s s' q, abs s q → step s s' → ∃ q', Step q q' ∧ abs s' q') {s s' : σ}
    (hr : ReflTransGen step s s') {q : Fifo α} (hq : abs s q) :
    ∃ q', ReflTransGen Step q q' ∧ abs s' q' := by
  induction hr with
  | refl => exact ⟨q, .refl, hq⟩
  | tail _ hs ih =>
    obtain ⟨q₁, hr₁, hq₁⟩ := ih
    obtain ⟨q₂, hs₂, hq₂⟩ := hstep _ _ _ hq₁ hs
    exact ⟨q₂, hr₁.tail hs₂, hq₂⟩

end Dpa.Library
