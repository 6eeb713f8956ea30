import Mathlib.Logic.Relation
import Mathlib.Tactic

namespace Dpa.VolatileLoad

open Relation

variable {σ V α β : Type}

/-- A computation that reads a shared state one location at a time. -/
inductive Reader (σ V α : Type) : Type
  | pure (a : α)
  | load (l : σ → V) (k : V → Reader σ V α)

def Reader.bind : Reader σ V α → (α → Reader σ V β) → Reader σ V β
  | .pure a, f => f a
  | .load l k, f => .load l (fun v ↦ (k v).bind f)

instance : Monad (Reader σ V) where
  pure := .pure
  bind := Reader.bind

def load (l : σ → V) : Reader σ V V := .load l .pure

/-- Run against a history of the shared state: the `i`-th load sees `m i`.
The second component is the number of loads made, so the call returns at `m` of it. -/
def Reader.exec (m : ℕ → σ) : Reader σ V α → ℕ → α × ℕ
  | .pure a, i => (a, i)
  | .load l k, i => (k (l (m i))).exec m (i + 1)

/-- The value of a call that no other party interrupts. -/
def Reader.atomically (p : Reader σ V α) (s : σ) : α := (p.exec (fun _ ↦ s) 0).1

@[simp] theorem exec_pure (m : ℕ → σ) (a : α) (i : ℕ) :
    (Pure.pure a : Reader σ V α).exec m i = (a, i) := rfl

@[simp] theorem exec_load_bind (m : ℕ → σ) (l : σ → V) (k : V → Reader σ V α) (i : ℕ) :
    (load l >>= k).exec m i = (k (l (m i))).exec m (i + 1) := rfl

@[simp] theorem exec_ite (m : ℕ → σ) (p : Prop) [Decidable p] (a b : Reader σ V α) (i : ℕ) :
    (if p then a else b).exec m i = if p then a.exec m i else b.exec m i := by
  split_ifs <;> rfl

/-- A history in which only the environment moves, any number of times between two loads. -/
def History (env : σ → σ → Prop) (m : ℕ → σ) : Prop := ∀ i, ReflTransGen env (m i) (m (i + 1))

theorem History.le {env : σ → σ → Prop} {m : ℕ → σ} (h : History env m) {i j : ℕ} (hij : i ≤ j) :
    ReflTransGen env (m i) (m j) := by
  induction j, hij using Nat.le_induction with
  | base => exact .refl
  | succ j _ ih => exact ih.trans (h j)

end Dpa.VolatileLoad
