import Mathlib.Tactic

namespace Dpa.Loop

variable {α : Type} {i : ℕ}

/-- How many of the places `0`, `1`, … below `n` come before the first that fails `p`. -/
def leading (p : ℕ → Bool) : ℕ → ℕ
  | 0 => 0
  | n + 1 => if p 0 then leading (fun i ↦ p (i + 1)) n + 1 else 0

theorem leading_le (p : ℕ → Bool) (n : ℕ) : leading p n ≤ n := by
  induction n generalizing p with
  | zero => exact le_rfl
  | succ n ih =>
    unfold leading
    split_ifs
    · exact Nat.succ_le_succ (ih _)
    · exact Nat.zero_le _

theorem of_lt_leading {p : ℕ → Bool} {n : ℕ} (h : i < leading p n) : p i = true := by
  induction n generalizing p i with
  | zero => simp [leading] at h
  | succ n ih =>
    unfold leading at h
    split_ifs at h with h0
    · cases i with
      | zero => exact h0
      | succ i => exact ih (p := fun i ↦ p (i + 1)) (Nat.lt_of_succ_lt_succ h)
    · omega

theorem leading_fails {p : ℕ → Bool} {n : ℕ} (h : leading p n < n) : p (leading p n) = false := by
  induction n generalizing p with
  | zero => omega
  | succ n ih =>
    unfold leading at h ⊢
    split_ifs at h ⊢ with h0
    · exact ih (p := fun i ↦ p (i + 1)) (Nat.lt_of_succ_lt_succ h)
    · exact eq_false_of_ne_true h0

theorem leading_congr {p q : ℕ → Bool} {n : ℕ} (h : ∀ i < n, p i = q i) :
    leading p n = leading q n := by
  induction n generalizing p q with
  | zero => rfl
  | succ n ih =>
    unfold leading
    rw [h 0 (Nat.succ_pos n), ih (fun i hi ↦ h (i + 1) (Nat.succ_lt_succ hi))]

def loop (go : α → Bool) (round : α → α) : ℕ → α → α
  | 0, a => a
  | n + 1, a => if go a then loop go round n (round a) else a

theorem loop_eq (go : α → Bool) (round : α → α) (n : ℕ) (a : α) :
    loop go round n a = round^[leading (fun i ↦ go (round^[i] a)) n] a := by
  induction n generalizing a with
  | zero => rfl
  | succ n ih =>
    unfold loop leading
    by_cases hgo : go a
    · simp only [Function.iterate_zero, id, hgo, if_true, ih, Function.iterate_succ_apply]
    · simp only [Function.iterate_zero, id, hgo, if_false, Bool.false_eq_true]

theorem leading_eq {p : ℕ → Bool} {n : ℕ} (hi : i < n) (hlt : ∀ j < i, p j = true)
    (hp : p i = false) : leading p n = i := by
  rcases lt_trichotomy (leading p n) i with hl | hl | hl
  · have := leading_fails (hl.trans hi)
    rw [hlt _ hl] at this
    cases this
  · exact hl
  · have := of_lt_leading hl
    rw [hp] at this
    cases this

end Dpa.Loop
