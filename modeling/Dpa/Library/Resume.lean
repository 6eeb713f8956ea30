import Mathlib.Data.List.Infix
import Mathlib.Tactic

namespace Dpa.Library

variable {α : Type} {log log' : List α} {w n : ℕ}

/-- What a reader has read of a log between two of its starts. -/
structure Life (α : Type) where
  start : ℕ
  items : List α

def Life.finish (l : Life α) : ℕ := l.start + l.items.length

theorem Life.reads {l : Life α} (hl : l.items <+: log.drop l.start) (hge : l.start ≤ n)
    (hlt : n < l.finish) : l.items[n - l.start]? = log[n]? := by
  have hfinish : l.finish = l.start + l.items.length := rfl
  have hidx := List.prefix_iff_getElem?.1 hl (n - l.start) (by omega)
  rw [List.getElem?_drop, Nat.add_sub_cancel' hge] at hidx
  rw [hidx, List.getElem?_eq_getElem]

/-- The lives of a reader, the last one first: each reads on from a place that lies at most `w`
before the end of the one before it. -/
inductive Resumed (log : List α) (w : ℕ) : List (Life α) → Prop
  | first (l : Life α) : l.start = 0 → l.items <+: log → Resumed log w [l]
  | again (l l' : Life α) (ls : List (Life α)) : l'.start ≤ l.start → l.start ≤ l'.finish →
      l'.finish ≤ l.start + w → l.items <+: log.drop l.start → Resumed log w (l' :: ls) →
      Resumed log w (l :: l' :: ls)

namespace Resumed

variable {l : Life α} {ls : List (Life α)}

theorem head (h : Resumed log w (l :: ls)) : l.items <+: log.drop l.start := by
  cases h with
  | first _ h0 hl =>
    rw [h0]
    exact hl
  | again _ l' ls' _ _ _ hl _ => exact hl

theorem extend (h : Resumed log w ls) (hlog : log <+: log') : Resumed log' w ls := by
  induction h with
  | first l h0 hl => exact .first l h0 (hl.trans hlog)
  | again l l' ls h1 h2 h3 hl _ ih => exact .again l l' ls h1 h2 h3 (hl.trans (hlog.drop _)) ih

theorem read (h : Resumed log w (l :: ls)) {items : List α} (hitems : items <+: log.drop l.start) :
    Resumed log w (⟨l.start, items⟩ :: ls) := by
  cases h with
  | first _ h0 _ =>
    refine .first _ h0 ?_
    rw [h0] at hitems
    exact hitems
  | again _ l' ls' h1 h2 h3 _ h => exact .again _ l' ls' h1 h2 h3 hitems h

theorem restart (h : Resumed log w (l :: ls)) (hw : n ≤ w) (hn : n ≤ l.items.length) :
    Resumed log w (⟨l.finish - n, []⟩ :: l :: ls) := by
  have hfinish : l.finish = l.start + l.items.length := rfl
  refine .again _ l ls ?_ ?_ ?_ List.nil_prefix h
  · dsimp only
    omega
  · dsimp only
    omega
  · dsimp only
    omega

/-- Whatever lies before the end of some life was read in one of them. -/
theorem covered (h : Resumed log w ls) (hl : l ∈ ls) (hn : n < l.finish) :
    ∃ l' ∈ ls, l'.start ≤ n ∧ l'.items[n - l'.start]? = log[n]? ∧ n < l'.finish := by
  induction h generalizing l with
  | first l₀ h0 hpre =>
    obtain rfl := List.mem_singleton.1 hl
    have hhead : l.items <+: log.drop l.start := by
      rw [h0]
      exact hpre
    exact ⟨l, hl, by omega, l.reads hhead (by omega) hn, hn⟩
  | again l₀ l₁ ls _ h2 _ hpre _ ih =>
    rcases List.mem_cons.1 hl with rfl | hl
    · by_cases hge : l.start ≤ n
      · exact ⟨l, hl, hge, l.reads hpre hge hn, hn⟩
      · obtain ⟨l', hl', hl''⟩ := ih List.mem_cons_self (by omega)
        exact ⟨l', List.mem_cons_of_mem _ hl', hl''⟩
    · obtain ⟨l', hl', hl''⟩ := ih hl hn
      exact ⟨l', List.mem_cons_of_mem _ hl', hl''⟩

end Resumed

end Dpa.Library
