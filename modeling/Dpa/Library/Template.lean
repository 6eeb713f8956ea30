import Mathlib.Tactic

namespace Dpa.Template

variable {α : Type} {m : α} {v w rest pre text : List α} {t : List (Option α)}

/-- A text with holes, each of them filled with `w`. -/
def fill (w : List α) (t : List (Option α)) : List α := t.flatMap fun o ↦ o.elim w fun a ↦ [a]

def holes (n : ℕ) : ℕ → List (Option α) → List ℕ
  | _, [] => []
  | i, none :: t => i :: holes n (i + n) t
  | i, some _ :: t => holes n (i + 1) t

/-- `w` over the symbols of `s` from `i` on. -/
def overwrite (w s : List α) (i : ℕ) : List α := s.take i ++ w ++ s.drop (i + w.length)

def find [DecidableEq α] (pat : List α) : List α → Option ℕ
  | [] => if pat = [] then some 0 else none
  | a :: s => if pat <+: a :: s then some 0 else (find pat s).map (· + 1)

@[simp]
theorem fill_nil (w : List α) : fill w [] = [] := rfl

@[simp]
theorem fill_none (w : List α) (t : List (Option α)) : fill w (none :: t) = w ++ fill w t := rfl

@[simp]
theorem fill_some (w : List α) (a : α) (t : List (Option α)) :
    fill w (some a :: t) = a :: fill w t := rfl

@[simp]
theorem fill_append (w : List α) (t u : List (Option α)) :
    fill w (t ++ u) = fill w t ++ fill w u :=
  List.flatMap_append

@[simp]
theorem fill_text (w text : List α) : fill w (text.map some) = text := by
  induction text with
  | nil => rfl
  | cons a text ih => rw [List.map_cons, fill_some, ih]

theorem fill_of_none_notMem (h : none ∉ t) (v w : List α) : fill v t = fill w t := by
  induction t with
  | nil => rfl
  | cons o t ih =>
    cases o with
    | none => exact absurd List.mem_cons_self h
    | some a => rw [fill_some, fill_some, ih fun hmem ↦ h (List.mem_cons_of_mem _ hmem)]

theorem overwrite_append (h : v.length = w.length) :
    overwrite v (pre ++ (w ++ rest)) pre.length = pre ++ v ++ rest := by
  rw [overwrite, List.take_left, ← List.drop_drop, List.drop_left, h, List.drop_left]

theorem overwrite_holes (h : v.length = w.length) (pre : List α) (t : List (Option α)) :
    (holes w.length pre.length t).foldl (overwrite v) (pre ++ fill w t) = pre ++ fill v t := by
  induction t generalizing pre with
  | nil => rfl
  | cons o t ih =>
    cases o with
    | none =>
      have hnext := ih (pre ++ v)
      rw [List.length_append, h] at hnext
      rw [fill_none, fill_none, holes, List.foldl_cons, overwrite_append h, hnext,
        List.append_assoc]
    | some a =>
      have hnext := ih (pre ++ [a])
      rw [List.length_append, List.length_singleton, List.append_assoc, List.append_assoc] at hnext
      exact hnext

variable [DecidableEq α]

theorem find_append (h : m ∉ text) (mark rest : List α) :
    find (m :: mark) (text ++ rest) = (find (m :: mark) rest).map (text.length + ·) := by
  induction text with
  | nil => simp
  | cons a text ih =>
    obtain ⟨hne, hmem⟩ := List.ne_and_not_mem_of_not_mem_cons h
    rw [List.cons_append, find, if_neg fun hpre ↦ hne (List.cons_prefix_cons.1 hpre).1, ih hmem,
      Option.map_map, List.length_cons]
    congr 1
    funext k
    exact Nat.add_right_comm _ _ _

theorem find_mark (h : m ∉ text) (mark rest : List α) :
    find (m :: mark) (text ++ (m :: mark ++ rest)) = some text.length := by
  have hstart : find (m :: mark) (m :: mark ++ rest) = some 0 := if_pos (List.prefix_append _ _)
  rw [find_append h, hstart]
  rfl

end Dpa.Template
