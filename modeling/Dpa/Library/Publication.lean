import Mathlib.Tactic

namespace Dpa.Library

variable {σ ω τ : Type}

/-- What the writes leave as it is, or set to the one value, has that value or the one it began with. -/
theorem foldl_value {apply : σ → ω → σ} {g : σ → τ} {v : τ} {l : List ω}
    (h : ∀ s, ∀ w ∈ l, g (apply s w) = g s ∨ g (apply s w) = v) (s : σ) :
    g (l.foldl apply s) = g s ∨ g (l.foldl apply s) = v := by
  induction l generalizing s with
  | nil => exact .inl rfl
  | cons w l ih =>
    rw [List.foldl_cons]
    rcases ih (fun s w' hw' ↦ h s w' (List.mem_cons_of_mem w hw')) (apply s w) with hs | hv
    · rw [hs]
      exact h s w List.mem_cons_self
    · exact .inr hv

theorem foldl_kept {apply : σ → ω → σ} {g : σ → τ} {l : List ω}
    (h : ∀ s, ∀ w ∈ l, g (apply s w) = g s) (s : σ) : g (l.foldl apply s) = g s :=
  (foldl_value (v := g s) (l := l) (fun s w hw ↦ .inl (h s w hw)) s).elim id id

/-- An object that is written in an order: what its readers rely on first, what they look at before they
do so last. -/
structure Publication (σ ω τ : Type) where
  apply : σ → ω → σ
  start : σ
  body : List ω
  header : List ω
  seen : σ → Prop
  view : σ → τ
  not_seen : ¬seen start
  body_seen : ∀ s, ∀ w ∈ body, seen (apply s w) → seen s
  header_view : ∀ s, ∀ w ∈ header, view (apply s w) = view s

namespace Publication

variable (p : Publication σ ω τ) {done : List ω}

def after (p : Publication σ ω τ) (done : List ω) : σ := done.foldl p.apply p.start

theorem not_seen_of_body {l : List ω} (h : ∀ w ∈ l, w ∈ p.body) (s : σ) (hs : ¬p.seen s) :
    ¬p.seen (l.foldl p.apply s) := by
  induction l generalizing s with
  | nil => exact hs
  | cons w l ih =>
    refine ih (fun w' hw' ↦ h w' (List.mem_cons_of_mem w hw')) _ fun hseen ↦ hs ?_
    exact p.body_seen s w (h w List.mem_cons_self) hseen

/-- A reader that sees the object published finds the whole body written. -/
theorem body_written (hdone : done <+: p.body ++ p.header) (hseen : p.seen (p.after done)) :
    p.body <+: done := by
  rcases List.prefix_or_prefix_of_prefix hdone (List.prefix_append p.body p.header) with h | h
  · exact absurd hseen (p.not_seen_of_body (fun w hw ↦ h.subset hw) _ p.not_seen)
  · exact h

/-- From then on it finds there what is there in the end. -/
theorem view_eq (hdone : done <+: p.body ++ p.header) (hbody : p.body <+: done) :
    p.view (p.after done) = p.view (p.after (p.body ++ p.header)) := by
  obtain ⟨l, rfl⟩ := hbody
  have hl : l <+: p.header := (List.prefix_append_right_inj p.body).1 hdone
  rw [after, after, List.foldl_append, List.foldl_append,
    foldl_kept fun s w hw ↦ p.header_view s w (hl.subset hw),
    foldl_kept p.header_view]

end Publication

end Dpa.Library
