import Mathlib.Tactic

namespace Dpa.Library

variable {σ τ ε ω θ : Type}

/-- The answers to a list of requests and the state they leave, or `none` where the system gets stuck
in one of them. -/
def answers (exec : σ → ε → Option (ω × σ)) : List ε → σ → Option (List ω × σ)
  | [], s => some ([], s)
  | e :: es, s =>
    (exec s e).bind fun a ↦ (answers exec es a.2).map fun b ↦ (a.1 :: b.1, b.2)

def expected (spec : τ → ε → θ × τ) : List ε → τ → List θ × τ
  | [], t => ([], t)
  | e :: es, t =>
    let rest := expected spec es (spec t e).2
    ((spec t e).1 :: rest.1, rest.2)

section

variable {exec : σ → ε → Option (ω × σ)} {spec : τ → ε → θ × τ} {R : σ → τ → Prop} {seen : ω → θ}
  {e : ε} {es es' : List ε} {s s' : σ} {t : τ} {o : ω} {os : List ω}

theorem answers_cons (h : exec s e = some (o, s')) :
    answers exec (e :: es) s = (answers exec es s').map fun a ↦ (o :: a.1, a.2) := by
  rw [answers, h, Option.bind_some]

/-- Every request is answered as it is to be, in states that stay related. -/
def Implements (exec : σ → ε → Option (ω × σ)) (spec : τ → ε → θ × τ) (seen : ω → θ)
    (R : σ → τ → Prop) : Prop :=
  ∀ s t e, R s t → ∃ o s', exec s e = some (o, s') ∧ seen o = (spec t e).1 ∧ R s' (spec t e).2

theorem Implements.run (h : Implements exec spec seen R) (hR : R s t) (es : List ε) :
    ∃ os s', answers exec es s = some (os, s') ∧ os.map seen = (expected spec es t).1 ∧
      R s' (expected spec es t).2 := by
  induction es generalizing s t with
  | nil => exact ⟨[], s, rfl, rfl, hR⟩
  | cons e es ih =>
    obtain ⟨o, s₁, hexec, hseen, hR₁⟩ := h s t e hR
    obtain ⟨os, s', hrun, hall, hR'⟩ := ih hR₁
    refine ⟨o :: os, s', ?_, ?_, hR'⟩
    · rw [answers_cons hexec, hrun]
      rfl
    · rw [List.map_cons, hseen, hall]
      rfl

end

end Dpa.Library
