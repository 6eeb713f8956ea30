import Dpa.Library.Machine
import Dpa.Library.Program

namespace Dpa.Library

open Function

namespace Program

variable {ι σ α β A L : Type} {R : A → Type} [DecidableEq ι]

section

variable (exec : ι → (a : A) → σ → Option (R a × σ)) (C : ι → A → σ → Prop)
  (Inv : (ι → L) → σ → Prop)

/-- In thread `t`, which begins by knowing `l`, the program keeps the invariant whatever the others
do that keep it too; its actions find the state as `C` wants it, and what it knows when it returns
is as `Q` wants it. -/
def Keeps (t : ι) (Q : α → L → Prop) : Program A R α → L → Prop
  | ret x, l => Q x l
  | act a next, l => ∀ ls s r s', ls t = l → Inv ls s → C t a s → exec t a s = some (r, s') →
      ∃ l', Inv (update ls t l') s' ∧ Keeps t Q (next r) l'

end

variable {exec : ι → (a : A) → σ → Option (R a × σ)} {C : ι → A → σ → Prop}
  {Inv : (ι → L) → σ → Prop} {t : ι} {l : L} {P P' : α → L → Prop} {Q : β → L → Prop}
  {p : Program A R α} {f : α → Program A R β}

theorem Keeps.bind (h : p.Keeps exec C Inv t P l)
    (hf : ∀ x l, P x l → (f x).Keeps exec C Inv t Q l) : (p >>= f).Keeps exec C Inv t Q l := by
  induction p generalizing l with
  | ret x => exact hf x l h
  | act a next ih =>
    intro ls s r s' hl hinv hC hexec
    obtain ⟨l', hinv', hnext⟩ := h ls s r s' hl hinv hC hexec
    exact ⟨l', hinv', ih r hnext⟩

theorem Keeps.mono (h : p.Keeps exec C Inv t P l) (hP : ∀ x l, P x l → P' x l) :
    p.Keeps exec C Inv t P' l := by
  induction p generalizing l with
  | ret x => exact hP x l h
  | act a next ih =>
    intro ls s r s' hl hinv hC hexec
    obtain ⟨l', hinv', hnext⟩ := h ls s r s' hl hinv hC hexec
    exact ⟨l', hinv', ih r hnext⟩

theorem Keeps.onlyIf {b : Bool} {p : Program A R Unit} {P : Unit → L → Prop}
    (hp : b = true → p.Keeps exec C Inv t P l) (hr : b = false → P () l) :
    (onlyIf b p).Keeps exec C Inv t P l := by
  cases b with
  | false => exact hr rfl
  | true => exact hp rfl

end Program

/-- Threads `ι` that make calls `κ` on a shared state. A call is a program, whose actions happen one
at a time, and `ε` is what happens besides. -/
structure Threads (ι κ ε σ α A : Type) (R : A → Type) where
  enter : ι → κ → σ → Option (Program A R α × σ)
  exec : ι → (a : A) → σ → Option (R a × σ)
  leave : ι → κ → α → σ → Option σ
  outside : ε → σ → Option σ

namespace Threads

/-- The shared state, and for a thread the call that it is in and what is left of it. -/
structure Config (ι κ σ α A : Type) (R : A → Type) where
  shared : σ
  tasks : ι → Option (κ × Program A R α)

inductive Event (ι κ ε : Type)
  | call (t : ι) (k : κ)
  | step (t : ι)
  | outside (e : ε)

variable {ι κ ε σ α A L : Type} {R : A → Type}

def Config.start (s : σ) : Config ι κ σ α A R := ⟨s, fun _ ↦ none⟩

variable [DecidableEq ι]

section

variable (M : Threads ι κ ε σ α A R)

/-- A step of a thread that is in a call; in the last it returns. -/
def advance (c : Config ι κ σ α A R) (t : ι) (k : κ) : Program A R α → Option (Config ι κ σ α A R)
  | .ret x => (M.leave t k x c.shared).map fun s ↦ ⟨s, update c.tasks t none⟩
  | .act a next =>
    (M.exec t a c.shared).map fun r ↦ ⟨r.2, update c.tasks t (some (k, next r.1))⟩

def next (c : Config ι κ σ α A R) : Event ι κ ε → Option (Config ι κ σ α A R)
  | .call t k =>
    match c.tasks t with
    | none => (M.enter t k c.shared).map fun r ↦ ⟨r.2, update c.tasks t (some (k, r.1))⟩
    | some _ => none
  | .step t => (c.tasks t).bind fun task ↦ M.advance c t task.1 task.2
  | .outside e => (M.outside e c.shared).map fun s ↦ { c with shared := s }

/-- The calls are made as `D` wants it, and the actions find the state as `C` does. -/
def Meets (D : ι → κ → σ → Prop) (C : ι → A → σ → Prop) (c : Config ι κ σ α A R) :
    Event ι κ ε → Prop
  | .call t k => D t k c.shared
  | .step t => ∀ k a next, c.tasks t = some (k, .act a next) → C t a c.shared
  | .outside _ => True

/-- The invariant holds, the calls keep it, and what a thread knows outside is as `Idle` wants it. -/
structure Good (C : ι → A → σ → Prop) (Inv : (ι → L) → σ → Prop) (Q : ι → κ → α → L → Prop)
    (Idle : ι → L → Prop) (ls : ι → L) (c : Config ι κ σ α A R) : Prop where
  inv : Inv ls c.shared
  busy : ∀ t k p, c.tasks t = some (k, p) → p.Keeps M.exec C Inv t (Q t k) (ls t)
  idle : ∀ t, c.tasks t = none → Idle t (ls t)

end

variable {M : Threads ι κ ε σ α A R} {D : ι → κ → σ → Prop} {C : ι → A → σ → Prop}
  {Inv : (ι → L) → σ → Prop} {Q : ι → κ → α → L → Prop} {Idle : ι → L → Prop} {t : ι} {l : L}
  {ls : ι → L} {c c' : Config ι κ σ α A R} {s : σ}

theorem Good.move (h : M.Good C Inv Q Idle ls c) (hinv : Inv (update ls t l) s)
    {task : Option (κ × Program A R α)}
    (hbusy : ∀ k p, task = some (k, p) → p.Keeps M.exec C Inv t (Q t k) l)
    (hidle : task = none → Idle t l) :
    M.Good C Inv Q Idle (update ls t l) ⟨s, update c.tasks t task⟩ := by
  refine ⟨hinv, fun u k p hu ↦ ?_, fun u hu ↦ ?_⟩
  · change update c.tasks t task u = some (k, p) at hu
    by_cases hut : u = t
    · subst hut
      rw [update_self] at hu ⊢
      exact hbusy k p hu
    · rw [update_of_ne hut] at hu ⊢
      exact h.busy u k p hu
  · change update c.tasks t task u = none at hu
    by_cases hut : u = t
    · subst hut
      rw [update_self] at hu ⊢
      exact hidle hu
    · rw [update_of_ne hut] at hu ⊢
      exact h.idle u hu

/-- The calls keep the invariant, where they are made as `D` wants it, and so does the rest. -/
structure Kept (M : Threads ι κ ε σ α A R) (D : ι → κ → σ → Prop) (C : ι → A → σ → Prop)
    (Inv : (ι → L) → σ → Prop) (Q : ι → κ → α → L → Prop) (Idle : ι → L → Prop) : Prop where
  enter : ∀ ls s t k p s', Inv ls s → Idle t (ls t) → D t k s → M.enter t k s = some (p, s') →
    ∃ l, Inv (update ls t l) s' ∧ p.Keeps M.exec C Inv t (Q t k) l
  leave : ∀ ls s t k x s', Inv ls s → Q t k x (ls t) → M.leave t k x s = some s' →
    ∃ l, Inv (update ls t l) s' ∧ Idle t l
  outside : ∀ ls s e s', Inv ls s → M.outside e s = some s' → Inv ls s'

theorem Good.advance (h : M.Good C Inv Q Idle ls c) (hM : Kept M D C Inv Q Idle) {k : κ}
    {p : Program A R α} (ht : c.tasks t = some (k, p))
    (hC : ∀ k a next, c.tasks t = some (k, .act a next) → C t a c.shared)
    (hnext : M.advance c t k p = some c') : ∃ ls', M.Good C Inv Q Idle ls' c' := by
  have hkeeps := h.busy t k p ht
  cases p with
  | ret x =>
    obtain ⟨s, hs, rfl⟩ := Option.map_eq_some_iff.1 hnext
    obtain ⟨l, hinv, hidle⟩ := hM.leave ls _ t k x s h.inv hkeeps hs
    exact ⟨_, h.move hinv nofun fun _ ↦ hidle⟩
  | act a next =>
    obtain ⟨r, hr, rfl⟩ := Option.map_eq_some_iff.1 hnext
    obtain ⟨l, hinv, hrest⟩ := hkeeps ls _ r.1 r.2 rfl h.inv (hC k a next ht) hr
    refine ⟨_, h.move hinv (fun k' p' hp ↦ ?_) nofun⟩
    obtain ⟨rfl, rfl⟩ := Prod.mk.inj (Option.some.inj hp)
    exact hrest

theorem Good.next {e : Event ι κ ε} (h : M.Good C Inv Q Idle ls c) (hM : Kept M D C Inv Q Idle)
    (hmeets : Meets D C c e) (hnext : M.next c e = some c') :
    ∃ ls', M.Good C Inv Q Idle ls' c' := by
  cases e with
  | call t k =>
    cases ht : c.tasks t with
    | some task => simp only [Threads.next, ht, reduceCtorEq] at hnext
    | none =>
      simp only [Threads.next, ht] at hnext
      obtain ⟨r, hr, rfl⟩ := Option.map_eq_some_iff.1 hnext
      obtain ⟨l, hinv, hkeeps⟩ := hM.enter ls _ t k r.1 r.2 h.inv (h.idle t ht) hmeets hr
      refine ⟨_, h.move hinv (fun k' p' hp ↦ ?_) nofun⟩
      obtain ⟨rfl, rfl⟩ := Prod.mk.inj (Option.some.inj hp)
      exact hkeeps
  | step t =>
    obtain ⟨⟨k, p⟩, ht, hadvance⟩ := Option.bind_eq_some_iff.1 hnext
    exact h.advance hM ht hmeets hadvance
  | outside e =>
    obtain ⟨s, hs, rfl⟩ := Option.map_eq_some_iff.1 hnext
    exact ⟨ls, hM.outside ls _ e s h.inv hs, h.busy, h.idle⟩

theorem Good.run {es : List (Event ι κ ε)} (h : M.Good C Inv Q Idle ls c)
    (hM : Kept M D C Inv Q Idle) (hes : Throughout M.next (Meets D C) es c)
    (hrun : Library.run M.next es c = some c') : ∃ ls', M.Good C Inv Q Idle ls' c' :=
  hes.preserves (P := fun c ↦ ∃ ls, M.Good C Inv Q Idle ls c)
    (fun _ _ _ ⟨_, hgood⟩ hmeets hnext ↦ hgood.next hM hmeets hnext) ⟨ls, h⟩ hrun

theorem tasks_only {P : κ → A → Prop}
    (henter : ∀ t k s r, M.enter t k s = some r → r.1.Only (P k)) {es : List (Event ι κ ε)}
    (hc : ∀ t k p, c.tasks t = some (k, p) → p.Only (P k))
    (hrun : Library.run M.next es c = some c') {t : ι} {k : κ} {p : Program A R α}
    (ht : c'.tasks t = some (k, p)) : p.Only (P k) := by
  have hmove {c : Config ι κ σ α A R} {t : ι} {task : Option (κ × Program A R α)} {s : σ}
      (hc : ∀ t k p, c.tasks t = some (k, p) → p.Only (P k))
      (htask : ∀ k p, task = some (k, p) → p.Only (P k)) (u : ι) (k : κ) (p : Program A R α)
      (hu : (⟨s, update c.tasks t task⟩ : Config ι κ σ α A R).tasks u = some (k, p)) :
      p.Only (P k) := by
    dsimp only at hu
    by_cases hut : u = t
    · subst hut
      rw [update_self] at hu
      exact htask k p hu
    · rw [update_of_ne hut] at hu
      exact hc u k p hu
  refine run_preserves (P := fun c : Config ι κ σ α A R ↦
    ∀ t k p, c.tasks t = some (k, p) → p.Only (P k)) (fun c e c' hc hnext ↦ ?_) hc hrun t k p ht
  cases e with
  | call t k =>
    cases htask : c.tasks t with
    | some task => simp only [Threads.next, htask, reduceCtorEq] at hnext
    | none =>
      simp only [Threads.next, htask] at hnext
      obtain ⟨r, hr, rfl⟩ := Option.map_eq_some_iff.1 hnext
      refine hmove hc fun k' p' hp ↦ ?_
      obtain ⟨rfl, rfl⟩ := Prod.mk.inj (Option.some.inj hp)
      exact henter t _ c.shared r hr
  | step t =>
    obtain ⟨⟨k, p⟩, htask, hadvance⟩ := Option.bind_eq_some_iff.1 hnext
    have hp := hc t k p htask
    cases p with
    | ret x =>
      obtain ⟨s, -, rfl⟩ := Option.map_eq_some_iff.1 hadvance
      exact hmove hc nofun
    | act a next =>
      obtain ⟨r, -, rfl⟩ := Option.map_eq_some_iff.1 hadvance
      refine hmove hc fun k' p' hp' ↦ ?_
      obtain ⟨rfl, rfl⟩ := Prod.mk.inj (Option.some.inj hp')
      exact hp.2 r.1
  | outside e =>
    obtain ⟨s, -, rfl⟩ := Option.map_eq_some_iff.1 hnext
    exact hc

section

variable {β : Type} {k : κ} {f : β → Program A R α} {x : β} {s' : σ}

theorem next_call {p : Program A R α} (ht : c.tasks t = none)
    (henter : M.enter t k c.shared = some (p, s)) :
    M.next c (.call t k) = some ⟨s, update c.tasks t (some (k, p))⟩ := by
  simp only [Threads.next, ht, henter, Option.map_some]

theorem throughout_none (ht : c.tasks t = none) (n : ℕ) :
    Throughout M.next (Meets D C) (List.replicate n (.step t)) c := by
  cases n with
  | zero => trivial
  | succ n =>
    rw [List.replicate_succ]
    refine ⟨fun k a next hact ↦ ?_, fun c' hnext ↦ ?_⟩
    · rw [ht] at hact
      cases hact
    · rw [Threads.next, ht] at hnext
      cases hnext

/-- A thread that is not interrupted does what its program does alone. -/
theorem run_steps {p : Program A R β} (ht : c.tasks t = some (k, p >>= f))
    (hp : p.run (M.exec t) c.shared = some (x, s')) :
    ∃ n, Library.run M.next (List.replicate n (.step t)) c =
      some ⟨s', update c.tasks t (some (k, f x))⟩ := by
  induction p generalizing c with
  | ret y =>
    obtain ⟨rfl, rfl⟩ := Prod.mk.inj (Option.some.inj hp)
    refine ⟨0, ?_⟩
    rw [← Program.ret_bind y f, ← ht, update_eq_self]
    rfl
  | act a next ih =>
    obtain ⟨r, hexec, hrest⟩ := Option.bind_eq_some_iff.1 hp
    have hstep : M.next c (.step t) =
        some ⟨r.2, update c.tasks t (some (k, next r.1 >>= f))⟩ := by
      rw [Threads.next, ht, Option.bind_some]
      exact congrArg (Option.map _) hexec
    obtain ⟨n, hn⟩ := ih r.1 (c := ⟨r.2, update c.tasks t (some (k, next r.1 >>= f))⟩)
      (update_self ..) hrest
    refine ⟨n + 1, ?_⟩
    rw [List.replicate_succ, run_cons hstep, hn, update_idem]

theorem run_rest {p : Program A R α} {x : α} {s'' : σ} (ht : c.tasks t = some (k, p))
    (hp : p.run (M.exec t) c.shared = some (x, s')) (hleave : M.leave t k x s' = some s'') :
    ∃ n, Library.run M.next (List.replicate n (.step t)) c =
      some ⟨s'', update c.tasks t none⟩ := by
  rw [← Program.bind_ret p] at ht
  obtain ⟨n, hn⟩ := run_steps ht hp
  refine ⟨n + 1, ?_⟩
  rw [List.replicate_succ', run_snoc hn, Threads.next]
  dsimp only
  rw [update_self, Option.bind_some, Threads.advance, hleave, Option.map_some, update_idem]

/-- A thread that runs undisturbed finds the state as `C` wants it where its program does alone. -/
theorem throughout_steps {p : Program A R α} (ht : c.tasks t = some (k, p))
    (hp : p.Finds (M.exec t) (C t) c.shared) (n : ℕ) :
    Throughout M.next (Meets D C) (List.replicate n (.step t)) c := by
  induction n generalizing c p with
  | zero => trivial
  | succ n ih =>
    rw [List.replicate_succ]
    cases p with
    | ret x =>
      refine ⟨fun k a next hact ↦ ?_, fun c' hnext ↦ ?_⟩
      · rw [ht] at hact
        cases hact
      · rw [Threads.next, ht, Option.bind_some] at hnext
        obtain ⟨s, -, rfl⟩ := Option.map_eq_some_iff.1 hnext
        exact throughout_none (update_self ..) n
    | act a next =>
      refine ⟨fun k a next hact ↦ ?_, fun c' hnext ↦ ?_⟩
      · rw [ht] at hact
        cases hact
        exact hp.1
      · rw [Threads.next, ht, Option.bind_some] at hnext
        obtain ⟨r, hexec, rfl⟩ := Option.map_eq_some_iff.1 hnext
        exact ih (update_self ..) (hp.2 r.1 r.2 hexec)

end

end Threads

end Dpa.Library
