import Mathlib.Tactic

namespace Dpa.Library

/-- A program over a shared state: it performs actions of type `A`, and an action `a` answers
with an `R a`. -/
inductive Program (A : Type) (R : A → Type) (α : Type) : Type
  | ret (x : α)
  | act (a : A) (next : R a → Program A R α)

namespace Program

variable {A σ α β γ : Type} {R : A → Type}

def bind : Program A R α → (α → Program A R β) → Program A R β
  | ret x, f => f x
  | act a next, f => act a fun r ↦ (next r).bind f

instance : Monad (Program A R) where
  pure := ret
  bind := bind

def perform (a : A) : Program A R (R a) := act a ret

@[simp] theorem ret_bind (x : α) (f : α → Program A R β) : (ret x >>= f) = f x := rfl

@[simp] theorem pure_eq (x : α) : (pure x : Program A R α) = ret x := rfl

@[simp] theorem act_bind (a : A) (next : R a → Program A R α) (f : α → Program A R β) :
    (act a next >>= f) = act a fun r ↦ next r >>= f := rfl

theorem bind_ret (p : Program A R α) : (p >>= ret) = p := by
  induction p with
  | ret x => rfl
  | act a next ih =>
    rw [act_bind]
    congr 1
    funext r
    exact ih r

theorem bind_bind (p : Program A R α) (f : α → Program A R β) (g : β → Program A R γ) :
    (p >>= f >>= g) = p >>= fun x ↦ f x >>= g := by
  induction p with
  | ret x => rfl
  | act a next ih =>
    rw [act_bind, act_bind, act_bind]
    congr 1
    funext r
    exact ih r

instance : LawfulMonad (Program A R) :=
  LawfulMonad.mk' (Program A R) bind_ret (fun _ _ ↦ rfl) bind_bind

def forEach (f : β → Program A R Unit) : List β → Program A R Unit
  | [] => ret ()
  | x :: xs => f x >>= fun _ ↦ forEach f xs

def onlyIf (b : Bool) (p : Program A R Unit) : Program A R Unit := if b then p else ret ()

/-- Whatever the actions answer, the result is as `P` wants it. -/
def Yields (P : α → Prop) : Program A R α → Prop
  | ret x => P x
  | act _ next => ∀ r, (next r).Yields P

section

variable {P : α → Prop} {Q : β → Prop} {p : Program A R α} {f : α → Program A R β}

theorem yields_true (p : Program A R α) : p.Yields fun _ ↦ True := by
  induction p with
  | ret x => trivial
  | act a next ih => exact ih

theorem Yields.bind (h : p.Yields P) (hf : ∀ x, P x → (f x).Yields Q) : (p >>= f).Yields Q := by
  induction p with
  | ret x => exact hf x h
  | act a next ih => exact fun r ↦ ih r (h r)

theorem Yields.mono {P' : α → Prop} (h : p.Yields P) (hP : ∀ x, P x → P' x) : p.Yields P' := by
  induction p with
  | ret x => exact hP x h
  | act a next ih => exact fun r ↦ ih r (h r)

theorem yields_bind (hf : ∀ x, (f x).Yields Q) : (p >>= f).Yields Q :=
  (yields_true p).bind fun x _ ↦ hf x

end

def embed {B : Type} {R : B → Type} (g : A → B) : Program A (fun a ↦ R (g a)) α → Program B R α
  | ret x => ret x
  | act a next => act (g a) fun r ↦ (next r).embed g

/-- All that the program does is as `P` wants it. -/
def Only (P : A → Prop) : Program A R α → Prop
  | ret _ => True
  | act a next => P a ∧ ∀ r, (next r).Only P

section

variable {P : A → Prop} {p : Program A R α} {f : α → Program A R β}

theorem Only.bind (h : p.Only P) (hf : ∀ x, (f x).Only P) : (p >>= f).Only P := by
  induction p with
  | ret x => exact hf x
  | act a next ih => exact ⟨h.1, fun r ↦ ih r (h.2 r)⟩

theorem Only.onlyIf {b : Bool} {p : Program A R Unit} (h : b = true → p.Only P) :
    (Program.onlyIf b p).Only P := by
  cases b with
  | false => trivial
  | true => exact h rfl

theorem only_forEach {f : β → Program A R Unit} {xs : List β} (hf : ∀ x ∈ xs, (f x).Only P) :
    (forEach f xs).Only P := by
  induction xs with
  | nil => trivial
  | cons x xs ih =>
    exact (hf x List.mem_cons_self).bind fun _ ↦ ih fun y hy ↦ hf y (List.mem_cons_of_mem x hy)

theorem only_embed {B : Type} {R : B → Type} {P : B → Prop} {g : A → B} (hg : ∀ a, P (g a))
    (p : Program A (fun a ↦ R (g a)) α) : (p.embed g).Only P := by
  induction p with
  | ret x => trivial
  | act a next ih => exact ⟨hg a, ih⟩

end

section

variable (exec : (a : A) → σ → Option (R a × σ))

/-- The program alone on the state, or `none` where one of its actions cannot happen. -/
def run : Program A R α → σ → Option (α × σ)
  | ret x, s => some (x, s)
  | act a next, s => (exec a s).bind fun r ↦ (next r.1).run r.2

@[simp] theorem run_ret (x : α) (s : σ) : (ret x : Program A R α).run exec s = some (x, s) := rfl

theorem run_bind (p : Program A R α) (f : α → Program A R β) (s : σ) :
    (p >>= f).run exec s = (p.run exec s).bind fun r ↦ (f r.1).run exec r.2 := by
  induction p generalizing s with
  | ret x => rfl
  | act a next ih =>
    rw [act_bind, run, run, Option.bind_assoc]
    exact congrArg _ (funext fun r ↦ ih r.1 r.2)

variable {exec} {s s' : σ}

theorem run_bind_of {p : Program A R α} {x : α} (h : p.run exec s = some (x, s'))
    (f : α → Program A R β) : (p >>= f).run exec s = (f x).run exec s' := by
  rw [run_bind, h, Option.bind_some]

theorem run_act_of {a : A} {r : R a} (h : exec a s = some (r, s'))
    (next : R a → Program A R α) : (act a next).run exec s = (next r).run exec s' := by
  rw [run, h, Option.bind_some]

/-- Where every round changes the state by `g`, the loop changes it by all of them in turn. -/
theorem run_forEach {f : β → Program A R Unit} {g : σ → β → σ} {xs : List β}
    (h : ∀ x ∈ xs, ∀ s, (f x).run exec s = some ((), g s x)) (s : σ) :
    (forEach f xs).run exec s = some ((), xs.foldl g s) := by
  induction xs generalizing s with
  | nil => rfl
  | cons x xs ih =>
    rw [forEach, run_bind_of (h x List.mem_cons_self s), List.foldl_cons]
    exact ih (fun y hy ↦ h y (List.mem_cons_of_mem x hy)) (g s x)

theorem Yields.of_run {P : α → Prop} {p : Program A R α} {x : α} (h : p.Yields P)
    (hrun : p.run exec s = some (x, s')) : P x := by
  induction p generalizing s with
  | ret y =>
    cases hrun
    exact h
  | act a next ih =>
    obtain ⟨r, -, hrest⟩ := Option.bind_eq_some_iff.1 hrun
    exact ih r.1 (h r.1) hrest

theorem run_perform (a : A) (s : σ) : (perform a).run exec s = exec a s := by
  rw [perform, run]
  cases exec a s with
  | none => rfl
  | some r => rfl

end

/-- Alone the program finds the state as `C` wants it. -/
def Finds (exec : (a : A) → σ → Option (R a × σ)) (C : A → σ → Prop) :
    Program A R α → σ → Prop
  | ret _, _ => True
  | act a next, s => C a s ∧ ∀ r s', exec a s = some (r, s') → (next r).Finds exec C s'

section

variable {exec : (a : A) → σ → Option (R a × σ)} {C : A → σ → Prop} {p : Program A R α}
  {f : α → Program A R β} {s : σ}

theorem Finds.bind (h : p.Finds exec C s)
    (hf : ∀ x s', p.run exec s = some (x, s') → (f x).Finds exec C s') :
    (p >>= f).Finds exec C s := by
  induction p generalizing s with
  | ret x => exact hf x s rfl
  | act a next ih =>
    refine ⟨h.1, fun r s' hexec ↦ ih r (h.2 r s' hexec) fun x s'' hrun ↦ hf x s'' ?_⟩
    exact (run_act_of hexec next).trans hrun

theorem Finds.bind_run {y : β} {s' : σ} (h : p.Finds exec C s)
    (hrun : (p >>= f).run exec s = some (y, s'))
    (hf : ∀ x s₁, (f x).run exec s₁ = some (y, s') → (f x).Finds exec C s₁) :
    (p >>= f).Finds exec C s := by
  refine h.bind fun x s₁ hp ↦ hf x s₁ ?_
  rwa [run_bind_of hp] at hrun

theorem finds_forEach {f : β → Program A R Unit} {xs : List β}
    (hf : ∀ x ∈ xs, ∀ s, (f x).Finds exec C s) (s : σ) : (forEach f xs).Finds exec C s := by
  induction xs generalizing s with
  | nil => trivial
  | cons x xs ih =>
    exact (hf x List.mem_cons_self s).bind fun _ s' _ ↦
      ih (fun y hy ↦ hf y (List.mem_cons_of_mem x hy)) s'

end

end Program

end Dpa.Library
