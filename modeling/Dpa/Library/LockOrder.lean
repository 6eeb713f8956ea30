import Dpa.Library.Threads

namespace Dpa.Library

open Function

/-- What an action does to the locks, and what lock it wants to be held otherwise. -/
inductive LockUse (Λ : Type)
  | acquire (x : Λ)
  | release (x : Λ)
  | under (x : Option Λ)

namespace LockUse

variable {Λ : Type}

def Allowed (rank : Λ → ℕ) : LockUse Λ → Set Λ → Prop
  | acquire x, l => ∀ y ∈ l, rank y < rank x
  | release x, l => x ∈ l
  | under x, l => ∀ y ∈ x, y ∈ l

def after : LockUse Λ → Set Λ → Set Λ
  | acquire x, l => insert x l
  | release x, l => l \ {x}
  | under _, l => l

end LockUse

namespace Program

variable {α β A Λ : Type} {R : A → Type}

section

variable (use : A → LockUse Λ) (rank : Λ → ℕ)

/-- A program that begins with the locks `l` takes locks in the order of their ranks, gives back
only what it holds, and ends as `Q` wants it. -/
def Orderly (Q : α → Set Λ → Prop) : Program A R α → Set Λ → Prop
  | ret x, l => Q x l
  | act a next, l => (use a).Allowed rank l ∧ ∀ r, (next r).Orderly Q ((use a).after l)

def Short : Program A R α → ℕ → Prop
  | ret _, _ => True
  | act _ _, 0 => False
  | act _ next, n + 1 => ∀ r, (next r).Short n

end

variable {use : A → LockUse Λ} {rank : Λ → ℕ} {P P' : α → Set Λ → Prop} {Q : β → Set Λ → Prop}
  {p : Program A R α} {f : α → Program A R β} {l : Set Λ} {m n : ℕ}

theorem Orderly.bind (h : p.Orderly use rank P l)
    (hf : ∀ x l, P x l → (f x).Orderly use rank Q l) : (p >>= f).Orderly use rank Q l := by
  induction p generalizing l with
  | ret x => exact hf x l h
  | act a next ih => exact ⟨h.1, fun r ↦ ih r (h.2 r)⟩

theorem Orderly.mono (h : p.Orderly use rank P l) (hP : ∀ x l, P x l → P' x l) :
    p.Orderly use rank P' l := by
  induction p generalizing l with
  | ret x => exact hP x l h
  | act a next ih => exact ⟨h.1, fun r ↦ ih r (h.2 r)⟩

theorem Orderly.onlyIf {b : Bool} {p : Program A R Unit} {P : Unit → Set Λ → Prop}
    (hp : b = true → p.Orderly use rank P l) (hr : b = false → P () l) :
    (onlyIf b p).Orderly use rank P l := by
  cases b with
  | false => exact hr rfl
  | true => exact hp rfl

theorem Short.mono (h : p.Short m) (hmn : m ≤ n) : p.Short n := by
  induction p generalizing m n with
  | ret x => trivial
  | act a next ih =>
    cases m with
    | zero => exact h.elim
    | succ m =>
      obtain ⟨k, rfl⟩ := Nat.exists_eq_add_of_le hmn
      rw [Nat.add_right_comm]
      exact fun r ↦ ih r (h r) (Nat.le_add_right m k)

theorem Short.bind (h : p.Short m) (hf : ∀ x, (f x).Short n) : (p >>= f).Short (m + n) := by
  induction p generalizing m with
  | ret x => exact (hf x).mono (Nat.le_add_left n m)
  | act a next ih =>
    cases m with
    | zero => exact h.elim
    | succ m =>
      rw [Nat.add_right_comm]
      exact fun r ↦ ih r (h r)

theorem Short.onlyIf {b : Bool} {p : Program A R Unit} (h : p.Short n) :
    (Program.onlyIf b p).Short n := by
  cases b with
  | false => trivial
  | true => exact h

/-- What is done between taking the only lock held and giving it back. -/
theorem Orderly.section {a b : A} {x : Λ} {f : R b → Program A R β} (ha : use a = .acquire x)
    (hb : use b = .release x)
    (hp : p.Orderly use rank (fun _ l ↦ l = insert x ∅) (insert x ∅))
    (hf : ∀ r, (f r).Orderly use rank Q ∅) :
    (perform a >>= fun _ ↦ p >>= fun _ ↦ perform b >>= f).Orderly use rank Q ∅ := by
  refine Orderly.bind (P := fun _ l ↦ l = insert x ∅) (p := perform a) ⟨?_, fun _ ↦ ?_⟩ ?_
  · rw [ha]
    exact fun y hy ↦ hy.elim
  · rw [ha]
    rfl
  rintro - l rfl
  refine hp.bind ?_
  rintro - l rfl
  refine Orderly.bind (P := fun _ l ↦ l = ∅) (p := perform b) ⟨?_, fun _ ↦ ?_⟩ ?_
  · rw [hb]
    exact Set.mem_insert x ∅
  · rw [hb]
    exact Set.insert_sdiff_self_of_notMem (Set.notMem_empty x)
  · rintro r l rfl
    exact hf r

theorem Orderly.forEach {f : β → Program A R Unit} {xs : List β}
    (hf : ∀ x ∈ xs, (f x).Orderly use rank (fun _ l ↦ l = ∅) ∅) :
    (Program.forEach f xs).Orderly use rank (fun _ l ↦ l = ∅) ∅ := by
  induction xs with
  | nil => rfl
  | cons x xs ih =>
    refine (hf x List.mem_cons_self).bind ?_
    rintro - l rfl
    exact ih fun y hy ↦ hf y (List.mem_cons_of_mem x hy)

theorem Short.forEach {f : β → Program A R Unit} (hf : ∀ x, (f x).Short n) (xs : List β) :
    (Program.forEach f xs).Short (n * xs.length) := by
  induction xs with
  | nil => trivial
  | cons x xs ih =>
    rw [List.length_cons, Nat.mul_succ, Nat.add_comm]
    exact (hf x).bind fun _ ↦ ih

section

variable {B : Type} {R : B → Type} {use : B → LockUse Λ} {g : A → B}
  {p : Program A (fun a ↦ R (g a)) α}

theorem Orderly.embed (h : p.Orderly (fun a ↦ use (g a)) rank P l) :
    (p.embed g).Orderly use rank P l := by
  induction p generalizing l with
  | ret x => exact h
  | act a next ih => exact ⟨h.1, fun r ↦ ih r (h.2 r)⟩

theorem Short.embed (h : p.Short n) : (p.embed g).Short n := by
  induction p generalizing n with
  | ret x => trivial
  | act a next ih =>
    cases n with
    | zero => exact h.elim
    | succ n => exact fun r ↦ ih r (h r)

end

theorem short_perform (a : A) : (perform a : Program A R (R a)).Short 1 := fun _ ↦ trivial

end Program

namespace Threads

variable {ι κ ε σ α A Λ : Type} {R : A → Type}

/-- The locks `owner` are spin locks: an action waits just for a lock that is held, and the locks
change by what the actions do to them. -/
structure Spin [DecidableEq Λ] (M : Threads ι κ ε σ α A R) (owner : σ → Λ → Option ι)
    (use : A → LockUse Λ) (rank : Λ → ℕ) : Prop where
  acquire : ∀ t a x s, use a = .acquire x → owner s x = none → ∃ r, M.exec t a s = some r
  acquired : ∀ t a x s r, use a = .acquire x → M.exec t a s = some r →
    owner s x = none ∧ owner r.2 = update (owner s) x (some t)
  release : ∀ t a x s, use a = .release x →
    ∃ r, M.exec t a s = some r ∧ owner r.2 = update (owner s) x none
  under : ∀ t a x s, use a = .under x → ∃ r, M.exec t a s = some r ∧ owner r.2 = owner s
  enter : ∀ t k s r, M.enter t k s = some r → owner r.2 = owner s ∧
    r.1.Orderly use rank (fun _ l ↦ l = ∅) ∅ ∧ ∃ n, r.1.Short n
  leave : ∀ t k x s, ∃ s', M.leave t k x s = some s' ∧ owner s' = owner s
  outside : ∀ e s s', M.outside e s = some s' → owner s' = owner s

def holds (owner : σ → Λ → Option ι) (s : σ) (t : ι) : Set Λ := {x | owner s x = some t}

/-- A thread holds nothing outside, and inside what its program is orderly with. -/
def Stands (use : A → LockUse Λ) (rank : Λ → ℕ) : Option (κ × Program A R α) → Set Λ → Prop
  | none, l => l = ∅
  | some (_, p), l => p.Orderly use rank (fun _ l ↦ l = ∅) l ∧ ∃ n, p.Short n

structure Locked (owner : σ → Λ → Option ι) (use : A → LockUse Λ) (rank : Λ → ℕ)
    (c : Config ι κ σ α A R) : Prop where
  stands : ∀ t, Stands use rank (c.tasks t) (holds owner c.shared t)
  finite : ∃ T : Finset ι, ∀ t, c.tasks t ≠ none → t ∈ T

theorem holds_of_owner {owner : σ → Λ → Option ι} {s s' : σ} (h : owner s' = owner s) (u : ι) :
    holds owner s' u = holds owner s u := by
  unfold holds
  rw [h]

section

variable {M : Threads ι κ ε σ α A R} {owner : σ → Λ → Option ι}
  {use : A → LockUse Λ} {rank : Λ → ℕ} {c c' : Config ι κ σ α A R} {s : σ} {t : ι} {K : ℕ}

theorem Locked.busy_of_owner (h : Locked owner use rank c) {x : Λ}
    (hx : owner c.shared x = some t) : c.tasks t ≠ none := by
  intro ht
  have hidle := h.stands t
  rw [ht] at hidle
  have hmem : x ∈ holds owner c.shared t := hx
  rw [show holds owner c.shared t = ∅ from hidle] at hmem
  exact hmem

/-- Two threads that do not stand before the same lock are not both under it. -/
theorem Locked.exclusive (h : Locked owner use rank c) {t u : ι} {k k' : κ} {a a' : A}
    {next : R a → Program A R α} {next' : R a' → Program A R α} {x : Λ}
    (ht : c.tasks t = some (k, .act a next)) (hu : c.tasks u = some (k', .act a' next'))
    (ha : use a = .under (some x)) (ha' : use a' = .under (some x)) : t = u := by
  have hheld {t : ι} {k : κ} {a : A} {next : R a → Program A R α}
      (ht : c.tasks t = some (k, .act a next)) (ha : use a = .under (some x)) :
      owner c.shared x = some t := by
    have hp := h.stands t
    rw [ht] at hp
    obtain ⟨⟨hallowed, -⟩, -⟩ := hp
    rw [ha] at hallowed
    exact hallowed x rfl
  exact Option.some.inj ((hheld ht ha).symm.trans (hheld hu ha'))

/-- What an action does to the locks it does to what threads hold. -/
theorem Spin.holds_exec [DecidableEq Λ] (hM : M.Spin owner use rank) {a : A} {r : R a × σ}
    (ha : (use a).Allowed rank (holds owner s t)) (hr : M.exec t a s = some r) :
    holds owner r.2 t = (use a).after (holds owner s t) ∧
      ∀ u, u ≠ t → holds owner r.2 u = holds owner s u := by
  cases huse : use a with
  | acquire x =>
    obtain ⟨hfree, hown⟩ := hM.acquired t a x s r huse hr
    refine ⟨?_, fun u hu ↦ ?_⟩
    · ext y
      change owner r.2 y = some t ↔ y = x ∨ owner s y = some t
      rw [hown]
      by_cases hy : y = x
      · subst hy
        simp
      · simp [hy]
    · ext y
      change owner r.2 y = some u ↔ owner s y = some u
      rw [hown]
      by_cases hy : y = x
      · subst hy
        simp [hfree, hu.symm]
      · simp [hy]
  | release x =>
    rw [huse] at ha
    obtain ⟨r', hr', hown⟩ := hM.release t a x s huse
    obtain rfl := Option.some.inj (hr.symm.trans hr')
    have hheld : owner s x = some t := ha
    refine ⟨?_, fun u hu ↦ ?_⟩
    · ext y
      change owner r.2 y = some t ↔ owner s y = some t ∧ y ≠ x
      rw [hown]
      by_cases hy : y = x
      · subst hy
        simp
      · simp [hy]
    · ext y
      change owner r.2 y = some u ↔ owner s y = some u
      rw [hown]
      by_cases hy : y = x
      · subst hy
        simp [hheld, hu.symm]
      · simp [hy]
  | under x =>
    obtain ⟨r', hr', hown⟩ := hM.under t a x s huse
    obtain rfl := Option.some.inj (hr.symm.trans hr')
    unfold holds
    rw [hown]
    exact ⟨rfl, fun _ _ ↦ rfl⟩

theorem Locked.move [DecidableEq ι] (h : Locked owner use rank c) {task : Option (κ × Program A R α)}
    (hothers : ∀ u, u ≠ t → holds owner s u = holds owner c.shared u)
    (ht : Stands use rank task (holds owner s t)) :
    Locked owner use rank ⟨s, update c.tasks t task⟩ := by
  obtain ⟨T, hT⟩ := h.finite
  refine ⟨fun u ↦ ?_, insert t T, fun u hu ↦ ?_⟩
  · dsimp only
    by_cases hut : u = t
    · subst hut
      rw [update_self]
      exact ht
    · rw [update_of_ne hut, hothers u hut]
      exact h.stands u
  · dsimp only at hu
    by_cases hut : u = t
    · subst hut
      exact Finset.mem_insert_self u T
    · rw [update_of_ne hut] at hu
      exact Finset.mem_insert_of_mem (hT u hu)

section

variable [DecidableEq ι] [DecidableEq Λ]

theorem Locked.advance (h : Locked owner use rank c) (hM : M.Spin owner use rank) {k : κ}
    {p : Program A R α} (ht : c.tasks t = some (k, p)) (hnext : M.advance c t k p = some c') :
    Locked owner use rank c' := by
  have hp := h.stands t
  rw [ht] at hp
  cases p with
  | ret x =>
    obtain ⟨s, hs, rfl⟩ := Option.map_eq_some_iff.1 hnext
    obtain ⟨s', hs', hown⟩ := hM.leave t k x c.shared
    obtain rfl := Option.some.inj (hs.symm.trans hs')
    exact h.move (fun u _ ↦ holds_of_owner hown u) ((holds_of_owner hown t).trans hp.1)
  | act a next =>
    obtain ⟨r, hr, rfl⟩ := Option.map_eq_some_iff.1 hnext
    obtain ⟨⟨hallowed, hrest⟩, n, hn⟩ := hp
    obtain ⟨hheld, hothers⟩ := hM.holds_exec hallowed hr
    refine h.move hothers ?_
    rw [hheld]
    refine ⟨hrest r.1, ?_⟩
    cases n with
    | zero => exact hn.elim
    | succ n => exact ⟨n, hn r.1⟩

theorem Locked.next {e : Event ι κ ε} (h : Locked owner use rank c)
    (hM : M.Spin owner use rank) (hnext : M.next c e = some c') : Locked owner use rank c' := by
  cases e with
  | call t k =>
    cases ht : c.tasks t with
    | some task => simp only [Threads.next, ht, reduceCtorEq] at hnext
    | none =>
      simp only [Threads.next, ht] at hnext
      obtain ⟨r, hr, rfl⟩ := Option.map_eq_some_iff.1 hnext
      obtain ⟨hown, horderly, hshort⟩ := hM.enter t k c.shared r hr
      have hnone : holds owner c.shared t = ∅ := by
        have hidle := h.stands t
        rwa [ht] at hidle
      refine h.move (fun u _ ↦ holds_of_owner hown u) ?_
      rw [holds_of_owner hown, hnone]
      exact ⟨horderly, hshort⟩
  | step t =>
    obtain ⟨⟨k, p⟩, ht, hadvance⟩ := Option.bind_eq_some_iff.1 hnext
    exact h.advance hM ht hadvance
  | outside e =>
    obtain ⟨s, hs, rfl⟩ := Option.map_eq_some_iff.1 hnext
    refine ⟨fun t ↦ ?_, h.finite⟩
    rw [holds_of_owner (hM.outside e c.shared s hs)]
    exact h.stands t

theorem Locked.run {es : List (Event ι κ ε)} (h : Locked owner use rank c)
    (hM : M.Spin owner use rank) (hrun : Library.run M.next es c = some c') :
    Locked owner use rank c' :=
  run_preserves (fun _ _ _ hc hnext ↦ hc.next hM hnext) h hrun

/-- A thread that cannot go on waits for a lock that another holds, of a higher rank than all that
it holds itself. -/
theorem Locked.waits (h : Locked owner use rank c) (hM : M.Spin owner use rank)
    (ht : c.tasks t ≠ none) (hstuck : M.next c (.step t) = none) :
    ∃ x u, owner c.shared x = some u ∧ ∀ y ∈ holds owner c.shared t, rank y < rank x := by
  obtain ⟨⟨k, p⟩, htask⟩ := Option.ne_none_iff_exists'.1 ht
  have hp := h.stands t
  rw [htask] at hp
  have hnone : M.advance c t k p = none := by
    rw [Threads.next, htask] at hstuck
    exact hstuck
  cases p with
  | ret x =>
    obtain ⟨s', hs', -⟩ := hM.leave t k x c.shared
    rw [Threads.advance, hs'] at hnone
    cases hnone
  | act a next =>
    have hexec : M.exec t a c.shared = none := Option.map_eq_none_iff.1 hnone
    obtain ⟨⟨hallowed, -⟩, -⟩ := hp
    cases huse : use a with
    | acquire x =>
      rw [huse] at hallowed
      cases howner : owner c.shared x with
      | none =>
        obtain ⟨r, hr⟩ := hM.acquire t a x c.shared huse howner
        rw [hexec] at hr
        cases hr
      | some u => exact ⟨x, u, howner, hallowed⟩
    | release x =>
      obtain ⟨r, hr, -⟩ := hM.release t a x c.shared huse
      rw [hexec] at hr
      cases hr
    | under x =>
      obtain ⟨r, hr, -⟩ := hM.under t a x c.shared huse
      rw [hexec] at hr
      cases hr

/-- Where some call is in progress some thread can go on. -/
theorem Locked.progress (h : Locked owner use rank c) (hM : M.Spin owner use rank)
    (hK : ∀ x, rank x ≤ K) (ht : c.tasks t ≠ none) : ∃ u, M.next c (.step u) ≠ none := by
  by_contra hstuck
  push Not at hstuck
  -- a chain of threads that wait for one another climbs in rank
  have hclimb (n : ℕ) : ∃ x u, owner c.shared x = some u ∧ n ≤ rank x := by
    induction n with
    | zero =>
      obtain ⟨x, u, hx, -⟩ := h.waits hM ht (hstuck t)
      exact ⟨x, u, hx, Nat.zero_le _⟩
    | succ n ih =>
      obtain ⟨x, u, hx, hn⟩ := ih
      obtain ⟨y, v, hy, hrank⟩ := h.waits hM (h.busy_of_owner hx) (hstuck u)
      exact ⟨y, v, hy, hn.trans_lt (hrank x hx)⟩
  obtain ⟨x, -, -, hx⟩ := hclimb (K + 1)
  have hle := hK x
  omega

/-- Every step takes one action, or the whole call, from what is left to do. -/
theorem length_steps {b : ι → ℕ} {T : Finset ι} {ts : List ι}
    (hb : ∀ t k p, c.tasks t = some (k, p) → t ∈ T ∧ p.Short (b t))
    (hrun : Library.run M.next (ts.map .step) c = some c') :
    ts.length ≤ ∑ t ∈ T, (b t + 1) := by
  induction ts generalizing c b T with
  | nil => exact Nat.zero_le _
  | cons t ts ih =>
    obtain ⟨c₁, hnext, hrest⟩ := Option.bind_eq_some_iff.1 hrun
    obtain ⟨⟨k, p⟩, ht, hadvance⟩ := Option.bind_eq_some_iff.1 hnext
    obtain ⟨hT, hshort⟩ := hb t k p ht
    have hsum := Finset.add_sum_erase T (fun t ↦ b t + 1) hT
    have hother {task : Option (κ × Program A R α)} {u : ι} (hu : u ≠ t) {k : κ}
        {p : Program A R α} (htask : update c.tasks t task u = some (k, p)) :
        u ∈ T ∧ p.Short (b u) := by
      rw [update_of_ne hu] at htask
      exact hb u k p htask
    cases p with
    | ret x =>
      obtain ⟨s, -, rfl⟩ := Option.map_eq_some_iff.1 hadvance
      have hle := ih (b := b) (T := T.erase t) (fun u k p hu ↦ ?_) hrest
      · rw [List.length_cons]
        omega
      · dsimp only at hu
        by_cases hut : u = t
        · subst hut
          rw [update_self] at hu
          cases hu
        · exact ⟨Finset.mem_erase.2 ⟨hut, (hother hut hu).1⟩, (hother hut hu).2⟩
    | act a next =>
      obtain ⟨r, -, rfl⟩ := Option.map_eq_some_iff.1 hadvance
      cases hn : b t with
      | zero =>
        rw [hn] at hshort
        exact hshort.elim
      | succ n =>
        rw [hn] at hshort
        have hle := ih (b := update b t n) (T := T) (fun u k' p hu ↦ ?_) hrest
        · have hsame : ∑ u ∈ T.erase t, (update b t n u + 1) = ∑ u ∈ T.erase t, (b u + 1) :=
            Finset.sum_congr rfl fun u hu ↦ by rw [update_of_ne (Finset.ne_of_mem_erase hu)]
          have hsum' := Finset.add_sum_erase T (fun u ↦ update b t n u + 1) hT
          rw [update_self, hsame] at hsum'
          rw [List.length_cons]
          omega
        · dsimp only at hu
          by_cases hut : u = t
          · subst hut
            rw [update_self] at hu ⊢
            obtain ⟨-, rfl⟩ := Prod.mk.inj (Option.some.inj hu)
            exact ⟨hT, hshort r.1⟩
          · rw [update_of_ne hut]
            exact hother hut hu

/-- The threads that are in a call take so many steps at most, and have all returned when none of
them can take another; then nobody holds a lock. -/
theorem Locked.ends (h : Locked owner use rank c) (hM : M.Spin owner use rank)
    (hK : ∀ x, rank x ≤ K) : ∃ B, ∀ (ts : List ι) c',
      Library.run M.next (ts.map .step) c = some c' → ts.length ≤ B ∧
        ((∀ t, M.next c' (.step t) = none) →
          (∀ t, c'.tasks t = none) ∧ ∀ x, owner c'.shared x = none) := by
  obtain ⟨T, hT⟩ := h.finite
  have hshort (t : ι) : ∃ n, ∀ k p, c.tasks t = some (k, p) → p.Short n := by
    cases ht : c.tasks t with
    | none => exact ⟨0, fun k p hne ↦ by cases hne⟩
    | some task =>
      have hp := h.stands t
      rw [ht] at hp
      obtain ⟨-, n, hn⟩ := hp
      refine ⟨n, fun k p heq ↦ ?_⟩
      rw [Option.some.injEq] at heq
      subst heq
      exact hn
  choose b hb using hshort
  refine ⟨∑ t ∈ T, (b t + 1), fun ts c' hrun ↦ ⟨?_, fun hstuck ↦ ?_⟩⟩
  · refine length_steps (fun t k p ht ↦ ⟨hT t ?_, hb t k p ht⟩) hrun
    rw [ht]
    exact Option.some_ne_none _
  · have h' := h.run hM hrun
    have hidle (t : ι) : c'.tasks t = none := by
      by_contra ht
      obtain ⟨u, hu⟩ := h'.progress hM hK ht
      exact hu (hstuck u)
    refine ⟨hidle, fun x ↦ ?_⟩
    cases hx : owner c'.shared x with
    | none => rfl
    | some t => exact absurd (hidle t) (h'.busy_of_owner hx)

end

end

end Threads

end Dpa.Library
