import Mathlib.Tactic

namespace Dpa.Cyclic

variable {N a b i j : ℕ}

/-- The forward distance from `a` to `b` on a ring of `N` positions. -/
def ahead (N a b : ℕ) : ℕ := (b + N - a) % N

/-- The position `i` places after `a` on a ring of `N` positions. -/
def pos (N a i : ℕ) : ℕ := (a + i) % N

theorem mod_of_lt_two (h : a < 2 * N) : a % N = if a < N then a else a - N := by
  rcases lt_or_ge a N with hlt | hge
  · rw [if_pos hlt, Nat.mod_eq_of_lt hlt]
  · rw [if_neg hge.not_gt, Nat.mod_eq_sub_mod hge, Nat.mod_eq_of_lt (by omega)]

theorem pos_lt (hN : 0 < N) : pos N a i < N := Nat.mod_lt _ hN

theorem ahead_lt (hN : 0 < N) : ahead N a b < N := Nat.mod_lt _ hN

/-- `pos` without the division, for the omega calls of the ring proofs. -/
theorem pos_eq (ha : a < N) (hi : i ≤ N) : pos N a i = if a + i < N then a + i else a + i - N :=
  mod_of_lt_two (by omega)

theorem ahead_eq (ha : a < N) (hb : b < N) : ahead N a b = if a ≤ b then b - a else b + N - a := by
  unfold ahead
  rw [mod_of_lt_two (by omega)]
  split_ifs <;> omega

@[simp] theorem pos_zero (ha : a < N) : pos N a 0 = a := Nat.mod_eq_of_lt ha

theorem pos_mod (N a i : ℕ) : pos N a (i % N) = pos N a i := by
  rw [pos, pos, Nat.add_mod_mod]

theorem pos_pos (N a i j : ℕ) : pos N (pos N a i) j = pos N a (i + j) := by
  simp [pos, Nat.add_assoc]

theorem pos_injective (hi : i < N) (hj : j < N) (h : pos N a i = pos N a j) : i = j := by
  have hN : 0 < N := by omega
  have ha := Nat.mod_lt a hN
  have hcut (x : ℕ) : pos N a x = pos N (a % N) x := by simp [pos]
  rw [hcut, hcut, pos_eq ha hi.le, pos_eq ha hj.le] at h
  split_ifs at h <;> omega

theorem pos_ne_of_lt (h : i < j) (h' : j < i + N) : pos N a i ≠ pos N a j := by
  intro heq
  have hfrom : pos N (pos N a i) 0 = pos N (pos N a i) (j - i) := by
    rw [pos_pos, pos_pos, Nat.add_zero, Nat.add_sub_cancel' h.le, heq]
  have := pos_injective (by omega) (by omega) hfrom
  omega

theorem ahead_pos (ha : a < N) (hi : i < N) : ahead N a (pos N a i) = i := by
  rw [ahead_eq ha (pos_lt (by omega)), pos_eq ha hi.le]
  split_ifs <;> omega

theorem ahead_pos_mod (ha : a < N) (i : ℕ) : ahead N a (pos N a i) = i % N := by
  rw [← pos_mod, ahead_pos ha (Nat.mod_lt i (Nat.zero_lt_of_lt ha))]

theorem pos_ahead (ha : a < N) (hb : b < N) : pos N a (ahead N a b) = b := by
  rw [pos_eq ha (ahead_lt (by omega)).le, ahead_eq ha hb]
  split_ifs <;> omega

@[simp] theorem ahead_self (ha : a < N) : ahead N a a = 0 := by
  rw [ahead_eq ha ha]
  simp

theorem ahead_of_pos_eq {n k o : ℕ} (hn : n < N) (hk : k < N) (ho : o < N) (ha : a < N)
    (h : pos N n o = pos N k a) : ahead N o k = pos N n (N - a) := by
  rw [pos_eq hn ho.le, pos_eq hk ha.le] at h
  rw [ahead_eq ho hk, pos_eq hn (by omega)]
  split_ifs at h ⊢ <;> omega

theorem pos_sub (ha : a < N) (hj : j ≤ i) (hi : i ≤ N) :
    (if j ≤ pos N a i then pos N a i - j else pos N a i + N - j) = pos N a (i - j) := by
  rw [pos_eq ha hi, pos_eq ha (by omega)]
  split_ifs <;> omega

theorem next_eq (ha : a < N) : (if a = N - 1 then 0 else a + 1) = pos N a 1 := by
  rw [pos_eq ha (by omega)]
  split_ifs <;> omega

/-- The step back from the start of the ring is the cyclic predecessor. -/
theorem prev_eq (ha : a < N) : (if a = 0 then N - 1 else a - 1) = pos N a (N - 1) := by
  rw [pos_eq ha (by omega)]
  split_ifs <;> omega

section

variable {α β : Type} {f : α → β → β} {src : ℕ → α} {dst : ℕ → β}

/-- The cells of `dst` after `i` rounds of a loop that walks `src` from `a` and `dst` from `b`
and puts `f` of the cell it reads into the cell it stands on. -/
def swept (N a b : ℕ) (f : α → β → β) (src : ℕ → α) (dst : ℕ → β) (i : ℕ) : ℕ → β := fun x ↦
  if x < N ∧ ahead N b x < i then f (src (pos N a (ahead N b x))) (dst x) else dst x

@[simp] theorem swept_zero : swept N a b f src dst 0 = dst := by
  funext x
  simp [swept]

theorem swept_at (hb : b < N) (hj : j < i) (hi : i ≤ N) :
    swept N a b f src dst i (pos N b j) = f (src (pos N a j)) (dst (pos N b j)) := by
  have hN : 0 < N := by omega
  have hj' := ahead_pos hb (show j < N by omega)
  unfold swept
  rw [hj', if_pos ⟨pos_lt hN, hj⟩]

theorem swept_off (hb : b < N) (hj : i ≤ j) (hN : j < N) :
    swept N a b f src dst i (pos N b j) = dst (pos N b j) := by
  unfold swept
  rw [ahead_pos hb hN, if_neg (by omega)]

theorem swept_succ (f : α → β → β) (src : ℕ → α) (dst : ℕ → β) (hb : b < N) (hi : i < N) :
    Function.update (swept N a b f src dst i) (pos N b i)
      (f (src (pos N a i)) (swept N a b f src dst i (pos N b i))) =
    swept N a b f src dst (i + 1) := by
  have hN : 0 < N := by omega
  funext x
  by_cases hx : x = pos N b i
  · subst hx
    rw [Function.update_self, swept_off hb le_rfl hi, swept_at hb (Nat.lt_succ_self i) hi]
  · rw [Function.update_of_ne hx]
    unfold swept
    have hiff : (x < N ∧ ahead N b x < i) ↔ (x < N ∧ ahead N b x < i + 1) := by
      refine ⟨fun h ↦ ⟨h.1, by omega⟩, fun h ↦ ⟨h.1, ?_⟩⟩
      have hne : ahead N b x ≠ i := by
        intro heq
        apply hx
        rw [← heq, pos_ahead hb h.1]
      omega
    simp only [hiff]

end

section

variable {σ τ : Type} {u : ℕ} {good : ℕ → Prop} {k : σ → ℕ} {next : σ → σ}
  {walk : ℕ → σ → Option τ} {r : σ} {n : ℕ}

/-- `walk n` is a loop that makes at most `n` tests: it goes from place to place of a ring until
it arrives at `u` or stands on a place that is not `good`. -/
structure Walks (N u : ℕ) (good : ℕ → Prop) (k : σ → ℕ) (next : σ → σ)
    (walk : ℕ → σ → Option τ) : Prop where
  zero : ∀ r, walk 0 r = none
  stop : ∀ n r, k r = u ∨ ¬good (k r) → (walk (n + 1) r).isSome
  go : ∀ n r, k r ≠ u → good (k r) → walk (n + 1) r = walk n (next r)
  step : ∀ r, k r < N → k (next r) = pos N (k r) 1

/-- The walk ends where one of the places it comes to lets it end. -/
theorem Walks.isSome_iff (hw : Walks N u good k next walk) (hr : k r < N) :
    (walk n r).isSome ↔ ∃ j < n, pos N (k r) j = u ∨ ¬good (pos N (k r) j) := by
  induction n generalizing r with
  | zero => simp [hw.zero]
  | succ n ih =>
    have hstep := hw.step r hr
    by_cases hstop : k r = u ∨ ¬good (k r)
    · refine iff_of_true (hw.stop n r hstop) ⟨0, n.succ_pos, ?_⟩
      rwa [pos_zero hr]
    · obtain ⟨hu, hg⟩ := not_or.1 hstop
      rw [hw.go n r hu (not_not.1 hg), ih (by rw [hstep]; exact pos_lt (by omega)), hstep]
      simp only [pos_pos]
      refine ⟨fun ⟨j, hj, h⟩ ↦ ⟨1 + j, by omega, h⟩, ?_⟩
      rintro ⟨j, hj, h⟩
      cases j with
      | zero =>
        rw [pos_zero hr] at h
        exact absurd h hstop
      | succ j => exact ⟨j, by omega, by rwa [Nat.add_comm 1 j]⟩

theorem Walks.ends (hw : Walks N u good k next walk) (hr : k r < N) (hu : u < N) :
    (walk N r).isSome :=
  (hw.isSome_iff hr).2 ⟨ahead N (k r) u, ahead_lt (by omega), Or.inl (pos_ahead hr hu)⟩

/-- A walk to a place outside of the ring never ends, unless a place stops it. -/
theorem Walks.never (hw : Walks N u good k next walk) (hr : k r < N) (hu : N ≤ u)
    (hg : ∀ x < N, good x) (n : ℕ) : walk n r = none := by
  rw [← Option.not_isSome_iff_eq_none, hw.isSome_iff hr]
  rintro ⟨j, _, h⟩
  have hlt : pos N (k r) j < N := pos_lt (by omega)
  rcases h with h | h
  · omega
  · exact h (hg _ hlt)

theorem Walks.mono (hw : Walks N u good k next walk) (hr : k r < N) {n' : ℕ} (hle : n ≤ n')
    (h : (walk n r).isSome) : (walk n' r).isSome := by
  rw [hw.isSome_iff hr] at h ⊢
  obtain ⟨j, hj, hstop⟩ := h
  exact ⟨j, by omega, hstop⟩

end

section

variable {N i o : ℤ}

/-- One correction brings the sum of an index and an offset back into the ring. -/
theorem corrected_eq (h : -N ≤ i) (h' : i < 2 * N) :
    (if i < 0 then i + N else if i < N then i else i - N) = i % N := by
  split_ifs with hneg hlt
  · rw [← Int.add_emod_right, Int.emod_eq_of_lt (by omega) (by omega)]
  · exact (Int.emod_eq_of_lt (by omega) hlt).symm
  · rw [← Int.sub_emod_right, Int.emod_eq_of_lt (by omega) (by omega)]

theorem shift_back (hi : i ∈ Set.Ico 0 N) (o : ℤ) : ((i + o) % N + -o) % N = i := by
  rw [Int.emod_add_emod, Int.add_neg_cancel_right, Int.emod_eq_of_lt hi.1 hi.2]

theorem shift_mapsTo (hN : 0 < N) (o : ℤ) :
    Set.MapsTo (fun i ↦ (i + o) % N) (Set.Ico 0 N) (Set.Ico 0 N) :=
  fun _ _ ↦ ⟨Int.emod_nonneg _ hN.ne', Int.emod_lt_of_pos _ hN⟩

theorem shift_invOn (N o : ℤ) :
    Set.InvOn (fun i ↦ (i + -o) % N) (fun i ↦ (i + o) % N) (Set.Ico 0 N) (Set.Ico 0 N) := by
  refine ⟨fun i hi ↦ shift_back hi o, fun i hi ↦ ?_⟩
  have h := shift_back hi (-o)
  rwa [neg_neg] at h

theorem shift_bijOn (hN : 0 < N) (o : ℤ) :
    Set.BijOn (fun i ↦ (i + o) % N) (Set.Ico 0 N) (Set.Ico 0 N) :=
  (shift_invOn N o).bijOn (shift_mapsTo hN o) (shift_mapsTo hN (-o))

theorem shift_next (N o i : ℤ) : ((i + 1) % N + o) % N = ((i + o) % N + 1) % N := by
  rw [Int.emod_add_emod, Int.emod_add_emod, Int.add_right_comm]

end

end Dpa.Cyclic
