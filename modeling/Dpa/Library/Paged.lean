import Mathlib.Tactic

namespace Dpa.Paged

variable {w t x : ℕ}

/-- Place number `t` of a counter that leaves out the last place of each page of `w + 1`. -/
def place (w t : ℕ) : ℕ := t + t / w

/-- The number of places below `x` that the counter does not leave out. -/
def used (w x : ℕ) : ℕ := x - x / (w + 1)

@[simp] theorem place_zero (w : ℕ) : place w 0 = 0 := by simp [place]

theorem place_split (w t : ℕ) : place w t = (w + 1) * (t / w) + t % w := by
  have ht := Nat.div_add_mod t w
  rw [place, Nat.add_mul]
  omega

theorem used_split (w x : ℕ) : used w x = w * (x / (w + 1)) + x % (w + 1) := by
  have hx := Nat.div_add_mod x (w + 1)
  rw [Nat.add_mul] at hx
  rw [used]
  omega

theorem place_mod (hw : 0 < w) (t : ℕ) : place w t % (w + 1) = t % w := by
  have hr := Nat.mod_lt t hw
  rw [place_split, Nat.mul_add_mod, Nat.mod_eq_of_lt (by omega)]

theorem place_div (hw : 0 < w) (t : ℕ) : place w t / (w + 1) = t / w := by
  have hr := Nat.mod_lt t hw
  rw [place_split, Nat.mul_add_div (by omega), Nat.div_eq_of_lt (hr.trans (Nat.lt_succ_self w)),
    Nat.add_zero]

theorem place_mod_lt (hw : 0 < w) (t : ℕ) : place w t % (w + 1) < w := by
  rw [place_mod hw]
  exact Nat.mod_lt t hw

theorem used_place (hw : 0 < w) (t : ℕ) : used w (place w t) = t := by
  rw [used, place_div hw, place, Nat.add_sub_cancel]

theorem place_used (hx : x % (w + 1) ≠ w) : place w (used w x) = x := by
  have hr : x % (w + 1) < w := lt_of_le_of_ne (Nat.le_of_lt_succ (Nat.mod_lt x w.succ_pos)) hx
  have hw : 0 < w := by omega
  have hdiv : (w * (x / (w + 1)) + x % (w + 1)) / w = x / (w + 1) := by
    rw [Nat.mul_add_div hw, Nat.div_eq_of_lt hr, Nat.add_zero]
  have hx' := Nat.div_add_mod x (w + 1)
  rw [Nat.add_mul] at hx'
  rw [used_split, place, hdiv]
  omega

/-- The counter goes from place to place, over the one it leaves out. -/
theorem place_succ (hw : 0 < w) (t : ℕ) :
    place w (t + 1) =
      if place w t % (w + 1) = w - 1 then place w t + 2 else place w t + 1 := by
  have hr := Nat.mod_lt t hw
  have ht := Nat.div_add_mod t w
  rw [place_mod hw, place, place]
  by_cases hlast : t % w = w - 1
  · have hdiv : (t + 1) / w = t / w + 1 := by
      rw [show t + 1 = w * (t / w + 1) by rw [Nat.mul_add]; omega, Nat.mul_div_cancel_left _ hw]
    rw [if_pos hlast, hdiv]
    omega
  · have hdiv : (t + 1) / w = t / w := by
      rw [show t + 1 = w * (t / w) + (t % w + 1) by omega, Nat.mul_add_div hw,
        Nat.div_eq_of_lt (show t % w + 1 < w by omega), Nat.add_zero]
    rw [if_neg hlast, hdiv]
    omega

theorem place_lt_succ (hw : 0 < w) (t : ℕ) : place w t < place w (t + 1) := by
  rw [place_succ hw]
  split_ifs <;> omega

theorem place_strictMono (hw : 0 < w) : StrictMono (place w) :=
  strictMono_nat_of_lt_succ (place_lt_succ hw)

theorem used_succ (w x : ℕ) :
    used w (x + 1) = if x % (w + 1) = w then used w x else used w x + 1 := by
  have hr : x % (w + 1) < w + 1 := Nat.mod_lt x (Nat.succ_pos w)
  have hx := Nat.div_add_mod x (w + 1)
  have hle := Nat.div_le_self x (w + 1)
  rw [used, used]
  by_cases hlast : x % (w + 1) = w
  · have hdiv : (x + 1) / (w + 1) = x / (w + 1) + 1 := by
      rw [show x + 1 = (w + 1) * (x / (w + 1) + 1) by rw [Nat.mul_add]; omega,
        Nat.mul_div_cancel_left _ (Nat.succ_pos w)]
    rw [if_pos hlast, hdiv]
    omega
  · have hdiv : (x + 1) / (w + 1) = x / (w + 1) := by
      rw [show x + 1 = (w + 1) * (x / (w + 1)) + (x % (w + 1) + 1) by omega,
        Nat.mul_add_div (Nat.succ_pos w), Nat.div_eq_of_lt (show x % (w + 1) + 1 < w + 1 by omega),
        Nat.add_zero]
    rw [if_neg hlast, hdiv]
    omega

theorem used_mono (w : ℕ) : Monotone (used w) := by
  refine monotone_nat_of_le_succ ?_
  intro x
  rw [used_succ]
  split_ifs <;> omega

/-- A place is below `x` if its number is below the count of those that are. -/
theorem place_lt_of_lt_used (hw : 0 < w) (h : t < used w x) : place w t < x := by
  by_contra hge
  have := used_mono w (not_lt.1 hge)
  rw [used_place hw] at this
  omega

/-- From place number `t` to place number `t + i` there are these `i` that the counter does
not leave out. -/
theorem places_between (hw : 0 < w) (t i : ℕ) :
    ((List.range (place w (t + i) - place w t)).map (place w t + ·)).filter
        (fun x ↦ x % (w + 1) ≠ w) =
      (List.range i).map fun j ↦ place w (t + j) := by
  induction i with
  | zero => simp
  | succ i ih =>
    have hle : place w t ≤ place w (t + i) := (place_strictMono hw).monotone (Nat.le_add_right t i)
    have hlt := place_mod_lt hw (t + i)
    have hnext := place_succ hw (t + i)
    rw [List.range_succ (n := i), List.map_append, ← ih, ← Nat.add_assoc]
    by_cases hlast : place w (t + i) % (w + 1) = w - 1
    · rw [if_pos hlast] at hnext
      have hlink : (place w (t + i) + 1) % (w + 1) = w := by
        rw [Nat.add_mod, hlast, Nat.mod_eq_of_lt (a := 1) (by omega),
          Nat.mod_eq_of_lt (by omega)]
        omega
      rw [hnext, show place w (t + i) + 2 - place w t = place w (t + i) - place w t + 1 + 1 by omega,
        List.range_succ, List.range_succ]
      simp only [List.map_append, List.filter_append, List.map_cons, List.map_nil]
      rw [← Nat.add_assoc, Nat.add_sub_cancel' hle]
      simp [hlink, hlt.ne]
    · rw [if_neg hlast] at hnext
      rw [hnext, show place w (t + i) + 1 - place w t = place w (t + i) - place w t + 1 by omega,
        List.range_succ]
      simp only [List.map_append, List.filter_append, List.map_cons, List.map_nil]
      rw [Nat.add_sub_cancel' hle]
      simp [hlt.ne]

end Dpa.Paged
