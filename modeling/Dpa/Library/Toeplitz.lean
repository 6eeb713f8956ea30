import Mathlib.Tactic

namespace Dpa.Toeplitz

/-- The `w` bits of the key from bit `i` on, the first of them on the left. -/
def window : (w : ℕ) → (ℕ → Bool) → ℕ → BitVec w
  | 0, _, _ => BitVec.nil
  | w + 1, key, i => BitVec.cons (key i) (window w key (i + 1))

/-- The sum of the windows at the bits of the input that are set, the input beginning at bit `i`. -/
def hashFrom (w : ℕ) (key : ℕ → Bool) : ℕ → List Bool → BitVec w
  | _, [] => 0
  | i, b :: bs => (if b then window w key i else 0) ^^^ hashFrom w key (i + 1) bs

def hash (w : ℕ) (key : ℕ → Bool) (input : List Bool) : BitVec w := hashFrom w key 0 input

/-- The first `n` bits of the key repeat every `p` bits. -/
def Repeats (key : ℕ → Bool) (p n : ℕ) : Prop := ∀ i, i + p < n → key (i + p) = key i

variable {w n p d i : ℕ} {key : ℕ → Bool} {a b : List Bool} {segs segs' : List (List Bool)}

theorem Repeats.of_dvd (h : Repeats key p n) (hd : p ∣ d) : Repeats key d n := by
  obtain ⟨k, rfl⟩ := hd
  induction k with
  | zero => exact fun i _ ↦ rfl
  | succ k ih =>
    intro i hi
    rw [Nat.mul_succ] at hi
    rw [Nat.mul_succ, ← Nat.add_assoc, h _ (by omega), ih i (by omega)]

theorem window_add (h : Repeats key d n) (hi : i + d + w ≤ n) :
    window w key (i + d) = window w key i := by
  induction w generalizing i with
  | zero => rfl
  | succ w ih => rw [window, window, h i (by omega), Nat.add_right_comm, ih (by omega)]

theorem hashFrom_append (i : ℕ) (a b : List Bool) :
    hashFrom w key i (a ++ b) = hashFrom w key i a ^^^ hashFrom w key (i + a.length) b := by
  induction a generalizing i with
  | nil => exact (BitVec.zero_xor).symm
  | cons x a ih =>
    rw [List.cons_append, hashFrom, hashFrom, ih, BitVec.xor_assoc, List.length_cons,
      Nat.add_right_comm, Nat.add_assoc i]

/-- An input is hashed the same a number of repetitions further on. -/
theorem hashFrom_add (h : Repeats key d n) (hi : i + d + a.length + w ≤ n + 1) :
    hashFrom w key (i + d) a = hashFrom w key i a := by
  induction a generalizing i with
  | nil => rfl
  | cons x a ih =>
    rw [List.length_cons] at hi
    rw [hashFrom, hashFrom, window_add h (by omega), Nat.add_right_comm, ih (by omega)]

theorem hash_append (h : Repeats key p n) (ha : p ∣ a.length)
    (hlen : a.length + b.length + w ≤ n + 1) :
    hash w key (a ++ b) = hash w key a ^^^ hash w key b := by
  have hshift : hashFrom w key (0 + a.length) b = hashFrom w key 0 b :=
    hashFrom_add (h.of_dvd ha) (by omega)
  rw [hash, hashFrom_append, hshift]
  rfl

/-- The parts of an input that begin where the key repeats can be hashed one by one. -/
theorem hash_flatten (h : Repeats key p n) (hsegs : ∀ s ∈ segs, p ∣ s.length)
    (hlen : segs.flatten.length + w ≤ n + 1) :
    hash w key segs.flatten = (segs.map (hash w key)).foldr (· ^^^ ·) 0 := by
  induction segs with
  | nil => rfl
  | cons s segs ih =>
    rw [List.flatten_cons, List.length_append] at hlen
    rw [List.flatten_cons, hash_append h (hsegs s List.mem_cons_self) hlen,
      ih (fun x hx ↦ hsegs x (List.mem_cons_of_mem s hx)) (by omega), List.map_cons, List.foldr_cons]

theorem hash_perm (h : Repeats key p n) (hsegs : ∀ s ∈ segs, p ∣ s.length)
    (hlen : segs.flatten.length + w ≤ n + 1) (hperm : segs.Perm segs') :
    hash w key segs.flatten = hash w key segs'.flatten := by
  rw [hash_flatten h hsegs hlen, hash_flatten h (fun s hs ↦ hsegs s (hperm.mem_iff.2 hs))
    (by rwa [← hperm.flatten.length_eq])]
  refine (hperm.map (hash w key)).foldr_eq' (fun x _ y _ z ↦ ?_) 0
  rw [← BitVec.xor_assoc, BitVec.xor_comm y x, BitVec.xor_assoc]

end Dpa.Toeplitz
