import Dpa.Library.Loop

namespace Dpa.Bitmap

open Function Loop

variable {w : ℕ} {b b' : ℕ → BitVec w} {v : BitVec w} {i j n lo hi x y : ℕ}

/-- Bit `x` of a bitmap kept in words of `w` bits. -/
def bit (b : ℕ → BitVec w) (x : ℕ) : Bool := (b (x / w)).getLsbD (x % w)

def setBit (b : ℕ → BitVec w) (x : ℕ) : ℕ → BitVec w :=
  update b (x / w) (b (x / w) ||| 1#w <<< (x % w))

def clearBit (b : ℕ → BitVec w) (x : ℕ) : ℕ → BitVec w :=
  update b (x / w) (b (x / w) &&& ~~~(1#w <<< (x % w)))

theorem getLsbD_one_shiftLeft (hi : i < w) : (1#w <<< j).getLsbD i = decide (i = j) := by
  rw [BitVec.getLsbD_shiftLeft, BitVec.getLsbD_one]
  by_cases hij : i < j
  · simp [hij, hij.ne]
  · have hiff : i - j = 0 ↔ i = j := by omega
    have hw : 0 < w := by omega
    simp [hi, hij, hiff, hw]

theorem bit_update (b : ℕ → BitVec w) (i : ℕ) (v : BitVec w) (x : ℕ) :
    bit (update b i v) x = if x / w = i then v.getLsbD (x % w) else bit b x := by
  unfold bit
  by_cases hx : x / w = i
  · rw [if_pos hx, hx, update_self]
  · rw [if_neg hx, update_of_ne hx]

theorem eq_iff_div_mod (w x y : ℕ) : y = x ↔ y / w = x / w ∧ y % w = x % w := by
  refine ⟨fun h ↦ by rw [h]; exact ⟨rfl, rfl⟩, ?_⟩
  rintro ⟨hdiv, hmod⟩
  rw [← Nat.div_add_mod y w, ← Nat.div_add_mod x w, hdiv, hmod]

theorem bit_setBit (hw : 0 < w) (b : ℕ → BitVec w) (x y : ℕ) :
    bit (setBit b x) y = (bit b y || decide (y = x)) := by
  rw [setBit, bit_update, BitVec.getLsbD_or, getLsbD_one_shiftLeft (Nat.mod_lt y hw)]
  by_cases hdiv : y / w = x / w
  · rw [if_pos hdiv, ← hdiv]
    simp [bit, eq_iff_div_mod w x y, hdiv]
  · rw [if_neg hdiv]
    simp [eq_iff_div_mod w x y, hdiv]

theorem bit_clearBit (hw : 0 < w) (b : ℕ → BitVec w) (x y : ℕ) :
    bit (clearBit b x) y = (bit b y && decide (y ≠ x)) := by
  have hy := Nat.mod_lt y hw
  rw [clearBit, bit_update, BitVec.getLsbD_and, BitVec.getLsbD_not, getLsbD_one_shiftLeft hy]
  by_cases hdiv : y / w = x / w
  · rw [if_pos hdiv, ← hdiv]
    simp [bit, eq_iff_div_mod w x y, hdiv, hy]
  · rw [if_neg hdiv]
    simp [eq_iff_div_mod w x y, hdiv]

theorem ext_bit (hw : 0 < w) (h : ∀ x, bit b x = bit b' x) : b = b' := by
  funext i
  apply BitVec.eq_of_getLsbD_eq
  intro j hj
  have hdiv : (w * i + j) / w = i := by
    rw [Nat.mul_add_div hw, Nat.div_eq_of_lt hj, Nat.add_zero]
  have hmod : (w * i + j) % w = j := by rw [Nat.mul_add_mod, Nat.mod_eq_of_lt hj]
  have hx := h (w * i + j)
  rwa [bit, bit, hdiv, hmod] at hx

/-- The lowest set bit of a word that has one, as the mask loop finds it. -/
def lowest (v : BitVec w) : ℕ := leading (fun j ↦ v &&& 1#w <<< j = 0) w

theorem and_shiftLeft_eq_zero (hj : j < w) : v &&& 1#w <<< j = 0 ↔ v.getLsbD j = false := by
  refine ⟨fun h ↦ ?_, fun h ↦ ?_⟩
  · have hbit := congrArg (fun v ↦ v.getLsbD j) h
    simpa [BitVec.getLsbD_and, getLsbD_one_shiftLeft hj] using hbit
  · apply BitVec.eq_of_getLsbD_eq
    intro i hi
    rw [BitVec.getLsbD_and, getLsbD_one_shiftLeft hi]
    by_cases hij : i = j
    · simp [hij, h]
    · simp [hij]

theorem lowest_lt (hv : v ≠ 0) : lowest v < w := by
  refine lt_of_le_of_ne (leading_le _ _) ?_
  intro hall
  apply hv
  apply BitVec.eq_of_getLsbD_eq
  intro i hi
  have hlt : i < leading (fun j ↦ v &&& 1#w <<< j = 0) w := hi.trans_eq hall.symm
  have hclear := of_decide_eq_true (of_lt_leading hlt)
  simpa using (and_shiftLeft_eq_zero hi).1 hclear

theorem getLsbD_lowest (hv : v ≠ 0) : v.getLsbD (lowest v) = true := by
  have hlt := lowest_lt hv
  have hstop := of_decide_eq_false (leading_fails hlt)
  by_contra hclear
  exact hstop ((and_shiftLeft_eq_zero hlt).2 (Bool.eq_false_iff.2 hclear))

theorem getLsbD_of_lt_lowest (hj : j < lowest v) : v.getLsbD j = false := by
  have hw : j < w := hj.trans_le (leading_le _ _)
  exact (and_shiftLeft_eq_zero hw).1 (of_decide_eq_true (of_lt_leading hj))

theorem word_ne_zero (h : bit b x = true) : b (x / w) ≠ 0 := by
  intro hzero
  simp [bit, hzero] at h

theorem lowest_le (h : bit b x = true) : x / w * w + lowest (b (x / w)) ≤ x := by
  have hx := Nat.div_add_mod' x w
  have hle : lowest (b (x / w)) ≤ x % w := by
    by_contra hlt
    rw [bit, getLsbD_of_lt_lowest (not_le.1 hlt)] at h
    exact Bool.false_ne_true h
  omega

theorem bit_word (hj : j < w) (i : ℕ) : bit b (i * w + j) = (b i).getLsbD j := by
  have hw : 0 < w := by omega
  have hdiv : (i * w + j) / w = i := by
    rw [Nat.mul_comm, Nat.mul_add_div hw, Nat.div_eq_of_lt hj, Nat.add_zero]
  have hmod : (i * w + j) % w = j := by rw [Nat.mul_comm, Nat.mul_add_mod, Nat.mod_eq_of_lt hj]
  rw [bit, hdiv, hmod]

def first (b : ℕ → BitVec w) (n : ℕ) : ℕ :=
  leading (fun i ↦ b i = 0) n * w + lowest (b (leading (fun i ↦ b i = 0) n))

theorem leading_le_of_bit (h : bit b x = true) (n : ℕ) :
    leading (fun i ↦ b i = 0) n ≤ x / w := by
  by_contra hlt
  exact word_ne_zero h (of_decide_eq_true (of_lt_leading (not_le.1 hlt)))

theorem bit_first (h : bit b x = true) (hx : x / w < n) : bit b (first b n) = true := by
  have hle := leading_le_of_bit h n
  have hne := of_decide_eq_false (leading_fails (hle.trans_lt hx))
  rw [first, bit_word (lowest_lt hne)]
  exact getLsbD_lowest hne

theorem first_le (h : bit b x = true) (hx : x / w < n) : first b n ≤ x := by
  have hle := leading_le_of_bit h n
  rcases hle.eq_or_lt with heq | hlt
  · rw [first, heq]
    exact lowest_le h
  · have hne := of_decide_eq_false (leading_fails (hle.trans_lt hx))
    have hlow := lowest_lt hne
    have hdiv := Nat.div_mul_le_self x w
    have hmul : (leading (fun i ↦ b i = 0) n + 1) * w ≤ x / w * w := Nat.mul_le_mul_right w hlt
    rw [Nat.add_mul] at hmul
    rw [first]
    omega

def bits (lo hi : ℕ) (b : ℕ → BitVec w) : Finset ℕ := (Finset.Ico lo hi).filter fun x ↦ bit b x

theorem mem_bits : x ∈ bits lo hi b ↔ (lo ≤ x ∧ x < hi) ∧ bit b x = true := by
  rw [bits, Finset.mem_filter, Finset.mem_Ico]

theorem bits_setBit (hw : 0 < w) (hlo : lo ≤ x) (hhi : x < hi) :
    bits lo hi (setBit b x) = insert x (bits lo hi b) := by
  ext y
  rw [mem_bits, Finset.mem_insert, mem_bits, bit_setBit hw, Bool.or_eq_true, decide_eq_true_eq]
  constructor
  · rintro ⟨hrange, hbit | rfl⟩
    · exact .inr ⟨hrange, hbit⟩
    · exact .inl rfl
  · rintro (rfl | ⟨hrange, hbit⟩)
    · exact ⟨⟨hlo, hhi⟩, .inr rfl⟩
    · exact ⟨hrange, .inl hbit⟩

theorem bits_clearBit (hw : 0 < w) : bits lo hi (clearBit b x) = (bits lo hi b).erase x := by
  ext y
  rw [mem_bits, Finset.mem_erase, mem_bits, bit_clearBit hw, Bool.and_eq_true, decide_eq_true_eq]
  tauto

theorem bit_foldl_setBit (hw : 0 < w) (l : List ℕ) (b : ℕ → BitVec w) (x : ℕ) :
    bit (l.foldl setBit b) x = (bit b x || decide (x ∈ l)) := by
  induction l generalizing b with
  | nil => simp
  | cons y l ih =>
    rw [List.foldl_cons, ih, bit_setBit hw, Bool.or_assoc]
    simp only [List.mem_cons, Bool.decide_or]

theorem bit_foldl_clearBit (hw : 0 < w) (l : List ℕ) (b : ℕ → BitVec w) (x : ℕ) :
    bit (l.foldl clearBit b) x = (bit b x && decide (x ∉ l)) := by
  induction l generalizing b with
  | nil => simp
  | cons y l ih =>
    rw [List.foldl_cons, ih, bit_clearBit hw, Bool.and_assoc]
    simp only [List.mem_cons, not_or, Bool.decide_and, ne_eq]

theorem card_bits (h : ∀ x, lo ≤ x → x < hi → bit b x = true) :
    (bits lo hi b).card = hi - lo := by
  have hall : bits lo hi b = Finset.Ico lo hi := by
    ext x
    rw [mem_bits, Finset.mem_Ico]
    exact ⟨And.left, fun hx ↦ ⟨hx, h x hx.1 hx.2⟩⟩
  rw [hall, Nat.card_Ico]

end Dpa.Bitmap
