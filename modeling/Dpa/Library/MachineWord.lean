import Mathlib.Tactic

namespace Dpa.MachineWord

/-- What an integer becomes when it is stored in a `uint16_t`. -/
def u16 (x : ℤ) : ℕ := (x % 65536).toNat

def u32 (x : ℤ) : ℕ := (x % 4294967296).toNat

def s32 (x : ℤ) : ℤ := (x + 2147483648) % 4294967296 - 2147483648

def u64 (x : ℤ) : ℕ := (x % 18446744073709551616).toNat

/-- The least multiple of `a` that is not below `x`. -/
def alignUp (x a : ℕ) : ℕ := (x + a - 1) / a * a

theorem le_alignUp {a : ℕ} (ha : 0 < a) (x : ℕ) : x ≤ alignUp x a := by
  have hdiv := Nat.div_add_mod' (x + a - 1) a
  have hmod := Nat.mod_lt (x + a - 1) ha
  unfold alignUp
  omega

theorem alignUp_of_dvd {a x : ℕ} (ha : 0 < a) (h : a ∣ x) : alignUp x a = x := by
  obtain ⟨q, rfl⟩ := h
  unfold alignUp
  rw [Nat.add_sub_assoc ha, Nat.mul_add_div ha, Nat.div_eq_of_lt (Nat.sub_one_lt ha.ne'),
    Nat.add_zero, Nat.mul_comm]

theorem alignUp_eq {a x : ℕ} (ha : 0 < a) (h : x % a ≠ 0) : alignUp x a = x + (a - x % a) := by
  have hx := Nat.div_add_mod' x a
  have hlt := Nat.mod_lt x ha
  have hdiv : (x + a - 1) / a = x / a + 1 := by
    rw [Nat.div_eq_iff ha, Nat.add_mul]
    omega
  rw [alignUp, hdiv, Nat.add_mul]
  omega

theorem dvd_alignUp (x a : ℕ) : a ∣ alignUp x a := Nat.dvd_mul_left _ _

theorem u32_lt (x : ℤ) : u32 x < 2 ^ 32 := by
  unfold u32
  omega

theorem u32_of_mem {x : ℤ} (h : 0 ≤ x) (h' : x < 2 ^ 32) : u32 x = x.toNat := by
  unfold u32
  rw [Int.emod_eq_of_lt h (by simpa using h')]

theorem u32_natCast {n : ℕ} (h : n < 2 ^ 32) : u32 n = n := by
  rw [u32_of_mem (by omega) (by omega), Int.toNat_natCast]

theorem u16_natCast (n : ℕ) : u16 n = n % 65536 := by
  unfold u16
  omega

theorem s32_of_mem {x : ℤ} (h : -2 ^ 31 ≤ x) (h' : x < 2 ^ 31) : s32 x = x := by
  unfold s32
  omega

theorem s32_u32 (x : ℤ) : s32 (u32 x) = s32 x := by
  unfold s32 u32
  rw [Int.toNat_of_nonneg (Int.emod_nonneg _ (by decide)), Int.emod_add_emod]

theorem int32_and_mask (a : ℕ) {k : ℕ} (hk : k ≤ 31) :
    Int32.ofNat a &&& Int32.ofNat (2 ^ k - 1) = Int32.ofNat (a % 2 ^ k) := by
  apply Int32.toBitVec_inj.1
  simp only [Int32.toBitVec_and, Int32.toBitVec_ofNat']
  apply BitVec.eq_of_toNat_eq
  have hle : 2 ^ k ≤ 2 ^ 31 := Nat.pow_le_pow_right (by decide) hk
  have hdvd : 2 ^ k ∣ 2 ^ 32 := Nat.pow_dvd_pow 2 (by omega)
  have hlt := Nat.mod_lt a (Nat.two_pow_pos k)
  rw [BitVec.toNat_and, BitVec.toNat_ofNat, BitVec.toNat_ofNat, BitVec.toNat_ofNat,
    Nat.mod_eq_of_lt (a := 2 ^ k - 1) (by omega), Nat.and_two_pow_sub_one_eq_mod,
    Nat.mod_mod_of_dvd _ hdvd, Nat.mod_eq_of_lt (a := a % 2 ^ k) (by omega)]

theorem int32_ofNat_inj {a b : ℕ} (ha : a < 2 ^ 31) (hb : b < 2 ^ 31)
    (h : Int32.ofNat a = Int32.ofNat b) : a = b := by
  have h' := congrArg Int32.toInt h
  rw [Int32.toInt_ofNat_of_lt ha, Int32.toInt_ofNat_of_lt hb] at h'
  omega

theorem int32_ofNat_eq_zero {a : ℕ} (ha : a < 2 ^ 31) : Int32.ofNat a = 0 ↔ a = 0 :=
  ⟨fun h ↦ int32_ofNat_inj ha (by decide) h, fun h ↦ by rw [h]; rfl⟩

theorem int32_ofNat_lt {a b : ℕ} (ha : a < 2 ^ 31) (hb : b < 2 ^ 31) :
    Int32.ofNat a < Int32.ofNat b ↔ a < b := by
  rw [Int32.lt_iff_toInt_lt, Int32.toInt_ofNat_of_lt ha, Int32.toInt_ofNat_of_lt hb]
  omega

/-- Subtraction of an index followed by addition of the ring size, as the queue code does it. -/
theorem int32_sub_add {a b n : ℕ} (h : b ≤ a + n) :
    Int32.ofNat a - Int32.ofNat b + Int32.ofNat n = Int32.ofNat (a + n - b) := by
  rw [Int32.ofNat_sub _ _ h, Int32.ofNat_add]
  grind

theorem int32_toInt_sub {a b : ℕ} (ha : a < 2 ^ 31) (hb : b < 2 ^ 31) :
    (Int32.ofNat a - Int32.ofNat b).toInt = a - b := by
  rw [Int32.toInt_sub, Int32.toInt_ofNat_of_lt ha, Int32.toInt_ofNat_of_lt hb]
  exact Int.bmod_eq_of_le (by omega) (by omega)

theorem int32_toInt_sub_one {x : Int32} {a : ℤ} (h : x.toInt = a) (ha : -2 ^ 31 < a) :
    (x - 1).toInt = a - 1 := by
  have hlt := x.toInt_lt
  rw [Int32.toInt_sub, h, show (1 : Int32).toInt = 1 from rfl]
  exact Int.bmod_eq_of_le (by omega) (by omega)

end Dpa.MachineWord
