import Dpa.Kernel.Ring

namespace Dpa.Kernel

open MachineWord Cyclic

variable {N newCur : ℕ} {kr : DpaKring} {i : ℤ}

/-- The two index maps of a ring of `N` slots are bijections of its indices, each the inverse of
the other, and go to the next slot together with their argument. -/
structure TranslatesSlots (N : ℕ) (kr : DpaKring) : Prop where
  n2k : Set.BijOn (dpaIdxN2k kr) (Set.Ico 0 N) (Set.Ico 0 N)
  k2n : Set.BijOn (dpaIdxK2n kr) (Set.Ico 0 N) (Set.Ico 0 N)
  inverse : Set.InvOn (dpaIdxK2n kr) (dpaIdxN2k kr) (Set.Ico 0 N) (Set.Ico 0 N)
  n2k_next : ∀ i ∈ Set.Ico (0 : ℤ) N, dpaIdxN2k kr ((i + 1) % N) = (dpaIdxN2k kr i + 1) % N
  k2n_next : ∀ i ∈ Set.Ico (0 : ℤ) N, dpaIdxK2n kr ((i + 1) % N) = (dpaIdxK2n kr i + 1) % N

theorem dpaIdxN2k_shift (hb : N ≤ 2 ^ 30) (hslots : kr.nkrNumSlots = N) (hlo : -N < kr.nkrHwofs)
    (hhi : kr.nkrHwofs < N) (hi : i ∈ Set.Ico (0 : ℤ) N) :
    dpaIdxN2k kr i = (i + kr.nkrHwofs) % N := by
  obtain ⟨h0, hN⟩ := hi
  have hn : s32 (kr.nkrNumSlots : ℕ) = N := by rw [hslots, s32_of_mem] <;> omega
  have hsum : s32 (i + kr.nkrHwofs) = i + kr.nkrHwofs := s32_of_mem (by omega) (by omega)
  rw [← corrected_eq (by omega) (by omega)]
  unfold dpaIdxN2k
  simp only [hn, hsum]
  split_ifs
  · exact s32_of_mem (by omega) (by omega)
  · rfl
  · exact s32_of_mem (by omega) (by omega)

theorem dpaIdxK2n_eq_n2k (kr : DpaKring) (i : ℤ) :
    dpaIdxK2n kr i = dpaIdxN2k { kr with nkrHwofs := -kr.nkrHwofs } i := by
  unfold dpaIdxK2n dpaIdxN2k
  rw [Int.sub_eq_add_neg]

theorem dpaIdxK2n_shift (hb : N ≤ 2 ^ 30) (hslots : kr.nkrNumSlots = N) (hlo : -N < kr.nkrHwofs)
    (hhi : kr.nkrHwofs < N) (hi : i ∈ Set.Ico (0 : ℤ) N) :
    dpaIdxK2n kr i = (i + -kr.nkrHwofs) % N := by
  rw [dpaIdxK2n_eq_n2k]
  exact dpaIdxN2k_shift hb hslots (Int.neg_lt_neg hhi) (Int.neg_lt_of_neg_lt hlo) hi

theorem translatesSlots (hN : 0 < N) (hb : N ≤ 2 ^ 30) (hslots : kr.nkrNumSlots = N)
    (hlo : -N < kr.nkrHwofs) (hhi : kr.nkrHwofs < N) : TranslatesSlots N kr := by
  have hpos : (0 : ℤ) < N := by omega
  have hn2k : Set.EqOn (fun i ↦ (i + kr.nkrHwofs) % N) (dpaIdxN2k kr) (Set.Ico 0 N) :=
    fun i hi ↦ (dpaIdxN2k_shift hb hslots hlo hhi hi).symm
  have hk2n : Set.EqOn (fun i ↦ (i + -kr.nkrHwofs) % N) (dpaIdxK2n kr) (Set.Ico 0 N) :=
    fun i hi ↦ (dpaIdxK2n_shift hb hslots hlo hhi hi).symm
  have hmaps := shift_mapsTo hpos
  have hback := shift_invOn (N : ℤ) kr.nkrHwofs
  refine ⟨(shift_bijOn hpos _).congr hn2k, (shift_bijOn hpos _).congr hk2n, ⟨?_, ?_⟩, ?_, ?_⟩
  · intro i hi
    rw [← hn2k hi, ← hk2n (hmaps _ hi)]
    exact hback.1 hi
  · intro i hi
    rw [← hk2n hi, ← hn2k (hmaps _ hi)]
    exact hback.2 hi
  · intro i hi
    rw [← hn2k (hmaps 1 hi), ← hn2k hi]
    exact shift_next N _ i
  · intro i hi
    rw [← hk2n (hmaps 1 hi), ← hk2n hi]
    exact shift_next N _ i

/-- What `dpa_reset` computes, for a driver that starts the NIC ring anew at any index. -/
theorem resetHwofs_spec (hb : N ≤ 2 ^ 30) (hslots : kr.nkrNumSlots = N) (hcur : kr.nrHwcur < N)
    (havail : 0 ≤ kr.nrHwavail) (hroom : kr.nrHwavail ≤ N - 1) (hnew : newCur < N) :
    (-N < resetHwofs kr newCur ∧ resetHwofs kr newCur < N) ∧
      resetHwofs kr newCur ≡ kr.nrHwcur + kr.nrHwavail - newCur [ZMOD N] := by
  have hsum : s32 (u32 (u32 (kr.nrHwcur + kr.nrHwavail) - newCur)) =
      kr.nrHwcur + kr.nrHwavail - newCur := by
    rw [u32_of_mem (x := kr.nrHwcur + kr.nrHwavail) (by omega) (by omega), s32_u32,
      Int.toNat_of_nonneg (by omega), s32_of_mem (by omega) (by omega)]
  have hlast : s32 (u32 (kr.nkrNumSlots - 1)) = N - 1 := by
    rw [hslots, s32_u32, s32_of_mem (by omega) (by omega)]
  have hN : s32 ((N : ℤ) - 1 + 1) = N := by
    rw [Int.sub_add_cancel, s32_of_mem (by omega) (by omega)]
  unfold resetHwofs
  simp only [hsum, hlast, hN]
  split_ifs with hover
  · rw [s32_of_mem (by omega) (by omega)]
    refine ⟨by omega, ?_⟩
    exact Int.sub_emod_right _ _
  · exact ⟨by omega, rfl⟩

/-- The offsets that `dpa_reset` leaves, and the index maps under every offset. The rings of the
drivers have 4096 slots at most; up to `2 ^ 30` the sums fit an `int`. -/
theorem reset_translates (hb : N ≤ 2 ^ 30) :
    (∀ (kr : DpaKring) (newCur : ℕ), kr.nkrNumSlots = N → kr.nrHwcur < N → 0 ≤ kr.nrHwavail →
      kr.nrHwavail ≤ N - 1 → newCur < N →
        (-N < (dpaReset kr newCur).nkrHwofs ∧ (dpaReset kr newCur).nkrHwofs < N) ∧
        (dpaReset kr newCur).nkrHwofs ≡ kr.nrHwcur + kr.nrHwavail - newCur [ZMOD N]) ∧
    ∀ kr : DpaKring, kr.nkrNumSlots = N → -N < kr.nkrHwofs → kr.nkrHwofs < N →
      TranslatesSlots N kr := by
  refine ⟨fun kr newCur hslots hcur havail hroom hnew ↦ ?_, fun kr hslots hlo hhi ↦ ?_⟩
  · rw [dpaReset_nkrHwofs]
    exact resetHwofs_spec hb hslots hcur havail hroom hnew
  · exact translatesSlots (by omega) hb hslots hlo hhi

def onePending : DpaKring := ⟨2, 1, 0, 8, 0, 0, 0⟩

theorem reset_translates_onePending : (dpaReset onePending 5).nkrHwofs = -2 ∧
    TranslatesSlots 8 (dpaReset onePending 5) := by
  obtain ⟨hreset, hmaps⟩ := reset_translates (N := 8) (by decide)
  have hofs := (hreset onePending 5 rfl (by decide) (by decide) (by decide) (by decide)).1
  exact ⟨by decide, hmaps (dpaReset onePending 5) rfl hofs.1 hofs.2⟩

/-- One slot more, and the sum wraps. -/
example : resetHwofs ⟨2 ^ 30, 2 ^ 30, 0, 2 ^ 30 + 1, 0, 0, 0⟩ 0 = -2 ^ 31 := by decide

end Dpa.Kernel
