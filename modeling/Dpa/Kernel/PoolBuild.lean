import Dpa.Kernel.PoolClusters

namespace Dpa.Kernel

open Function MachineWord Bitmap

variable {k a x o i e fuel : ℕ} {pageSize objTotal objSize : ℕ}

theorem roundUp_eq (ha : a = 2 ^ k) (h : alignUp x a < 2 ^ 32) : roundUp x a = alignUp x a := by
  have hpos : 0 < a := ha ▸ Nat.two_pow_pos k
  have hand : x &&& (a - 1) = x % a := by rw [ha, Nat.and_two_pow_sub_one_eq_mod]
  rw [roundUp, hand]
  by_cases hx : x % a = 0
  · rw [if_pos hx, alignUp_of_dvd hpos (Nat.dvd_of_mod_eq_zero hx)]
  · rw [alignUp_eq hpos hx] at h ⊢
    rw [if_neg hx, ← Nat.cast_add, u32_natCast h]

theorem alignUp_lt (ha : 0 < a) : alignUp x a < x + a := by
  have hdiv := Nat.div_mul_le_self (x + a - 1) a
  rw [alignUp]
  omega

theorem entriesLoop_fits (ho' : o ≤ clusterMaxSize) (hi : i + fuel = 2050)
    (he : i = 1 ∧ e = 0 ∨ 1 ≤ e ∧ e * o ≤ clusterMaxSize) (hi' : 1 ≤ i) :
    1 ≤ entriesLoop pageSize o fuel i e ∧
      entriesLoop pageSize o fuel i e * o ≤ clusterMaxSize := by
  induction fuel generalizing i e with
  | zero => exact he.resolve_left (by omega)
  | succ fuel ih =>
    have hmul : i * o ≤ 2049 * clusterMaxSize := Nat.mul_le_mul (by omega) ho'
    have hused : u32 (i * o) = i * o := by
      rw [← Nat.cast_mul]
      exact u32_natCast (by unfold clusterMaxSize at hmul; omega)
    rw [entriesLoop, hused]
    split_ifs with hbig hrem hmore
    · refine he.resolve_left ?_
      rintro ⟨rfl, rfl⟩
      omega
    · exact ⟨hi', not_lt.1 hbig⟩
    · exact ih (by omega) (.inr ⟨hi', not_lt.1 hbig⟩) (by omega)
    · refine ih (by omega) (.inr (he.resolve_left ?_)) (by omega)
      rintro ⟨rfl, rfl⟩
      exact hmore (by simpa [u32] using Nat.pos_of_ne_zero hrem)

theorem clusterEntries_fits (pageSize : ℕ) (ho' : o ≤ clusterMaxSize) :
    1 ≤ clusterEntries pageSize o ∧ clusterEntries pageSize o * o ≤ clusterMaxSize :=
  entriesLoop_fits ho' rfl (.inl ⟨rfl, rfl⟩) le_rfl

/-- The exact number of clusters that `objTotal` objects and the two reserved ones take. -/
def exactClusters (pageSize objTotal objSize : ℕ) : ℕ :=
  let entries := clusterEntries pageSize (alignUp objSize cacheLine)
  (objTotal + 2 + entries - 1) / entries

def exactClusterSize (pageSize objSize : ℕ) : ℕ :=
  let objSize := alignUp objSize cacheLine
  alignUp (clusterEntries pageSize objSize * objSize) pageSize

def exactMemory (pageSize objTotal objSize : ℕ) : ℕ :=
  exactClusters pageSize objTotal objSize * exactClusterSize pageSize objSize

theorem alignUp_cacheLine (hpos : 0 < objSize) (hlt : objSize < clusterMaxSize) :
    64 ≤ alignUp objSize cacheLine ∧ alignUp objSize cacheLine ≤ clusterMaxSize := by
  unfold alignUp cacheLine
  unfold clusterMaxSize at hlt ⊢
  omega

/-- The number of objects and the size of a cluster can be counted in 32 bits. -/
structure Countable (pageSize objTotal objSize : ℕ) : Prop where
  objs : exactClusters pageSize objTotal objSize *
    clusterEntries pageSize (alignUp objSize cacheLine) < 2 ^ 31
  size : exactClusterSize pageSize objSize < 2 ^ 32

section

variable (hpage : pageSize = 2 ^ k) (hpos : 0 < objSize) (hlt : objSize < clusterMaxSize)

include hpos hlt in
theorem exactClusters_bounds (pageSize objTotal : ℕ) :
    objTotal + 2 ≤ exactClusters pageSize objTotal objSize *
        clusterEntries pageSize (alignUp objSize cacheLine) ∧
      1 ≤ exactClusters pageSize objTotal objSize := by
  have halign := alignUp_cacheLine hpos hlt
  have hfits := clusterEntries_fits pageSize halign.2
  have hle := le_alignUp hfits.1 (objTotal + 2)
  refine ⟨hle, ?_⟩
  by_contra h0
  have hzero : exactClusters pageSize objTotal objSize = 0 := by omega
  rw [alignUp, show (objTotal + 2 + clusterEntries pageSize (alignUp objSize cacheLine) - 1) /
    clusterEntries pageSize (alignUp objSize cacheLine) = 0 from hzero] at hle
  omega

theorem entries_le_size (objSize : ℕ) (hpage0 : 0 < pageSize) :
    clusterEntries pageSize (alignUp objSize cacheLine) * alignUp objSize cacheLine ≤
      exactClusterSize pageSize objSize := le_alignUp hpage0 _

include hpage hpos hlt in
theorem Countable.of_memory (hmem : exactMemory pageSize objTotal objSize < 2 ^ 32) :
    Countable pageSize objTotal objSize := by
  have halign := alignUp_cacheLine hpos hlt
  have hone := (exactClusters_bounds hpos hlt pageSize objTotal).2
  have hclst := entries_le_size objSize (hpage ▸ Nat.two_pow_pos k)
  have hsmall : exactClusters pageSize objTotal objSize *
      clusterEntries pageSize (alignUp objSize cacheLine) * 64 < 2 ^ 32 := by
    refine lt_of_le_of_lt ?_ hmem
    rw [exactMemory, Nat.mul_assoc]
    exact Nat.mul_le_mul_left _ ((Nat.mul_le_mul_left _ halign.1).trans hclst)
  exact ⟨by omega, (Nat.le_mul_of_pos_left _ hone).trans_lt hmem⟩

include hpage hpos hlt in
/-- Every size of a countable pool is the exact one, but for the memory, which may wrap. -/
theorem emptyPool_eq (hc : Countable pageSize objTotal objSize) :
    emptyPool pageSize objTotal objSize =
      { objTotal := exactClusters pageSize objTotal objSize *
          clusterEntries pageSize (alignUp objSize cacheLine)
        clstNEntries := clusterEntries pageSize (alignUp objSize cacheLine)
        numClusters := exactClusters pageSize objTotal objSize
        clstSize := exactClusterSize pageSize objSize
        objSize := alignUp objSize cacheLine
        memTotal := u32 (exactMemory pageSize objTotal objSize)
        addrTbl := fun _ ↦ ⟨0, 0⟩
        bitmapLen := (exactClusters pageSize objTotal objSize *
          clusterEntries pageSize (alignUp objSize cacheLine) + 31) / 32 } := by
  have halign := alignUp_cacheLine hpos hlt
  have hfits := clusterEntries_fits pageSize halign.2
  have htotal := (exactClusters_bounds hpos hlt pageSize objTotal).1
  have hobjs := hc.objs
  have hobj : roundUp objSize cacheLine = alignUp objSize cacheLine :=
    roundUp_eq (k := 6) rfl (by unfold clusterMaxSize at halign; omega)
  have hmul := hfits.2
  have hentries : clusterEntries pageSize (alignUp objSize cacheLine) ≤ clusterMaxSize :=
    (Nat.le_mul_of_pos_right _ (by omega)).trans hmul
  unfold clusterMaxSize at hmul hentries
  have hround : roundUp (u32 ((clusterEntries pageSize (alignUp objSize cacheLine) : ℕ) *
      (alignUp objSize cacheLine : ℕ))) pageSize = exactClusterSize pageSize objSize := by
    rw [← Nat.cast_mul, u32_natCast (by omega)]
    exact roundUp_eq hpage hc.size
  have hplus : u32 ((objTotal : ℤ) + 2) = objTotal + 2 := by
    rw [show (objTotal : ℤ) + 2 = (objTotal + 2 : ℕ) from rfl, u32_natCast (by omega)]
  have hn : u32 (((objTotal + 2 : ℕ) : ℤ) +
      (clusterEntries pageSize (alignUp objSize cacheLine) : ℕ) - 1) /
      clusterEntries pageSize (alignUp objSize cacheLine) =
      exactClusters pageSize objTotal objSize := by
    rw [u32_of_mem (by omega) (by omega), exactClusters]
    congr 1
    omega
  have hnk : u32 ((exactClusters pageSize objTotal objSize : ℕ) *
      (clusterEntries pageSize (alignUp objSize cacheLine) : ℕ)) =
      exactClusters pageSize objTotal objSize *
        clusterEntries pageSize (alignUp objSize cacheLine) := by
    rw [← Nat.cast_mul, u32_natCast (by omega)]
  have hnc : u32 ((exactClusters pageSize objTotal objSize : ℕ) *
      (exactClusterSize pageSize objSize : ℕ)) = u32 (exactMemory pageSize objTotal objSize) := by
    rw [← Nat.cast_mul, exactMemory]
  unfold emptyPool
  simp only [hobj, hround, hplus, hn, hnk, hnc]

end

/-- Pages for `n` clusters of `size` bytes, apart from each other. -/
structure PagesFor (getFreePages : ℕ → ℕ) (n size : ℕ) : Prop where
  available : ∀ c < n, getFreePages c ≠ 0
  apart : ∀ c < n, ∀ c' < n, c ≠ c' →
    getFreePages c + size ≤ getFreePages c' ∨ getFreePages c' + size ≤ getFreePages c

def fullPool (getFreePages virtToPhys : ℕ → ℕ) (pageSize objTotal objSize : ℕ) : DpaObjPool :=
  let pool := emptyPool pageSize objTotal objSize
  { pool with
    addrTbl := fun x ↦
      if x < pool.objTotal then clusterItem getFreePages virtToPhys pool x else ⟨0, 0⟩ }

section

variable {getFreePages virtToPhys : ℕ → ℕ} (hpage : pageSize = 2 ^ k) (hpos : 0 < objSize)
  (hlt : objSize < clusterMaxSize) (hc : Countable pageSize objTotal objSize)
  (hpages : PagesFor getFreePages (exactClusters pageSize objTotal objSize)
    (exactClusterSize pageSize objSize))

include hpage hpos hlt hc hpages

theorem fullPool_sound :
    (fullPool getFreePages virtToPhys pageSize objTotal objSize).Sound := by
  have halign := alignUp_cacheLine hpos hlt
  have hfits := clusterEntries_fits pageSize halign.2
  have hbounds := exactClusters_bounds hpos hlt pageSize objTotal
  have hpage0 : 0 < pageSize := hpage ▸ Nat.two_pow_pos k
  rw [fullPool, emptyPool_eq hpage hpos hlt hc]
  have hclst : clusterEntries pageSize (alignUp objSize cacheLine) * alignUp objSize cacheLine ≤
      exactClusterSize pageSize objSize := le_alignUp hpage0 _
  have hobj : 0 < clusterEntries pageSize (alignUp objSize cacheLine) *
      alignUp objSize cacheLine := Nat.mul_pos hfits.1 (by omega)
  have hbase : ∀ c < exactClusters pageSize objTotal objSize,
      c * clusterEntries pageSize (alignUp objSize cacheLine) <
        exactClusters pageSize objTotal objSize *
          clusterEntries pageSize (alignUp objSize cacheLine) :=
    fun c hc ↦ Nat.mul_lt_mul_of_pos_right hc hfits.1
  have hfirst : ∀ c, c * clusterEntries pageSize (alignUp objSize cacheLine) /
      clusterEntries pageSize (alignUp objSize cacheLine) = c :=
    fun c ↦ Nat.mul_div_cancel c hfits.1
  constructor
  case entries_pos => exact hfits.1
  case objSize_pos => exact (by omega : 0 < alignUp objSize cacheLine)
  case clstSize_pos => exact hobj.trans_le hclst
  case fits => exact hclst
  case total => rfl
  case two_le => exact le_trans (by omega) hbounds.1
  case bitmap => exact (by omega : ∀ t : ℕ, t ≤ 32 * ((t + 31) / 32)) _
  case vaddr =>
    intro x hx
    have hdiv := Nat.div_lt_of_lt_mul (Nat.mul_comm _ _ ▸ hx)
    simp only [clusterBase, if_pos hx, if_pos (hbase _ hdiv), clusterItem, hfirst, Nat.mul_mod_left,
      Nat.zero_mul, Nat.add_zero]
  case base_ne =>
    intro c hc
    simp only [clusterBase, if_pos (hbase c hc), clusterItem, hfirst, Nat.mul_mod_left,
      Nat.zero_mul, Nat.add_zero]
    exact hpages.available c hc
  case apart =>
    intro c hc c' hc' hne
    simp only [clusterBase, if_pos (hbase c hc), if_pos (hbase c' hc'), clusterItem, hfirst,
      Nat.mul_mod_left, Nat.zero_mul, Nat.add_zero]
    exact hpages.apart c hc c' hc' hne

variable (virtToPhys) in
theorem dpaNewObjAllocator_eq :
    ∃ w, dpaNewObjAllocator getFreePages virtToPhys pageSize objTotal objSize =
        some (fullPool getFreePages virtToPhys pageSize objTotal objSize, w) ∧
      Represents (fullPool getFreePages virtToPhys pageSize objTotal objSize) w
        (Finset.Ico 2 (fullPool getFreePages virtToPhys pageSize objTotal objSize).objTotal) := by
  have hsound : (fullPool getFreePages virtToPhys pageSize objTotal objSize).Sound :=
    fullPool_sound hpage hpos hlt hc hpages
  have heq := emptyPool_eq hpage hpos hlt hc
  have htotal : (emptyPool pageSize objTotal objSize).objTotal =
      exactClusters pageSize objTotal objSize *
        (emptyPool pageSize objTotal objSize).clstNEntries := by
    rw [heq]
  have hpos' : 0 < (emptyPool pageSize objTotal objSize).clstNEntries := hsound.entries_pos
  have hloop := clustersLoop_all virtToPhys (fun _ ↦ 0) hpos' htotal hpages.available
  have hpool : (clustersLoop getFreePages virtToPhys
      ((emptyPool pageSize objTotal objSize).objTotal + 1) 0
      (emptyPool pageSize objTotal objSize) fun _ ↦ 0).1 =
      fullPool getFreePages virtToPhys pageSize objTotal objSize := by
    rw [hloop, fullPool, DpaObjPool.filled, ← htotal]
    rfl
  have hsmall : (fullPool getFreePages virtToPhys pageSize objTotal objSize).objTotal < 2 ^ 31 := by
    have htotal' := congrArg DpaObjPool.objTotal heq
    exact htotal'.trans_lt hc.objs
  refine ⟨⟨u32 ((fullPool getFreePages virtToPhys pageSize objTotal objSize).objTotal - 2),
    update ((List.range' 0 (fullPool getFreePages virtToPhys pageSize objTotal objSize).objTotal).foldl
      setBit fun _ ↦ 0) 0 (~~~3#32)⟩, ?_, ?_, ?_, ?_⟩
  · rw [dpaNewObjAllocator, if_neg (not_le.2 hlt)]
    dsimp only
    rw [hpool, hloop, ← htotal]
    rfl
  · intro x hx
    exact Finset.mem_Ico.1 hx
  · intro x hx
    have hlow : ∀ y < 32, (~~~3#32).getLsbD y = decide (2 ≤ y) := by decide
    rw [bit_update]
    by_cases hword : x / 32 = 0
    · rw [if_pos hword, hlow _ (Nat.mod_lt x (by decide))]
      exact decide_eq_decide.2 (by rw [Finset.mem_Ico]; omega)
    · rw [if_neg hword, bit_foldl_setBit (by decide)]
      have hmem : x ∈ List.range' 0
          (fullPool getFreePages virtToPhys pageSize objTotal objSize).objTotal :=
        List.mem_range'_1.2 ⟨Nat.zero_le x, by omega⟩
      rw [decide_eq_true hmem, Bool.or_true, decide_eq_true (Finset.mem_Ico.2 ⟨by omega, hx⟩)]
  · have htwo := hsound.two_le
    rw [Nat.card_Ico]
    dsimp only
    rw [u32_of_mem (by omega) (by omega)]
    omega

end

section

variable {getFreePages virtToPhys : ℕ → ℕ}

theorem fullPool_mapped (hpage : pageSize = 2 ^ k) (hpos : 0 < objSize)
    (hlt : objSize < clusterMaxSize) (hmem : exactMemory pageSize objTotal objSize < 2 ^ 32) :
    (fullPool getFreePages virtToPhys pageSize objTotal objSize).Mapped := by
  rw [fullPool, emptyPool_eq hpage hpos hlt (.of_memory hpage hpos hlt hmem)]
  exact u32_natCast hmem

end

end Dpa.Kernel
