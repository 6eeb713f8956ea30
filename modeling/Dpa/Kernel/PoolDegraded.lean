import Dpa.Kernel.PoolPages

namespace Dpa.Kernel

open Function MachineWord Bitmap

variable {k c m n x p S o : ℕ} {pageSize objTotal objSize : ℕ} {getFreePages virtToPhys : ℕ → ℕ}
  {pool : DpaObjPool} {w : PoolWords} {ops : List PageOp}

/-- The number of clusters that `dpa_new_obj_allocator` wants, counted in 32 bits. -/
def clustersWanted (pageSize objTotal objSize : ℕ) : ℕ :=
  let entries := clusterEntries pageSize (alignUp objSize cacheLine)
  u32 ((u32 (objTotal + 2) : ℤ) + entries - 1) / entries

def FirstFailure (getFreePages : ℕ → ℕ) (m : ℕ) : Prop :=
  getFreePages m = 0 ∧ ∀ c < m, getFreePages c ≠ 0

/-- Pages at `vaddr` have been got more often than freed. -/
def Held (ops : List PageOp) (vaddr : ℕ) : Prop :=
  ((freed ops).map (·.vaddr)).count vaddr < ((got ops).map (·.vaddr)).count vaddr

/-- Where object `x` ends in a mapping of the clusters one after another. -/
def objEnd (pool : DpaObjPool) (x : ℕ) : ℕ :=
  x / pool.clstNEntries * pool.clstSize + (x % pool.clstNEntries + 1) * pool.objSize

structure Serves (ops : List PageOp) (pool : DpaObjPool) (w : PoolWords) : Prop where
  two_le : 2 ≤ pool.objTotal
  vaddr : ∀ x < pool.objTotal, (pool.addrTbl x).vaddr ≠ 0
  cluster : ∀ x < pool.objTotal, ∃ clust, Held ops clust ∧ clust ≤ (pool.addrTbl x).vaddr ∧
    (pool.addrTbl x).vaddr + pool.objSize ≤ clust + pool.clstSize
  count : w.objFree = (bits 2 pool.objTotal w.bitmap).card
  mapped : ∀ x < pool.objTotal, objEnd pool x ≤ pool.memTotal

/-- An index halved and then less one is a multiple of the objects in a cluster only where these
are few. -/
theorem dvd_half_sub_one (hlim : 1 ≤ m * k / 2) :
    k ∣ m * k / 2 - 1 ↔ k = 1 ∨ (k = 2 ∨ k = 3) ∧ Odd m := by
  rcases Nat.even_or_odd' m with ⟨t, rfl | rfl⟩
  · have hhalf : 2 * t * k / 2 = t * k := by
      rw [Nat.mul_assoc, Nat.mul_div_cancel_left _ Nat.two_pos]
    have heven : ¬Odd (2 * t) := Nat.not_odd_iff_even.2 (even_two_mul t)
    rw [hhalf] at hlim ⊢
    constructor
    · intro hdvd
      refine .inl (Nat.dvd_one.1 ?_)
      exact (Nat.dvd_sub_iff_right hlim (Nat.dvd_mul_left k t)).1 hdvd
    · rintro (rfl | ⟨-, hodd⟩)
      · exact Nat.one_dvd _
      · exact absurd hodd heven
  · have hhalf : (2 * t + 1) * k / 2 = t * k + k / 2 := by
      rw [Nat.add_mul, Nat.one_mul, Nat.mul_assoc, Nat.mul_add_div Nat.two_pos]
    have hodd : Odd (2 * t + 1) := odd_two_mul_add_one t
    rw [hhalf] at hlim ⊢
    rcases Nat.lt_or_ge k 2 with hsmall | hbig
    · have hone : k = 1 := by
        by_contra hne
        obtain rfl : k = 0 := by omega
        simp at hlim
      subst hone
      simp
    · have hdvd : k ∣ t * k + k / 2 - 1 ↔ k ∣ k / 2 - 1 := by
        rw [Nat.add_sub_assoc (by omega)]
        exact (Nat.dvd_add_right (Nat.dvd_mul_left k t))
      rw [hdvd]
      constructor
      · intro hdvd
        have hzero := Nat.eq_zero_of_dvd_of_lt hdvd (by omega)
        exact .inr ⟨by omega, hodd⟩
      · rintro (rfl | ⟨rfl | rfl, -⟩)
        · exact Nat.one_dvd _
        · exact Nat.dvd_zero 2
        · exact Nat.dvd_zero 3

section

variable (hpage : pageSize = 2 ^ p) (hp : p ≤ 31) (hlt : objSize < clusterMaxSize)

include hlt in
theorem alignUp_cacheLine_le : alignUp objSize cacheLine ≤ clusterMaxSize := by
  unfold alignUp cacheLine
  unfold clusterMaxSize at hlt ⊢
  omega

include hpage hp hlt in
theorem exactClusterSize_lt : exactClusterSize pageSize objSize < 2 ^ 32 ∧
    exactClusterSize pageSize objSize <
      clusterEntries pageSize (alignUp objSize cacheLine) * alignUp objSize cacheLine + 2 ^ 31 := by
  have hfits := clusterEntries_fits pageSize (alignUp_cacheLine_le hlt)
  have hpow : pageSize ≤ 2 ^ 31 := hpage ▸ Nat.pow_le_pow_right Nat.two_pos hp
  have halign : exactClusterSize pageSize objSize < _ := alignUp_lt (hpage ▸ Nat.two_pow_pos p)
  unfold clusterMaxSize at hfits
  omega

variable (objTotal) in
include hpage hp hlt in
theorem emptyPool_sizes : emptyPool pageSize objTotal objSize =
    { objTotal := clustersWanted pageSize objTotal objSize *
        clusterEntries pageSize (alignUp objSize cacheLine)
      clstNEntries := clusterEntries pageSize (alignUp objSize cacheLine)
      numClusters := clustersWanted pageSize objTotal objSize
      clstSize := exactClusterSize pageSize objSize
      objSize := alignUp objSize cacheLine
      memTotal := u32 (clustersWanted pageSize objTotal objSize *
        exactClusterSize pageSize objSize : ℕ)
      addrTbl := fun _ ↦ ⟨0, 0⟩
      bitmapLen := (clustersWanted pageSize objTotal objSize *
        clusterEntries pageSize (alignUp objSize cacheLine) + 31) / 32 } := by
  have hle := alignUp_cacheLine_le hlt
  have hfits := clusterEntries_fits pageSize hle
  have hobj : roundUp objSize cacheLine = alignUp objSize cacheLine :=
    roundUp_eq (k := 6) rfl (hle.trans_lt (by decide))
  have hused : u32 (clusterEntries pageSize (alignUp objSize cacheLine) *
      alignUp objSize cacheLine) =
      clusterEntries pageSize (alignUp objSize cacheLine) * alignUp objSize cacheLine := by
    rw [← Nat.cast_mul]
    exact u32_natCast (hfits.2.trans_lt (by decide))
  have hsize : roundUp (clusterEntries pageSize (alignUp objSize cacheLine) *
      alignUp objSize cacheLine) pageSize = exactClusterSize pageSize objSize :=
    roundUp_eq hpage (exactClusterSize_lt hpage hp hlt).1
  have htotal : u32 (clustersWanted pageSize objTotal objSize *
      clusterEntries pageSize (alignUp objSize cacheLine)) =
      clustersWanted pageSize objTotal objSize *
        clusterEntries pageSize (alignUp objSize cacheLine) := by
    rw [← Nat.cast_mul]
    exact u32_natCast ((Nat.div_mul_le_self _ _).trans_lt (u32_lt _))
  have hwanted : u32 ((u32 (objTotal + 2) : ℤ) +
      clusterEntries pageSize (alignUp objSize cacheLine) - 1) /
      clusterEntries pageSize (alignUp objSize cacheLine) =
      clustersWanted pageSize objTotal objSize := rfl
  unfold emptyPool
  simp only [hobj, hused, hsize, hwanted, htotal, Nat.cast_mul]

end

structure DpaObjPool.Blank (pool : DpaObjPool) : Prop where
  entries_pos : 0 < pool.clstNEntries
  entries_one : pool.objSize = 0 → pool.clstNEntries = 1
  fits : pool.clstNEntries * pool.objSize ≤ pool.clstSize
  slack : pool.clstSize < pool.clstNEntries * pool.objSize + 2 ^ 31
  total : pool.objTotal = pool.numClusters * pool.clstNEntries
  total_lt : pool.objTotal < 2 ^ 32
  mem : pool.memTotal = u32 (pool.numClusters * pool.clstSize : ℕ)
  empty : ∀ x, (pool.addrTbl x).vaddr = 0

theorem emptyPool_blank (hpage : pageSize = 2 ^ p) (hp : p ≤ 31) (hlt : objSize < clusterMaxSize)
    (objTotal : ℕ) : (emptyPool pageSize objTotal objSize).Blank := by
  have hfits := clusterEntries_fits pageSize (alignUp_cacheLine_le hlt)
  rw [emptyPool_sizes _ hpage hp hlt]
  constructor
  case entries_pos => exact hfits.1
  case entries_one =>
    intro hzero
    have hloop : entriesLoop pageSize 0 2049 1 0 = 1 := by
      simp [entriesLoop, u32]
    rw [show alignUp objSize cacheLine = 0 from hzero]
    exact hloop
  case fits => exact entries_le_size objSize (hpage ▸ Nat.two_pow_pos p)
  case slack => exact (exactClusterSize_lt hpage hp hlt).2
  case total => rfl
  case total_lt => exact (Nat.div_mul_le_self _ _).trans_lt (u32_lt _)
  case mem => rfl
  case empty => exact fun x ↦ rfl

section

variable (hpool : pool.Blank)

include hpool

/-- The clusters of `t` objects cover these only if they are whole and their size does not wrap. -/
theorem objEnd_le_iff {t : ℕ} (ht : 1 ≤ t) :
    (∀ x < t, objEnd pool x ≤ u32 (t / pool.clstNEntries * pool.clstSize : ℕ)) ↔
      pool.clstNEntries ∣ t ∧ t / pool.clstNEntries * pool.clstSize < 2 ^ 32 := by
  have hk := hpool.entries_pos
  have hfits := hpool.fits
  have hslack := hpool.slack
  constructor
  · intro hcovers
    have hlast := hcovers (t - 1) (by omega)
    rw [objEnd] at hlast
    have hdvd : pool.clstNEntries ∣ t := by
      by_contra hnot
      have hsame : (t - 1) / pool.clstNEntries = t / pool.clstNEntries := by
        have hdiv := Nat.succ_div_of_not_dvd (a := t - 1) (by rwa [Nat.sub_add_cancel ht])
        rwa [Nat.sub_add_cancel ht, eq_comm] at hdiv
      have hobj : pool.objSize ≠ 0 := by
        intro hzero
        rw [hpool.entries_one hzero] at hnot
        exact hnot (Nat.one_dvd t)
      have hpos : 0 < ((t - 1) % pool.clstNEntries + 1) * pool.objSize :=
        Nat.mul_pos (Nat.succ_pos _) (Nat.pos_of_ne_zero hobj)
      have hwrap : u32 (t / pool.clstNEntries * pool.clstSize : ℕ) ≤
          t / pool.clstNEntries * pool.clstSize := by
        unfold u32
        omega
      rw [hsame] at hlast
      omega
    refine ⟨hdvd, ?_⟩
    obtain ⟨q, rfl⟩ := hdvd
    have hq : 1 ≤ q := Nat.pos_of_mul_pos_left ht
    obtain ⟨q, rfl⟩ := Nat.exists_eq_add_of_le' hq
    have hindex : pool.clstNEntries * (q + 1) - 1 =
        q * pool.clstNEntries + (pool.clstNEntries - 1) := by
      rw [Nat.mul_succ, Nat.mul_comm]
      omega
    have hdiv : (pool.clstNEntries * (q + 1) - 1) / pool.clstNEntries = q := by
      rw [hindex, Nat.mul_comm q, Nat.mul_add_div hk, Nat.div_eq_of_lt (by omega), Nat.add_zero]
    have hmod : (pool.clstNEntries * (q + 1) - 1) % pool.clstNEntries + 1 =
        pool.clstNEntries := by
      rw [hindex, Nat.mul_comm q, Nat.mul_add_mod, Nat.mod_eq_of_lt (by omega)]
      omega
    rw [hdiv, hmod] at hlast
    rw [Nat.mul_div_cancel_left _ hk] at hlast ⊢
    by_contra hbig
    unfold u32 at hlast
    rw [Nat.add_mul, Nat.one_mul] at hlast hbig
    omega
  · rintro ⟨⟨q, rfl⟩, hsize⟩ x hx
    rw [Nat.mul_div_cancel_left _ hk] at hsize ⊢
    rw [u32_natCast hsize, objEnd]
    have hdiv : x / pool.clstNEntries + 1 ≤ q := Nat.div_lt_of_lt_mul hx
    have hmod : x % pool.clstNEntries + 1 ≤ pool.clstNEntries := Nat.mod_lt x hk
    calc
      _ ≤ x / pool.clstNEntries * pool.clstSize + pool.clstSize :=
        Nat.add_le_add_left ((Nat.mul_le_mul_right _ hmod).trans hfits) _
      _ = (x / pool.clstNEntries + 1) * pool.clstSize := by rw [Nat.add_mul, Nat.one_mul]
      _ ≤ q * pool.clstSize := Nat.mul_le_mul_right _ hdiv

theorem clustersGot_full (hpages : ∀ c < pool.numClusters, getFreePages c ≠ 0) :
    clustersGot getFreePages pool = pool.numClusters :=
  clustersGot_all hpool.entries_pos hpool.total hpages

theorem clustersGot_failure (hm : m < pool.numClusters) (hfail : FirstFailure getFreePages m) :
    clustersGot getFreePages pool = m :=
  clustersGot_first hpool.entries_pos hpool.total hm hfail.1 hfail.2

end

theorem FirstFailure.unique {m' : ℕ} (h : FirstFailure getFreePages m)
    (h' : FirstFailure getFreePages m') : m = m' := by
  rcases lt_trichotomy m m' with hlt | heq | hlt
  · exact absurd h.1 (h'.2 m hlt)
  · exact heq
  · exact absurd h'.1 (h.2 m' hlt)

theorem failure_or_pages (getFreePages : ℕ → ℕ) (n : ℕ) :
    (∀ c < n, getFreePages c ≠ 0) ∨ ∃ m < n, FirstFailure getFreePages m := by
  by_cases hall : ∀ c < n, getFreePages c ≠ 0
  · exact .inl hall
  · push Not at hall
    have hex : ∃ c, getFreePages c = 0 := ⟨_, hall.choose_spec.2⟩
    refine .inr ⟨Nat.find hex, ?_, Nat.find_spec hex, fun c hc ↦ Nat.find_min hex hc⟩
    exact (Nat.find_min' hex hall.choose_spec.2).trans_lt hall.choose_spec.1

theorem bit_reserved (b : ℕ → BitVec 32) (x : ℕ) :
    bit (update b 0 (~~~3#32)) x = if x / 32 = 0 then decide (2 ≤ x) else bit b x := by
  have hlow : ∀ y < 32, (~~~3#32).getLsbD y = decide (2 ≤ y) := by decide
  rw [bit_update]
  refine if_ctx_congr Iff.rfl (fun hword ↦ ?_) fun _ ↦ rfl
  rw [hlow _ (Nat.mod_lt x (by decide)), Nat.mod_eq_of_lt (by omega)]

theorem vaddr_free (pageSize : ℕ) (hk : 0 < pool.clstNEntries) {l : List ℕ}
    (hl : ∀ c ∈ l, c < m) :
    (l.map fun c ↦ freedPages pageSize (pool.filled getFreePages virtToPhys m)
      (c * pool.clstNEntries)).map (·.vaddr) = l.map getFreePages := by
  rw [List.map_map]
  exact List.map_congr_left fun c hc ↦ filled_base hk (hl c hc)

theorem subperm_of_missing {l : List ℕ} (hnodup : l.Nodup) (hl : ∀ c ∈ l, c < m) (hc : c < m)
    (hnot : c ∉ l) : (c :: l).Subperm (List.range m) := by
  refine List.subperm_of_subset (List.nodup_cons.2 ⟨hnot, hnodup⟩) fun x hx ↦ ?_
  rcases List.mem_cons.1 hx with rfl | hx
  · exact List.mem_range.2 hc
  · exact List.mem_range.2 (hl x hx)

theorem held_of_not_freed {l : List ℕ}
    (hgot : (got ops).map (·.vaddr) = (List.range m).map getFreePages)
    (hfreed : (freed ops).map (·.vaddr) = l.map getFreePages) (hnodup : l.Nodup)
    (hl : ∀ c ∈ l, c < m) (hc : c < m) (hnot : c ∉ l) : Held ops (getFreePages c) := by
  obtain ⟨l', hperm, hsub⟩ := subperm_of_missing hnodup hl hc hnot
  have hcount := (hsub.map getFreePages).count_le (getFreePages c)
  rw [(hperm.map getFreePages).count_eq, List.map_cons, List.count_cons_self] at hcount
  rw [Held, hgot, hfreed]
  exact hcount

variable (virtToPhys ops) in
/-- A pool with `t` of the objects of its first `m` clusters, of which none below `t` is freed. -/
theorem serves_iff_whole (hpool : pool.Blank) {l : List ℕ} {t : ℕ}
    (hpages : ∀ c < m, getFreePages c ≠ 0)
    (hgot : (got ops).map (·.vaddr) = (List.range m).map getFreePages)
    (hfreed : (freed ops).map (·.vaddr) = l.map getFreePages) (hnodup : l.Nodup)
    (hl : ∀ c ∈ l, c < m ∧ t ≤ c * pool.clstNEntries) (ht : 2 ≤ t) (ht' : t < 2 ^ 32)
    (htm : t ≤ m * pool.clstNEntries) (hfree : w.objFree = u32 ((t : ℤ) - 2))
    (hbits : ∀ x, 2 ≤ x → x < t → bit w.bitmap x = true) :
    Serves ops ((pool.filled getFreePages virtToPhys m).cut t) w ↔
      pool.clstNEntries ∣ t ∧ t / pool.clstNEntries * pool.clstSize < 2 ^ 32 := by
  have hk := hpool.entries_pos
  have hitem : ∀ x < t, (((pool.filled getFreePages virtToPhys m).cut t).addrTbl x).vaddr =
      getFreePages (x / pool.clstNEntries) + x % pool.clstNEntries * pool.objSize := by
    intro x hx
    simp only [DpaObjPool.cut, DpaObjPool.filled, if_pos (hx.trans_le htm), clusterItem]
  have hcluster : ∀ x < t, x / pool.clstNEntries < m :=
    fun x hx ↦ Nat.div_lt_of_lt_mul (Nat.mul_comm _ _ ▸ hx.trans_le htm)
  rw [← objEnd_le_iff hpool (by omega : 1 ≤ t)]
  constructor
  · exact fun hserves ↦ hserves.mapped
  · intro hmapped
    constructor
    case two_le => exact ht
    case vaddr =>
      intro x hx
      have hne := hpages _ (hcluster x hx)
      have hx' := hitem x hx
      omega
    case cluster =>
      intro x (hx : x < t)
      have hx' := hitem x hx
      refine ⟨getFreePages (x / pool.clstNEntries), ?_, by omega, ?_⟩
      · refine held_of_not_freed hgot hfreed hnodup (fun c hc ↦ (hl c hc).1) (hcluster x hx) ?_
        intro hmem
        have hfirst := Nat.div_mul_le_self x pool.clstNEntries
        have := (hl _ hmem).2
        omega
      · have hmod := Nat.mul_le_mul_right pool.objSize (Nat.mod_lt x hk)
        rw [Nat.succ_mul] at hmod
        show _ + pool.objSize ≤ getFreePages (x / pool.clstNEntries) + pool.clstSize
        exact (by omega : _ ≤ getFreePages (x / pool.clstNEntries) +
          pool.clstNEntries * pool.objSize).trans (Nat.add_le_add_left hpool.fits _)
    case count =>
      have hcard : (bits 2 t w.bitmap).card = t - 2 := card_bits hbits
      rw [hfree, u32_of_mem (by omega) (by omega)]
      exact (Int.toNat_sub t 2).trans hcard.symm
    case mapped => exact hmapped

section

variable (hpool : (emptyPool pageSize objTotal objSize).Blank) (hlt : objSize < clusterMaxSize)

include hpool hlt

variable (virtToPhys) in
theorem newObjAllocator_full
    (hpages : ∀ c < (emptyPool pageSize objTotal objSize).numClusters, getFreePages c ≠ 0) :
    let pool := emptyPool pageSize objTotal objSize
    (dpaNewObjAllocatorOps getFreePages virtToPhys pageSize objTotal objSize =
      (List.range pool.numClusters).map fun c ↦
        .get (gotPages pageSize pool.clstSize (getFreePages c))) ∧
    ∃ w : PoolWords, dpaNewObjAllocator getFreePages virtToPhys pageSize objTotal objSize =
        some ((pool.filled getFreePages virtToPhys pool.numClusters).cut pool.objTotal, w) ∧
      w.objFree = u32 ((pool.objTotal : ℤ) - 2) ∧
      ∀ x, 2 ≤ x → x < pool.objTotal → bit w.bitmap x = true := by
  intro pool
  have hk := hpool.entries_pos
  have hgot := clustersGot_full hpool hpages
  have hall : pool.objTotal ≤ pool.numClusters * pool.clstNEntries := hpool.total.le
  refine ⟨?_, ⟨u32 ((pool.objTotal : ℤ) - 2),
    update ((List.range' 0 (pool.numClusters * pool.clstNEntries)).foldl setBit fun _ ↦ 0) 0
      (~~~3#32)⟩, ?_, rfl, ?_⟩
  · rw [dpaNewObjAllocatorOps, if_neg (not_le.2 hlt)]
    simp only
    rw [clusterOps_result hk, hgot]
    dsimp only
    rw [if_pos hall, List.append_nil]
  · rw [dpaNewObjAllocator, if_neg (not_le.2 hlt)]
    simp only
    rw [clustersLoop_result hk, hgot]
    have hdiv : pool.objTotal / pool.clstNEntries = pool.numClusters := by
      rw [hpool.total]
      exact Nat.mul_div_cancel _ hk
    have hfull : (pool.filled getFreePages virtToPhys pool.numClusters).cut pool.objTotal =
        pool.filled getFreePages virtToPhys pool.numClusters := cut_self hdiv hpool.mem
    simp only
    rw [if_pos hall, hfull]
    rfl
  · intro x hx hx'
    rw [bit_reserved, bit_foldl_setBit (by decide)]
    have hmem : x ∈ List.range' 0 (pool.numClusters * pool.clstNEntries) :=
      List.mem_range'_1.2 ⟨Nat.zero_le x, by omega⟩
    rw [decide_eq_true hx, decide_eq_true hmem, Bool.or_true, ite_self]

variable (virtToPhys) in
theorem newObjAllocator_failure (hm : m < (emptyPool pageSize objTotal objSize).numClusters)
    (hfail : FirstFailure getFreePages m) :
    let pool := emptyPool pageSize objTotal objSize
    let lim := m * pool.clstNEntries / 2
    (dpaNewObjAllocatorOps getFreePages virtToPhys pageSize objTotal objSize =
      ((List.range m).map fun c ↦ .get (gotPages pageSize pool.clstSize (getFreePages c))) ++
        rollBackOps pageSize (pool.filled getFreePages virtToPhys m) (m * pool.clstNEntries)) ∧
    ∃ w : PoolWords, dpaNewObjAllocator getFreePages virtToPhys pageSize objTotal objSize =
        some ((pool.filled getFreePages virtToPhys m).cut (u32 ((lim : ℤ) - 1)), w) ∧
      w.objFree = u32 ((u32 ((lim : ℤ) - 1) : ℤ) - 2) ∧
      ∀ x, 2 ≤ x → x + 1 < lim → bit w.bitmap x = true := by
  intro pool lim
  have hk := hpool.entries_pos
  have hgot := clustersGot_failure hpool hm hfail
  have hlt' : m * pool.clstNEntries < pool.objTotal := by
    rw [hpool.total]
    exact Nat.mul_lt_mul_of_pos_right hm hk
  refine ⟨?_, ⟨u32 ((u32 ((lim : ℤ) - 1) : ℤ) - 2),
    update ((List.range' lim (m * pool.clstNEntries + 1 - lim)).foldl clearBit
      ((List.range' 0 (m * pool.clstNEntries)).foldl setBit fun _ ↦ 0)) 0 (~~~3#32)⟩, ?_, rfl, ?_⟩
  · rw [dpaNewObjAllocatorOps, if_neg (not_le.2 hlt)]
    simp only
    rw [clusterOps_result hk, hgot]
    dsimp only
    rw [if_neg (not_le.2 hlt')]
  · rw [dpaNewObjAllocator, if_neg (not_le.2 hlt)]
    simp only
    rw [clustersLoop_result hk, hgot]
    simp only
    rw [if_neg (not_le.2 hlt'), rollBack_fst]
    rfl
  · intro x hx hx'
    rw [bit_reserved, bit_foldl_clearBit (by decide), bit_foldl_setBit (by decide)]
    have hmem : x ∈ List.range' 0 (m * pool.clstNEntries) :=
      List.mem_range'_1.2 ⟨Nat.zero_le x, by omega⟩
    have hout : x ∉ List.range' lim (m * pool.clstNEntries + 1 - lim) := by
      rw [List.mem_range'_1]
      omega
    rw [decide_eq_true hx, decide_eq_true hmem, decide_eq_true hout, Bool.or_true, Bool.and_true,
      ite_self]

def AllocatorServes (getFreePages virtToPhys : ℕ → ℕ) (pageSize objTotal objSize : ℕ) : Prop :=
  ∀ r, dpaNewObjAllocator getFreePages virtToPhys pageSize objTotal objSize = some r →
    Serves (dpaNewObjAllocatorOps getFreePages virtToPhys pageSize objTotal objSize) r.1 r.2

variable (virtToPhys) in
theorem full_serves_iff
    (hpages : ∀ c < (emptyPool pageSize objTotal objSize).numClusters, getFreePages c ≠ 0) :
    let pool := emptyPool pageSize objTotal objSize
    AllocatorServes getFreePages virtToPhys pageSize objTotal objSize ↔
      2 ≤ pool.objTotal ∧ pool.numClusters * pool.clstSize < 2 ^ 32 := by
  intro pool
  obtain ⟨hops, w, hnew, hfree, hbits⟩ :=
    newObjAllocator_full virtToPhys hpool hlt hpages
  have hserves : AllocatorServes getFreePages virtToPhys pageSize objTotal objSize ↔
      Serves (dpaNewObjAllocatorOps getFreePages virtToPhys pageSize objTotal objSize)
        ((pool.filled getFreePages virtToPhys pool.numClusters).cut pool.objTotal) w := by
    constructor
    · exact fun h ↦ h _ hnew
    · intro h r hr
      obtain rfl := Option.some.inj (hnew.symm.trans hr)
      exact h
  have hdiv : pool.objTotal / pool.clstNEntries = pool.numClusters := by
    rw [hpool.total]
    exact Nat.mul_div_cancel _ hpool.entries_pos
  rw [hserves]
  by_cases htwo : 2 ≤ pool.objTotal
  · have hwhole := serves_iff_whole virtToPhys
      (dpaNewObjAllocatorOps getFreePages virtToPhys pageSize objTotal objSize) (l := [])
      hpool hpages (by rw [hops, got_map_get, List.map_map]; rfl)
      (by rw [hops, freed_map_get]; rfl) List.nodup_nil (by simp) htwo hpool.total_lt
      hpool.total.le hfree hbits
    rw [hwhole, hdiv]
    exact and_congr_left fun _ ↦ iff_of_true ⟨pool.numClusters, hpool.total.trans (Nat.mul_comm _ _)⟩
      htwo
  · exact iff_of_false (fun h ↦ htwo h.two_le) fun h ↦ htwo h.1

variable (virtToPhys) in
theorem failure_serves_iff (hm : m < (emptyPool pageSize objTotal objSize).numClusters)
    (hfail : FirstFailure getFreePages m) :
    let pool := emptyPool pageSize objTotal objSize
    let lim := m * pool.clstNEntries / 2
    AllocatorServes getFreePages virtToPhys pageSize objTotal objSize ↔
      3 ≤ lim ∧ pool.clstNEntries ∣ lim - 1 ∧
        (lim - 1) / pool.clstNEntries * pool.clstSize < 2 ^ 32 := by
  intro pool lim
  have hk := hpool.entries_pos
  obtain ⟨hops, w, hnew, hfree, hbits⟩ :=
    newObjAllocator_failure virtToPhys hpool hlt hm hfail
  obtain ⟨l, hnodup, hl, hfreed⟩ :=
    freed_rollBackOps virtToPhys hk hpool.empty pageSize hfail.2
  have hserves : ∀ P : Prop, (Serves
      (dpaNewObjAllocatorOps getFreePages virtToPhys pageSize objTotal objSize)
      ((pool.filled getFreePages virtToPhys m).cut (u32 ((lim : ℤ) - 1))) w ↔ P) →
      (AllocatorServes getFreePages virtToPhys pageSize objTotal objSize ↔ P) := by
    intro P hP
    rw [← hP]
    constructor
    · exact fun h ↦ h _ hnew
    · intro h r hr
      obtain rfl := Option.some.inj (hnew.symm.trans hr)
      exact h
  apply hserves
  have hlim : m * pool.clstNEntries < 2 ^ 32 := by
    have hle := Nat.mul_le_mul_right pool.clstNEntries hm.le
    have htotal := hpool.total
    have hlt' := hpool.total_lt
    exact hle.trans_lt (htotal ▸ hlt')
  rcases Nat.lt_or_ge lim 3 with hsmall | hbig
  · refine iff_of_false ?_ fun h ↦ by omega
    intro h
    have htwo : 2 ≤ u32 ((lim : ℤ) - 1) := h.two_le
    have hzero : lim = 0 := by
      by_contra hne
      rw [u32_of_mem (by omega) (by omega)] at htwo
      omega
    have hone : m * pool.clstNEntries ≤ 1 := by omega
    exact h.vaddr 1 htwo (filled_rest hpool.empty hone)
  · have ht : u32 ((lim : ℤ) - 1) = lim - 1 := by
      rw [u32_of_mem (by omega) (by omega)]
      exact Int.toNat_sub lim 1
    have hhalf : lim - 1 ≤ m * pool.clstNEntries :=
      (Nat.sub_le _ _).trans (Nat.div_le_self _ _)
    rw [ht] at hfree ⊢
    refine (serves_iff_whole virtToPhys _ hpool hfail.2 ?_ ?_ hnodup ?_
      (by omega : 2 ≤ lim - 1) (by omega) hhalf hfree ?_).trans (and_iff_right hbig).symm
    · rw [hops, got_append, got_map_get, got_rollBackOps, List.append_nil, List.map_map]
      rfl
    · rw [hops, freed_append, freed_map_get, List.nil_append, hfreed]
      exact vaddr_free pageSize hk fun c hc ↦ ((hl c).1 hc).1
    · intro c hc
      have hc' := (hl c).1 hc
      exact ⟨hc'.1, (Nat.sub_le _ _).trans hc'.2⟩
    · exact fun x hx hx' ↦ hbits x hx (show x + 1 < lim by omega)

end

/-- A pool serves its users exactly if its size does not wrap and, where pages ran out, few objects
share a cluster and the roll-back ends between clusters. -/
theorem allocator_serves_iff (hpage : pageSize = 2 ^ p) (hp : p ≤ 31) :
    let k := clusterEntries pageSize (alignUp objSize cacheLine)
    let size := exactClusterSize pageSize objSize
    let n := clustersWanted pageSize objTotal objSize
    AllocatorServes getFreePages virtToPhys pageSize objTotal objSize ↔
      clusterMaxSize ≤ objSize ∨
      ((∀ c < n, getFreePages c ≠ 0) ∧ 2 ≤ n * k ∧ n * size < 2 ^ 32) ∨
      ∃ m < n, FirstFailure getFreePages m ∧
        (k = 1 ∧ 6 ≤ m ∨ (k = 2 ∨ k = 3) ∧ Odd m ∧ 3 ≤ m) ∧
        (m * k / 2 - 1) / k * size < 2 ^ 32 := by
  intro k size n
  rcases Nat.lt_or_ge objSize clusterMaxSize with hlt | hbig
  · have hpool := emptyPool_blank hpage hp hlt objTotal
    have hsizes := emptyPool_sizes objTotal hpage hp hlt
    have hk : (emptyPool pageSize objTotal objSize).clstNEntries = k :=
      congrArg DpaObjPool.clstNEntries hsizes
    have hsize : (emptyPool pageSize objTotal objSize).clstSize = size :=
      congrArg DpaObjPool.clstSize hsizes
    have hn : (emptyPool pageSize objTotal objSize).numClusters = n :=
      congrArg DpaObjPool.numClusters hsizes
    have htotal : (emptyPool pageSize objTotal objSize).objTotal = n * k :=
      congrArg DpaObjPool.objTotal hsizes
    rw [or_iff_right (not_le.2 hlt)]
    rcases failure_or_pages getFreePages n with hpages | ⟨m, hm, hfail⟩
    · have hfull := full_serves_iff virtToPhys hpool hlt (hn ▸ hpages)
      dsimp only at hfull
      rw [hn, hsize, htotal] at hfull
      rw [hfull, and_iff_right hpages]
      refine (or_iff_left ?_).symm
      rintro ⟨m, hm, hfail, -⟩
      exact hpages m hm hfail.1
    · have hdegraded := failure_serves_iff virtToPhys hpool hlt (hn ▸ hm) hfail
      dsimp only at hdegraded
      rw [hk, hsize] at hdegraded
      rw [hdegraded, or_iff_right fun h ↦ h.1 m hm hfail.1]
      constructor
      · rintro ⟨hlim, hdvd, hwrap⟩
        refine ⟨m, hm, hfail, ?_, hwrap⟩
        rcases (dvd_half_sub_one (by omega)).1 hdvd with hone | ⟨hfew, hodd⟩
        · rw [hone] at hlim
          exact .inl ⟨hone, by omega⟩
        · refine .inr ⟨hfew, hodd, ?_⟩
          obtain ⟨t, rfl⟩ := hodd
          rcases hfew with h | h
          · rw [h] at hlim
            omega
          · rw [h] at hlim
            omega
      · rintro ⟨m', hm', hfail', hfew, hwrap⟩
        obtain rfl := hfail'.unique hfail
        have hlim : 3 ≤ m' * k / 2 := by
          rcases hfew with ⟨h, hle⟩ | ⟨h | h, -, hle⟩
          · rw [h]
            omega
          · rw [h]
            omega
          · rw [h]
            omega
        refine ⟨hlim, (dvd_half_sub_one (by omega)).2 ?_, hwrap⟩
        exact hfew.imp And.left fun h ↦ ⟨h.1, h.2.1⟩
  · refine iff_of_true ?_ (.inl hbig)
    intro r hr
    rw [dpaNewObjAllocator, if_pos hbig] at hr
    exact absurd hr (Option.some_ne_none r).symm

theorem allocator_serves_iff_ninePages :
    AllocatorServes (fun c ↦ (c + 1) * 65536) id 4096 4 36864 := by
  have hpages : ∀ c < clustersWanted 4096 4 36864, (c + 1) * 65536 ≠ 0 :=
    fun c _ ↦ Nat.mul_ne_zero (Nat.succ_ne_zero c) (by decide)
  exact (allocator_serves_iff (p := 12) rfl (by decide)).2
    (.inr (.inl ⟨hpages, by decide +kernel, by decide +kernel⟩))

/-- Pages run out at the second cluster of 64 objects: the pool keeps 31 objects in no cluster. -/
theorem secondCluster_not_serves :
    ¬∀ (getFreePages virtToPhys : ℕ → ℕ) (objTotal objSize : ℕ),
      AllocatorServes getFreePages virtToPhys 4096 objTotal objSize := by
  intro hall
  have hserves := hall (fun c ↦ if c = 0 then 65536 else 0) id 100 64
  have hpool : (emptyPool 4096 100 64).Blank :=
    emptyPool_blank (p := 12) rfl (by decide) (by decide) 100
  have hfail : FirstFailure (fun c ↦ if c = 0 then 65536 else 0) 1 :=
    ⟨rfl, fun c hc ↦ by rw [Nat.lt_one_iff.1 hc]; decide⟩
  have hcond := (failure_serves_iff id hpool (by decide) (by decide +kernel) hfail).1 hserves
  have hdvd : ¬(emptyPool 4096 100 64).clstNEntries ∣
      1 * (emptyPool 4096 100 64).clstNEntries / 2 - 1 := by decide +kernel
  exact hdvd hcond.2.1

end Dpa.Kernel
