import Dpa.Kernel.PoolSpec

namespace Dpa.Kernel

open Function MachineWord Bitmap Loop

variable {k c n m x : ℕ} {getFreePages virtToPhys : ℕ → ℕ} {pool : DpaObjPool}
  {b : ℕ → BitVec 32}

section

variable (getFreePages virtToPhys : ℕ → ℕ)

def DpaObjPool.withCluster (pool : DpaObjPool) (c : ℕ) : DpaObjPool :=
  let i := c * pool.clstNEntries
  let item := fun x ↦ getFreePages c + (x - i) * pool.objSize
  { pool with
    addrTbl := fun x ↦
      if i ≤ x ∧ x < i + pool.clstNEntries then ⟨item x, virtToPhys (item x)⟩
      else pool.addrTbl x }

end

def clusterItem (getFreePages virtToPhys : ℕ → ℕ) (pool : DpaObjPool) (x : ℕ) : AddrTblItem :=
  let clust := getFreePages (x / pool.clstNEntries)
  let vaddr := clust + x % pool.clstNEntries * pool.objSize
  ⟨vaddr, virtToPhys vaddr⟩

theorem div_mod_of_mem (hx : c * k ≤ x) (hx' : x < (c + 1) * k) : x / k = c ∧ x % k = x - c * k := by
  have hdiv : x / k = c := Nat.div_eq_of_lt_le hx hx'
  refine ⟨hdiv, ?_⟩
  have hmod := Nat.div_add_mod' x k
  rw [hdiv] at hmod
  omega

theorem clustersLoop_succ (fuel c : ℕ) (pool : DpaObjPool) (b : ℕ → BitVec 32)
    (hlt : c * pool.clstNEntries < pool.objTotal) (hpage : getFreePages c ≠ 0) :
    clustersLoop getFreePages virtToPhys (fuel + 1) c pool b =
      clustersLoop getFreePages virtToPhys fuel (c + 1)
        (pool.withCluster getFreePages virtToPhys c)
        ((List.range' (c * pool.clstNEntries) pool.clstNEntries).foldl setBit b) := by
  rw [clustersLoop, if_neg (not_le.2 hlt), if_neg hpage]
  rfl

/-- The number of clusters that are got before the table is full or there are no pages. -/
def clustersGot (getFreePages : ℕ → ℕ) (pool : DpaObjPool) : ℕ :=
  leading (fun c ↦ c * pool.clstNEntries < pool.objTotal ∧ getFreePages c ≠ 0) (pool.objTotal + 1)

section

variable (getFreePages virtToPhys)

def DpaObjPool.filled (pool : DpaObjPool) (m : ℕ) : DpaObjPool :=
  { pool with
    addrTbl := fun x ↦
      if x < m * pool.clstNEntries then clusterItem getFreePages virtToPhys pool x
      else pool.addrTbl x }

end

def DpaObjPool.cut (pool : DpaObjPool) (t : ℕ) : DpaObjPool :=
  { pool with
    objTotal := t
    numClusters := t / pool.clstNEntries
    memTotal := u32 (t / pool.clstNEntries * pool.clstSize : ℕ) }

theorem cut_self (hn : pool.objTotal / pool.clstNEntries = pool.numClusters)
    (hmem : pool.memTotal = u32 (pool.numClusters * pool.clstSize : ℕ)) :
    pool.cut pool.objTotal = pool := by
  rw [DpaObjPool.cut, hn, ← hmem]

theorem rollBack_fst (i : ℕ) (pool : DpaObjPool) (b : ℕ → BitVec 32) :
    (rollBack i pool b).1 = pool.cut (u32 ((i / 2 : ℕ) - 1)) := by
  rw [rollBack, DpaObjPool.cut]
  simp only [Nat.cast_mul]

theorem filled_zero (pool : DpaObjPool) : pool.filled getFreePages virtToPhys 0 = pool := by
  have htable : (fun x ↦ if x < 0 * pool.clstNEntries then
      clusterItem getFreePages virtToPhys pool x else pool.addrTbl x) = pool.addrTbl := by
    funext x
    rw [Nat.zero_mul, if_neg (Nat.not_lt_zero x)]
  rw [DpaObjPool.filled, htable]

theorem filled_succ (pool : DpaObjPool) (m : ℕ) :
    (pool.filled getFreePages virtToPhys m).withCluster getFreePages virtToPhys m =
      pool.filled getFreePages virtToPhys (m + 1) := by
  have hnext : m * pool.clstNEntries + pool.clstNEntries = (m + 1) * pool.clstNEntries := by
    rw [Nat.add_mul, Nat.one_mul]
  unfold DpaObjPool.withCluster DpaObjPool.filled
  simp only [hnext]
  congr 1
  funext x
  by_cases hx : m * pool.clstNEntries ≤ x ∧ x < (m + 1) * pool.clstNEntries
  · obtain ⟨hdiv, hmod⟩ := div_mod_of_mem hx.1 hx.2
    rw [if_pos hx, if_pos hx.2, clusterItem, hdiv, hmod]
  · rw [if_neg hx]
    split_ifs <;> first | rfl | omega

theorem of_lt_clustersGot (h : c < clustersGot getFreePages pool) :
    c * pool.clstNEntries < pool.objTotal ∧ getFreePages c ≠ 0 :=
  of_decide_eq_true (of_lt_leading h)

variable (getFreePages) in
theorem clustersGot_le (hk : 0 < pool.clstNEntries) :
    clustersGot getFreePages pool ≤ pool.objTotal := by
  by_contra hlt
  have hlast := (of_lt_clustersGot (not_le.1 hlt)).1
  have := Nat.le_mul_of_pos_right pool.objTotal hk
  omega

variable (getFreePages) in
theorem clustersGot_stops (hk : 0 < pool.clstNEntries) :
    pool.objTotal ≤ clustersGot getFreePages pool * pool.clstNEntries ∨
      getFreePages (clustersGot getFreePages pool) = 0 := by
  have hstop := leading_fails (Nat.lt_succ_of_le (clustersGot_le getFreePages hk))
  have hstop := of_decide_eq_false hstop
  rw [not_and_or, not_lt, not_not] at hstop
  exact hstop

variable (virtToPhys b) in
theorem clustersLoop_rounds (fuel : ℕ) (hc : c ≤ clustersGot getFreePages pool) :
    clustersLoop getFreePages virtToPhys (c + fuel) 0 pool b =
      clustersLoop getFreePages virtToPhys fuel c (pool.filled getFreePages virtToPhys c)
        ((List.range' 0 (c * pool.clstNEntries)).foldl setBit b) := by
  induction c generalizing fuel with
  | zero =>
    rw [filled_zero, Nat.zero_mul, Nat.zero_add]
    rfl
  | succ c ih =>
    obtain ⟨hlt, hpage⟩ := of_lt_clustersGot hc
    have hbits : (List.range' (c * pool.clstNEntries) pool.clstNEntries).foldl setBit
        ((List.range' 0 (c * pool.clstNEntries)).foldl setBit b) =
        (List.range' 0 ((c + 1) * pool.clstNEntries)).foldl setBit b := by
      rw [Nat.add_mul, Nat.one_mul, ← List.range'_append_1, List.foldl_append, Nat.zero_add]
    rw [Nat.add_right_comm, Nat.add_assoc, ih (fuel + 1) (by omega),
      clustersLoop_succ fuel c (pool.filled getFreePages virtToPhys c) _ hlt hpage, filled_succ]
    exact congrArg _ hbits

/-- Either the table is full in the end, or the pages for a cluster cannot be had. -/
theorem clustersLoop_result (hk : 0 < pool.clstNEntries) :
    clustersLoop getFreePages virtToPhys (pool.objTotal + 1) 0 pool b =
      (let m := clustersGot getFreePages pool
      let full := pool.filled getFreePages virtToPhys m
      let bits := (List.range' 0 (m * pool.clstNEntries)).foldl setBit b
      if pool.objTotal ≤ m * pool.clstNEntries then (full, bits)
      else rollBack (m * pool.clstNEntries) full bits) := by
  have hle := clustersGot_le getFreePages hk
  have hstop := clustersGot_stops getFreePages hk
  have hrun := clustersLoop_rounds virtToPhys b
    (pool.objTotal - clustersGot getFreePages pool + 1) (le_refl (clustersGot getFreePages pool))
  rw [show clustersGot getFreePages pool + (pool.objTotal - clustersGot getFreePages pool + 1) =
    pool.objTotal + 1 by omega] at hrun
  rw [hrun, clustersLoop]
  by_cases hfull : pool.objTotal ≤ clustersGot getFreePages pool * pool.clstNEntries
  · simp only [if_pos hfull]
    exact if_pos hfull
  · simp only [if_neg hfull]
    exact (if_neg hfull).trans (if_pos (hstop.resolve_left hfull))

theorem clustersGot_eq (hk : 0 < pool.clstNEntries)
    (hgot : ∀ c < m, c * pool.clstNEntries < pool.objTotal ∧ getFreePages c ≠ 0)
    (hstop : pool.objTotal ≤ m * pool.clstNEntries ∨ getFreePages m = 0)
    (hm : m * pool.clstNEntries ≤ pool.objTotal) : clustersGot getFreePages pool = m := by
  refine leading_eq ?_ ?_ ?_
  · exact Nat.lt_succ_of_le ((Nat.le_mul_of_pos_right m hk).trans hm)
  · exact fun c hc ↦ decide_eq_true (hgot c hc)
  · refine decide_eq_false ?_
    rintro ⟨hlt, hpage⟩
    rcases hstop with hfull | hnone
    · exact absurd hlt (not_lt.2 hfull)
    · exact hpage hnone

theorem clustersGot_all (hk : 0 < pool.clstNEntries) (htotal : pool.objTotal = n * pool.clstNEntries)
    (hpages : ∀ c < n, getFreePages c ≠ 0) : clustersGot getFreePages pool = n := by
  refine clustersGot_eq hk (fun c hc ↦ ⟨?_, hpages c hc⟩) (Or.inl htotal.le) htotal.ge
  rw [htotal]
  exact Nat.mul_lt_mul_of_pos_right hc hk

/-- With pages for every cluster the loop fills the whole table and sets every bit. -/
theorem clustersLoop_all (virtToPhys : ℕ → ℕ) (b : ℕ → BitVec 32) (hk : 0 < pool.clstNEntries)
    (htotal : pool.objTotal = n * pool.clstNEntries) (hpages : ∀ c < n, getFreePages c ≠ 0) :
    clustersLoop getFreePages virtToPhys (pool.objTotal + 1) 0 pool b =
      (pool.filled getFreePages virtToPhys n,
        (List.range' 0 (n * pool.clstNEntries)).foldl setBit b) := by
  rw [clustersLoop_result hk, clustersGot_all hk htotal hpages]
  exact if_pos htotal.le

theorem clustersGot_first (hk : 0 < pool.clstNEntries)
    (htotal : pool.objTotal = n * pool.clstNEntries) (hm : m < n) (hnone : getFreePages m = 0)
    (hpages : ∀ c < m, getFreePages c ≠ 0) : clustersGot getFreePages pool = m := by
  have hlt : ∀ c ≤ m, c * pool.clstNEntries < pool.objTotal := by
    intro c hc
    rw [htotal]
    exact Nat.mul_lt_mul_of_pos_right (hc.trans_lt hm) hk
  exact clustersGot_eq hk (fun c hc ↦ ⟨hlt c hc.le, hpages c hc⟩) (Or.inr hnone) (hlt m le_rfl).le

end Dpa.Kernel
