import Dpa.Kernel.PoolDegraded

namespace Dpa.Kernel

open Function MachineWord

variable {k c m n p q : ℕ} {pageSize objTotal objSize : ℕ} {getFreePages virtToPhys : ℕ → ℕ}
  {pool : DpaObjPool} {ops : List PageOp}

/-- What happens to pages from `dpa_new_obj_allocator` to `dpa_destroy_obj_allocator`. -/
def poolLife (getFreePages virtToPhys : ℕ → ℕ) (pageSize objTotal objSize : ℕ) : List PageOp :=
  dpaNewObjAllocatorOps getFreePages virtToPhys pageSize objTotal objSize ++
    match dpaNewObjAllocator getFreePages virtToPhys pageSize objTotal objSize with
    | some r => dpaDestroyObjAllocatorOps pageSize r.1
    | none => []

/-- Everything that was got is freed once, as it was got. -/
def PagesBalanced (ops : List PageOp) : Prop := (freed ops).Perm (got ops)

theorem clog_mul_two_pow (hq : 0 < q) : Nat.clog 2 (q * 2 ^ p) = Nat.clog 2 q + p := by
  apply le_antisymm
  · refine Nat.clog_le_of_le_pow ?_
    rw [Nat.pow_add]
    exact Nat.mul_le_mul_right _ (Nat.le_pow_clog Nat.one_lt_two q)
  · have hbig := Nat.le_pow_clog Nat.one_lt_two (q * 2 ^ p)
    have hp : p ≤ Nat.clog 2 (q * 2 ^ p) := by
      refine (Nat.pow_le_pow_iff_right Nat.one_lt_two).1 (le_trans ?_ hbig)
      exact Nat.le_mul_of_pos_left _ hq
    have hsmall : q ≤ 2 ^ (Nat.clog 2 (q * 2 ^ p) - p) := by
      refine Nat.le_of_mul_le_mul_right ?_ (Nat.two_pow_pos p)
      rwa [← Nat.pow_add, Nat.sub_add_cancel hp]
    have := Nat.clog_le_of_le_pow hsmall
    omega

/-- Rounding up the bytes gives the same order as rounding up the pages. -/
theorem ilog2_roundupPowOfTwo (hq : 0 < q) :
    ilog2 (roundupPowOfTwo (q * 2 ^ p) / 2 ^ p) = ilog2 (roundupPowOfTwo (q * 2 ^ p / 2 ^ p)) := by
  unfold roundupPowOfTwo
  rw [clog_mul_two_pow hq, Nat.pow_add, Nat.mul_div_cancel _ (Nat.two_pow_pos p),
    Nat.mul_div_cancel _ (Nat.two_pow_pos p)]

theorem freedPages_eq (hpage : pageSize = 2 ^ p) (hk : 0 < pool.clstNEntries)
    (hpos : 0 < pool.clstSize) (hdvd : pageSize ∣ pool.clstSize) (hc : c < m) :
    freedPages pageSize (pool.filled getFreePages virtToPhys m) (c * pool.clstNEntries) =
      gotPages pageSize pool.clstSize (getFreePages c) := by
  obtain ⟨q, hq⟩ := hdvd
  have hq0 : 0 < q := by
    rw [hq] at hpos
    exact Nat.pos_of_mul_pos_left hpos
  have horder : ilog2 (roundupPowOfTwo pool.clstSize / pageSize) =
      ilog2 (roundupPowOfTwo (pool.clstSize / pageSize)) := by
    rw [hq, hpage, Nat.mul_comm]
    exact ilog2_roundupPowOfTwo hq0
  have hbase : ((pool.filled getFreePages virtToPhys m).addrTbl (c * pool.clstNEntries)).vaddr =
      getFreePages c := filled_base hk hc
  rw [freedPages, gotPages, hbase]
  exact congrArg (fun o ↦ ClusterPages.mk _ o _) horder

section

variable (g : ℕ → ClusterPages) {l : List ℕ} (hgot : got ops = (List.range m).map g)
  (hfreed : freed ops = l.map g)

include hgot hfreed

theorem balanced_of_each (hnodup : l.Nodup) (hl : ∀ c, c ∈ l ↔ c < m) : PagesBalanced ops := by
  have hperm : l.Perm (List.range m) := by
    rw [List.perm_ext_iff_of_nodup hnodup List.nodup_range]
    intro c
    rw [hl, List.mem_range]
  rw [PagesBalanced, hgot, hfreed]
  exact hperm.map g

theorem length_of_balanced (h : PagesBalanced ops) : l.length = m := by
  have hlen := h.length_eq
  rwa [hgot, hfreed, List.length_map, List.length_map, List.length_range] at hlen

theorem not_balanced_of_missing (hnodup : l.Nodup) (hl : ∀ c ∈ l, c < m) (hc : c < m)
    (hnot : c ∉ l) : ¬PagesBalanced ops := by
  intro h
  have hle := (subperm_of_missing hnodup hl hc hnot).length_le
  rw [List.length_cons, List.length_range, length_of_balanced g hgot hfreed h] at hle
  omega

end

section

variable (hpool : (emptyPool pageSize objTotal objSize).Blank) (hlt : objSize < clusterMaxSize)
  (hpage : pageSize = 2 ^ p) (hpos : 0 < (emptyPool pageSize objTotal objSize).clstSize)
  (hdvd : pageSize ∣ (emptyPool pageSize objTotal objSize).clstSize)

include hpool hlt hpage hpos hdvd

theorem full_balanced
    (hpages : ∀ c < (emptyPool pageSize objTotal objSize).numClusters, getFreePages c ≠ 0) :
    PagesBalanced (poolLife getFreePages virtToPhys pageSize objTotal objSize) := by
  have hk := hpool.entries_pos
  obtain ⟨hops, w, hnew, -⟩ := newObjAllocator_full virtToPhys hpool hlt hpages
  obtain ⟨l, hnodup, hl, hfreed⟩ := freed_destroyOps virtToPhys hk hpool.empty
    pageSize (emptyPool pageSize objTotal objSize).objTotal hpages
  refine balanced_of_each (m := (emptyPool pageSize objTotal objSize).numClusters)
    (fun c ↦ gotPages pageSize (emptyPool pageSize objTotal objSize).clstSize (getFreePages c))
    ?_ ?_ hnodup ?_
  · rw [poolLife, got_append, hops, hnew, got_map_get]
    dsimp only
    rw [got_destroyOps, List.append_nil]
  · rw [poolLife, freed_append, hops, hnew, freed_map_get, List.nil_append]
    refine hfreed.trans (List.map_congr_left fun c hc ↦ ?_)
    exact freedPages_eq hpage hk hpos hdvd ((hl c).1 hc).1
  · intro c
    rw [hl]
    refine and_iff_left_of_imp fun hc ↦ ?_
    exact hpool.total ▸ Nat.mul_lt_mul_of_pos_right hc hk

variable (virtToPhys) in
/-- The cluster that the roll-back spares and the destructor does not reach starts one below half
of the failing index. -/
theorem failure_balanced_iff (hm : m < (emptyPool pageSize objTotal objSize).numClusters)
    (hfail : FirstFailure getFreePages m) (hfirst : getFreePages 0 ≠ 0) :
    let pool := emptyPool pageSize objTotal objSize
    let lim := m * pool.clstNEntries / 2
    PagesBalanced (poolLife getFreePages virtToPhys pageSize objTotal objSize) ↔
      1 ≤ lim ∧ ¬pool.clstNEntries ∣ lim - 1 := by
  intro pool lim
  have hk : 0 < pool.clstNEntries := hpool.entries_pos
  have hm0 : 0 < m := by
    refine Nat.pos_of_ne_zero ?_
    rintro rfl
    exact hfirst hfail.1
  obtain ⟨hops, w, hnew, -⟩ :=
    newObjAllocator_failure virtToPhys hpool hlt hm hfail
  obtain ⟨r, hrnodup, hr, hrfreed⟩ :=
    freed_rollBackOps virtToPhys hk hpool.empty pageSize hfail.2
  obtain ⟨d, hdnodup, hd, hdfreed⟩ := freed_destroyOps virtToPhys hk hpool.empty
    pageSize (u32 ((lim : ℤ) - 1)) hfail.2
  have hgot : got (poolLife getFreePages virtToPhys pageSize objTotal objSize) =
      (List.range m).map fun c ↦ gotPages pageSize pool.clstSize (getFreePages c) := by
    rw [poolLife, got_append, hops, hnew, got_append, got_map_get, got_rollBackOps]
    dsimp only
    rw [got_destroyOps, List.append_nil, List.append_nil]
  have hfreed : freed (poolLife getFreePages virtToPhys pageSize objTotal objSize) =
      (r ++ d).map fun c ↦ gotPages pageSize pool.clstSize (getFreePages c) := by
    rw [poolLife, freed_append, hops, hnew, freed_append, freed_map_get, List.nil_append,
      List.map_append]
    refine congrArg₂ _ (hrfreed.trans ?_) (hdfreed.trans ?_)
    · exact List.map_congr_left fun c hc ↦ freedPages_eq hpage hk hpos hdvd ((hr c).1 hc).1
    · exact List.map_congr_left fun c hc ↦ freedPages_eq hpage hk hpos hdvd ((hd c).1 hc).1
  have hwrap : m * pool.clstNEntries < 2 ^ 32 := by
    have hle := Nat.mul_le_mul_right pool.clstNEntries hm.le
    exact hle.trans_lt (hpool.total ▸ hpool.total_lt)
  rcases Nat.eq_zero_or_pos lim with hzero | hlim
  · refine iff_of_false ?_ fun h ↦ by omega
    intro h
    have hlen := length_of_balanced _ hgot hfreed h
    have hone : m = 1 := by
      have hle := Nat.le_mul_of_pos_right m hk
      have hsmall : m * pool.clstNEntries / 2 = 0 := hzero
      omega
    have hr0 : 0 ∈ r := (hr 0).2 ⟨hm0, (Nat.zero_mul pool.clstNEntries).symm ▸ hzero.le⟩
    have hd0 : 0 ∈ d := by
      refine (hd 0).2 ⟨hm0, ?_⟩
      rw [hzero, Nat.zero_mul]
      decide
    have hrlen := List.length_pos_of_mem hr0
    have hdlen := List.length_pos_of_mem hd0
    rw [List.length_append] at hlen
    omega
  · have ht : u32 ((lim : ℤ) - 1) = lim - 1 := by
      have hle : lim ≤ m * pool.clstNEntries := Nat.div_le_self _ _
      rw [u32_of_mem (by omega) (by omega)]
      exact Int.toNat_sub lim 1
    rw [ht] at hd
    have hmem : ∀ c, c ∈ r ++ d ↔ c < m ∧ c * pool.clstNEntries ≠ lim - 1 := by
      intro c
      rw [List.mem_append, hr, hd, ← and_or_left]
      refine and_congr_right fun _ ↦ ?_
      show lim ≤ c * pool.clstNEntries ∨ c * pool.clstNEntries < lim - 1 ↔ _
      omega
    have hnodup : (r ++ d).Nodup := by
      refine hrnodup.append hdnodup ?_
      intro c hcr hcd
      have hbelow : c * pool.clstNEntries < lim - 1 := ((hd c).1 hcd).2
      have habove : lim ≤ c * pool.clstNEntries := ((hr c).1 hcr).2
      omega
    rw [and_iff_right (show 1 ≤ lim from hlim)]
    constructor
    · rintro hbalanced ⟨c, hc⟩
      rw [Nat.mul_comm] at hc
      have hcm : c < m := by
        refine Nat.lt_of_mul_lt_mul_right (a := pool.clstNEntries) ?_
        have hle : lim ≤ m * pool.clstNEntries := Nat.div_le_self _ _
        omega
      exact not_balanced_of_missing _ hgot hfreed hnodup (fun c hc ↦ ((hmem c).1 hc).1) hcm
        (fun hmem' ↦ ((hmem c).1 hmem').2 hc.symm) hbalanced
    · intro hndvd
      refine balanced_of_each _ hgot hfreed hnodup fun c ↦ ?_
      rw [hmem]
      exact and_iff_left fun hc ↦ hndvd ⟨c, hc.symm.trans (Nat.mul_comm _ _)⟩

end

/-- Every cluster is freed once, whether or not pages run out, exactly if at least four objects
share a cluster, or at least two and an even number of clusters was got. -/
theorem poolLife_balanced_iff (hpage : pageSize = 2 ^ p) (hp : p ≤ 31) (hpos : 0 < objSize)
    (hlt : objSize < clusterMaxSize) (hfirst : getFreePages 0 ≠ 0) :
    let k := clusterEntries pageSize (alignUp objSize cacheLine)
    let n := clustersWanted pageSize objTotal objSize
    PagesBalanced (poolLife getFreePages virtToPhys pageSize objTotal objSize) ↔
      (∀ c < n, getFreePages c ≠ 0) ∨
      ∃ m < n, FirstFailure getFreePages m ∧ (4 ≤ k ∨ 2 ≤ k ∧ Even m) := by
  intro k n
  have hpool := emptyPool_blank hpage hp hlt objTotal
  have hsizes := emptyPool_sizes objTotal hpage hp hlt
  have hk : (emptyPool pageSize objTotal objSize).clstNEntries = k :=
    congrArg DpaObjPool.clstNEntries hsizes
  have hn : (emptyPool pageSize objTotal objSize).numClusters = n :=
    congrArg DpaObjPool.numClusters hsizes
  have hsize : (emptyPool pageSize objTotal objSize).clstSize =
      exactClusterSize pageSize objSize := congrArg DpaObjPool.clstSize hsizes
  have hdvd : pageSize ∣ (emptyPool pageSize objTotal objSize).clstSize :=
    hsize ▸ dvd_alignUp _ _
  have hsize0 : 0 < (emptyPool pageSize objTotal objSize).clstSize := by
    have hfits := clusterEntries_fits pageSize (alignUp_cacheLine hpos hlt).2
    have hle := entries_le_size objSize (hpage ▸ Nat.two_pow_pos p : 0 < pageSize)
    have hobj := (alignUp_cacheLine hpos hlt).1
    exact hsize ▸ (Nat.mul_pos hfits.1 (by omega)).trans_le hle
  have hk0 : 0 < k := hk ▸ hpool.entries_pos
  rcases failure_or_pages getFreePages n with hpages | ⟨m, hm, hfail⟩
  · exact iff_of_true (full_balanced hpool hlt hpage hsize0 hdvd (hn ▸ hpages)) (.inl hpages)
  · have hdegraded := failure_balanced_iff virtToPhys hpool hlt hpage hsize0 hdvd
      (hn ▸ hm) hfail hfirst
    dsimp only at hdegraded
    rw [hk] at hdegraded
    have hm0 : 0 < m := by
      refine Nat.pos_of_ne_zero ?_
      rintro rfl
      exact hfirst hfail.1
    have hcond : (1 ≤ m * k / 2 ∧ ¬k ∣ m * k / 2 - 1) ↔ 4 ≤ k ∨ 2 ≤ k ∧ Even m := by
      constructor
      · rintro ⟨hlim, hnot⟩
        rw [dvd_half_sub_one hlim, not_or, not_and_or, Nat.not_odd_iff_even] at hnot
        rcases hnot with ⟨hone, hfew | heven⟩
        · omega
        · exact .inr ⟨by omega, heven⟩
      · intro h
        have htwo : 2 ≤ k := by omega
        have hle := Nat.mul_le_mul hm0 htwo
        have hlim : 1 ≤ m * k / 2 := by omega
        refine ⟨hlim, ?_⟩
        rw [dvd_half_sub_one hlim]
        rintro (hone | ⟨hfew, hodd⟩)
        · omega
        · rcases h with h | ⟨-, heven⟩
          · omega
          · exact Nat.not_odd_iff_even.2 heven hodd
    have hnone : ¬∀ c < n, getFreePages c ≠ 0 := fun h ↦ h m hm hfail.1
    rw [hdegraded, hcond, or_iff_right hnone]
    constructor
    · exact fun h ↦ ⟨m, hm, hfail, h⟩
    · rintro ⟨m', hm', hfail', h⟩
      obtain rfl := hfail'.unique hfail
      exact h

theorem poolLife_balanced_iff_cacheLines :
    PagesBalanced (poolLife (fun c ↦ if c < 1 then 65536 else 0) id 4096 100 64) := by
  have hfail : FirstFailure (fun c ↦ if c < 1 then 65536 else 0) 1 :=
    ⟨rfl, fun c hc ↦ by rw [Nat.lt_one_iff.1 hc]; decide⟩
  exact (poolLife_balanced_iff (p := 12) rfl (by decide) (by decide) (by decide) (by decide)).2
    (.inr ⟨1, by decide +kernel, hfail, .inl (by decide +kernel)⟩)

/-- Pages run out at the fourth object of nine pages: the first one is never freed. -/
theorem ninePages_not_balanced :
    ¬∀ (getFreePages virtToPhys : ℕ → ℕ) (objTotal objSize : ℕ), 0 < objSize →
      objSize < clusterMaxSize → getFreePages 0 ≠ 0 →
        PagesBalanced (poolLife getFreePages virtToPhys 4096 objTotal objSize) := by
  intro hall
  have hbalanced := hall (fun c ↦ if c < 3 then (c + 1) * 65536 else 0) id 4 36864 (by decide)
    (by decide) (by decide)
  have hlen := hbalanced.length_eq
  have hgot : (got (poolLife (fun c ↦ if c < 3 then (c + 1) * 65536 else 0) id 4096 4
      36864)).length = 3 := by decide +kernel
  have hfreed : (freed (poolLife (fun c ↦ if c < 3 then (c + 1) * 65536 else 0) id 4096 4
      36864)).length = 2 := by decide +kernel
  omega

end Dpa.Kernel
