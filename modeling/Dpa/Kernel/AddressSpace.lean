import Dpa.Kernel.Host

namespace Dpa.Kernel

open Function Library MachineWord

/-- The physical address behind an address of a user process that has mapped the module at `b`. -/
def userPhys (maps : List Remap) (b u : ℤ) : Option ℕ :=
  (maps.find? fun m ↦ decide (b + m.skip ≤ u ∧ u < b + m.skip + m.size)).map fun m ↦
    m.pfn * pageSize + (u - (b + m.skip)).toNat

/-- The pages of a cluster begin on a page boundary and lie one after another in physical memory. -/
structure DirectMap (getFreePages : PoolId → ℕ → ℕ) (virtToPhys : ℕ → ℕ) (c : Config) : Prop where
  aligned : ∀ q, ∀ n < exactClusters pageSize (c.objNum q) (c.objSize q),
    pageSize ∣ virtToPhys (getFreePages q n)
  linear : ∀ q, ∀ n < exactClusters pageSize (c.objNum q) (c.objSize q),
    ∀ k < exactClusterSize pageSize (c.objSize q),
      virtToPhys (getFreePages q n + k) = virtToPhys (getFreePages q n) + k

def Config.poolOffset (c : Config) : PoolId → ℕ
  | .ifPool => 0
  | .ringPool => c.memory .ifPool
  | .bufPool => c.memory .ifPool + c.memory .ringPool

def Config.userOffset (c : Config) (pools : PoolId → DpaObjPool) (q : PoolId) (x : ℕ) : ℕ :=
  c.poolOffset q + dpaObjOffset (pools q) ((pools q).addrTbl x).vaddr

section

variable {l l₁ l₂ : List (ℕ × ℕ)} {a pfn size t : ℕ} {b : ℤ}

/-- Byte `t` of a cluster, behind the clusters that come before it. -/
theorem userPhys_mmapLoop (hl : l = l₁ ++ (pfn, size) :: l₂)
    (hlt : a + (l.map Prod.snd).sum < 2 ^ 31) (ht : t < size) :
    userPhys (mmapLoop allOk l a).1 b (b + (a + (l₁.map Prod.snd).sum + t : ℕ)) =
      some (pfn * pageSize + t) := by
  induction l₁ generalizing l a with
  | nil =>
    subst hl
    rw [List.nil_append, mmapLoop_cons, userPhys, List.find?_cons_of_pos]
    · simp
    · simp only [List.map_nil, List.sum_nil, Nat.add_zero, decide_eq_true_eq]
      omega
  | cons x l₁ ih =>
    obtain ⟨pfn', size'⟩ := x
    subst hl
    simp only [List.cons_append, List.map_cons, List.sum_cons] at hlt
    have hskip : s32 ((a : ℤ) + size') = ((a + size' : ℕ) : ℤ) := by
      rw [s32_of_mem (by omega) (by omega)]
      rfl
    have hnext := ih rfl (by omega : a + size' + ((l₁ ++ (pfn, size) :: l₂).map Prod.snd).sum < 2 ^ 31)
    have hofs : a + (((pfn', size') :: l₁).map Prod.snd).sum + t =
        a + size' + (l₁.map Prod.snd).sum + t := by
      rw [List.map_cons, List.sum_cons]
      omega
    rw [hofs, List.cons_append, mmapLoop_cons, userPhys, List.find?_cons_of_neg, hskip, ← userPhys]
    · exact hnext
    · rw [decide_eq_true_eq]
      dsimp only
      omega

end

section

variable {p : Params} {getFreePages : PoolId → ℕ → ℕ} {virtToPhys : ℕ → ℕ}

theorem pool_item {q : PoolId} {x : ℕ}
    (hx : x < ((dpaParamInit p).pool getFreePages virtToPhys q).objTotal) :
    ((dpaParamInit p).pool getFreePages virtToPhys q).addrTbl x =
      clusterItem (getFreePages q) virtToPhys ((dpaParamInit p).pool getFreePages virtToPhys q) x :=
  if_pos hx

theorem mmapClusters_split {pool : DpaObjPool} {c : ℕ} (hc : c < pool.numClusters) :
    ∃ l₁ l₂, mmapClusters pool =
        l₁ ++ ((pool.addrTbl (c * pool.clstNEntries)).paddr / pageSize, pool.clstSize) :: l₂ ∧
      (l₁.map Prod.snd).sum = c * pool.clstSize := by
  let f : ℕ → ℕ × ℕ := fun j ↦
    ((pool.addrTbl (j * pool.clstNEntries)).paddr / pageSize, pool.clstSize)
  refine ⟨(List.range c).map f, (List.range' (c + 1) (pool.numClusters - (c + 1))).map f, ?_, ?_⟩
  · rw [mmapClusters, range_split hc, List.map_append, List.map_cons]
  · have hconst : (List.range c).map (Prod.snd ∘ f) = List.replicate c pool.clstSize :=
      List.map_const'.trans (by rw [List.length_range])
    rw [List.map_map, hconst, List.sum_replicate, smul_eq_mul]

theorem map_snd_mmapClusters (pool : DpaObjPool) :
    (mmapClusters pool).map Prod.snd = List.replicate pool.numClusters pool.clstSize := by
  rw [mmapClusters, List.map_map]
  exact List.map_const'.trans (by rw [List.length_range])

variable (p getFreePages virtToPhys) in
theorem mmapClusters_sum (q : PoolId) :
    ((mmapClusters ((dpaParamInit p).pool getFreePages virtToPhys q)).map Prod.snd).sum =
      (dpaParamInit p).memory q := by
  have hsized := pool_sized p getFreePages virtToPhys q
  rw [map_snd_mmapClusters, List.sum_replicate, smul_eq_mul, hsized.clusters, hsized.clstSize]
  rfl

theorem clusterItem_first {f v : ℕ → ℕ} {pool : DpaObjPool} (hpos : 0 < pool.clstNEntries) (c : ℕ) :
    clusterItem f v pool (c * pool.clstNEntries) = ⟨f c, v (f c)⟩ := by
  rw [clusterItem, Nat.mul_div_cancel c hpos, Nat.mul_mod_left, Nat.zero_mul, Nat.add_zero]

theorem dpaMmap_split {q : PoolId} {c : ℕ}
    (hc : c < ((dpaParamInit p).pool getFreePages virtToPhys q).numClusters) :
    ∃ l₁ l₂, mmapClusters ((dpaParamInit p).pool getFreePages virtToPhys .ifPool) ++
        mmapClusters ((dpaParamInit p).pool getFreePages virtToPhys .ringPool) ++
        mmapClusters ((dpaParamInit p).pool getFreePages virtToPhys .bufPool) =
      l₁ ++ ((((dpaParamInit p).pool getFreePages virtToPhys q).addrTbl
        (c * ((dpaParamInit p).pool getFreePages virtToPhys q).clstNEntries)).paddr / pageSize,
        ((dpaParamInit p).pool getFreePages virtToPhys q).clstSize) :: l₂ ∧
      (l₁.map Prod.snd).sum = (dpaParamInit p).poolOffset q +
        c * ((dpaParamInit p).pool getFreePages virtToPhys q).clstSize := by
  obtain ⟨l₁, l₂, hsplit, hsum⟩ := mmapClusters_split hc
  have hmem := mmapClusters_sum p getFreePages virtToPhys
  cases q with
  | ifPool =>
    refine ⟨l₁, l₂ ++ (mmapClusters ((dpaParamInit p).pool getFreePages virtToPhys .ringPool) ++
      mmapClusters ((dpaParamInit p).pool getFreePages virtToPhys .bufPool)), ?_, ?_⟩
    · rw [hsplit]
      simp only [List.append_assoc, List.cons_append]
    · rw [hsum, Config.poolOffset, Nat.zero_add]
  | ringPool =>
    refine ⟨mmapClusters ((dpaParamInit p).pool getFreePages virtToPhys .ifPool) ++ l₁,
      l₂ ++ mmapClusters ((dpaParamInit p).pool getFreePages virtToPhys .bufPool), ?_, ?_⟩
    · rw [hsplit]
      simp only [List.append_assoc, List.cons_append]
    · rw [List.map_append, List.sum_append, hmem, hsum]
      rfl
  | bufPool =>
    refine ⟨mmapClusters ((dpaParamInit p).pool getFreePages virtToPhys .ifPool) ++
      mmapClusters ((dpaParamInit p).pool getFreePages virtToPhys .ringPool) ++ l₁, l₂, ?_, ?_⟩
    · rw [hsplit]
      simp only [List.append_assoc]
    · rw [List.map_append, List.map_append, List.sum_append, List.sum_append, hmem, hmem, hsum]
      rfl

theorem userPhys_object (hpages : Pages getFreePages (dpaParamInit p))
    (hdirect : DirectMap getFreePages virtToPhys (dpaParamInit p))
    (hlt : (dpaParamInit p).bytes < 2 ^ 31) {q : PoolId} {x t : ℕ}
    (hx : x < ((dpaParamInit p).pool getFreePages virtToPhys q).objTotal)
    (ht : t < ((dpaParamInit p).pool getFreePages virtToPhys q).objSize) (b : ℤ) :
    userPhys (dpaMmap allOk ((dpaParamInit p).pool getFreePages virtToPhys)).1 b
        (b + ((dpaParamInit p).userOffset ((dpaParamInit p).pool getFreePages virtToPhys) q x + t : ℕ)) =
      some (virtToPhys ((((dpaParamInit p).pool getFreePages virtToPhys q).addrTbl x).vaddr + t)) := by
  have hsound : ((dpaParamInit p).pool getFreePages virtToPhys q).Sound :=
    (soundPools hpages).sound q
  have hsized := pool_sized p getFreePages virtToPhys q
  have hpos := hsound.entries_pos
  have hc : x / ((dpaParamInit p).pool getFreePages virtToPhys q).clstNEntries <
      ((dpaParamInit p).pool getFreePages virtToPhys q).numClusters := by
    rw [hsound.total] at hx
    exact Nat.div_lt_of_lt_mul (Nat.mul_comm _ _ ▸ hx)
  have hmod := Nat.mod_lt x hpos
  have hin : x % ((dpaParamInit p).pool getFreePages virtToPhys q).clstNEntries *
      ((dpaParamInit p).pool getFreePages virtToPhys q).objSize + t <
      ((dpaParamInit p).pool getFreePages virtToPhys q).clstSize := by
    refine lt_of_lt_of_le ?_ hsound.fits
    have hmul := Nat.mul_le_mul_right ((dpaParamInit p).pool getFreePages virtToPhys q).objSize
      (Nat.succ_le_of_lt hmod)
    rw [Nat.succ_mul] at hmul
    omega
  obtain ⟨l₁, l₂, hsplit, hsum⟩ := dpaMmap_split hc
  have hbytes : 0 + ((mmapClusters ((dpaParamInit p).pool getFreePages virtToPhys .ifPool) ++
      mmapClusters ((dpaParamInit p).pool getFreePages virtToPhys .ringPool) ++
      mmapClusters ((dpaParamInit p).pool getFreePages virtToPhys .bufPool)).map Prod.snd).sum <
      2 ^ 31 := by
    rw [Nat.zero_add, List.map_append, List.map_append, List.sum_append, List.sum_append,
      mmapClusters_sum, mmapClusters_sum, mmapClusters_sum, memory_sum]
    exact hlt
  have hmap := userPhys_mmapLoop (b := b) hsplit hbytes hin
  rw [Nat.zero_add, hsum] at hmap
  have hbase : ∀ c, c < ((dpaParamInit p).pool getFreePages virtToPhys q).numClusters →
      c * ((dpaParamInit p).pool getFreePages virtToPhys q).clstNEntries <
        ((dpaParamInit p).pool getFreePages virtToPhys q).objTotal := fun c hc ↦ by
    rw [hsound.total]
    exact Nat.mul_lt_mul_of_pos_right hc hpos
  rw [pool_item (hbase _ hc), clusterItem_first hpos] at hmap
  rw [hsized.clusters] at hc
  rw [hsized.clstSize] at hin
  dsimp only at hmap
  rw [Nat.div_mul_cancel (hdirect.aligned q _ hc), ← hdirect.linear q _ hc _ hin, Nat.cast_zero] at hmap
  have hofs : (dpaParamInit p).userOffset ((dpaParamInit p).pool getFreePages virtToPhys) q x + t =
      (dpaParamInit p).poolOffset q + x / ((dpaParamInit p).pool getFreePages virtToPhys q).clstNEntries *
        ((dpaParamInit p).pool getFreePages virtToPhys q).clstSize +
        (x % ((dpaParamInit p).pool getFreePages virtToPhys q).clstNEntries *
          ((dpaParamInit p).pool getFreePages virtToPhys q).objSize + t) := by
    rw [Config.userOffset, dpaObjOffset_vaddr hsound hx]
    omega
  rw [hofs, dpaMmap, hmap, pool_item hx, clusterItem]
  dsimp only
  rw [Nat.add_assoc]

end

end Dpa.Kernel
