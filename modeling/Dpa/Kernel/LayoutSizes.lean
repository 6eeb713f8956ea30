import Dpa.Kernel.Layout

namespace Dpa.Kernel

open MachineWord

/-- The pages for every cluster of every pool, apart from each other. -/
def Pages (getFreePages : PoolId → ℕ → ℕ) (c : Config) : Prop :=
  ∀ q, PagesFor (getFreePages q) (exactClusters pageSize (c.objNum q) (c.objSize q))
    (exactClusterSize pageSize (c.objSize q))

def Config.memory (c : Config) (q : PoolId) : ℕ := exactMemory pageSize (c.objNum q) (c.objSize q)

def layoutBytes (numIfs numQueues numRxDescs bufSize : ℕ) : ℕ :=
  alignUp (numIfs * numQueues + 2) (if 6 ≤ numQueues ∧ numQueues ≤ 13 then 32 else 64) *
      (if numQueues ≤ 5 then 64 else if numQueues ≤ 13 then 128 else 192) +
    (numIfs * numQueues + 2) * 36864 +
    alignUp (numIfs * numQueues * numRxDescs + 2) (4 / Nat.gcd 4 (bufSize / 1024)) * bufSize

def Config.bytes (c : Config) : ℕ := layoutBytes c.numIfs c.numQueues c.numRxDescs c.bufSize

/-- The number of clusters a pool of `n` keeps: all of them, or what is left when the pages for a
cluster cannot be had. -/
def keptClusters (getFreePages : ℕ → ℕ) (n clstNEntries : ℕ) : ℕ :=
  match (List.range n).find? fun c ↦ getFreePages c = 0 with
  | none => n
  | some c => u32 ((c * clstNEntries / 2 : ℕ) - 1) / clstNEntries

def Config.clusters (getFreePages : PoolId → ℕ → ℕ) (c : Config) (q : PoolId) : ℕ :=
  keptClusters (getFreePages q) (exactClusters pageSize (c.objNum q) (c.objSize q))
    (clusterEntries pageSize (alignUp (c.objSize q) cacheLine))

def Config.clusterSizes (getFreePages : PoolId → ℕ → ℕ) (c : Config) (q : PoolId) : List ℕ :=
  List.replicate (c.clusters getFreePages q) (exactClusterSize pageSize (c.objSize q))

def Config.layout (getFreePages : PoolId → ℕ → ℕ) (c : Config) : List ℕ :=
  c.clusterSizes getFreePages .ifPool ++ c.clusterSizes getFreePages .ringPool ++
    c.clusterSizes getFreePages .bufPool

def offsets : ℤ → List ℕ → List ℤ
  | a, [] => [a]
  | a, n :: l => a :: offsets (a + n) l

def allOk : Remap → Bool := fun _ ↦ true

structure LayoutExact (getFreePages : PoolId → ℕ → ℕ) (c : Config) (a : DpaMemAllocator) : Prop where
  numBufs : c.numBufs = c.numIfs * c.numQueues * c.numRxDescs
  memTotal : ∀ q, (a.pools q).memTotal = (c.clusterSizes getFreePages q).sum
  totalSize : a.totalSize = (c.layout getFreePages).sum
  userSkip : (dpaMmap allOk a.pools).1.map Remap.skip ++ [(dpaMmap allOk a.pools).2] =
    offsets 0 (c.layout getFreePages)

section

variable (p : Params)

theorem paramInit_objSize (q : PoolId) :
    0 < (dpaParamInit p).objSize q ∧ (dpaParamInit p).objSize q < clusterMaxSize := by
  have hq := paramInit_numQueues p
  obtain ⟨b, hb1, hb16, hb⟩ := paramInit_bufSize p
  cases q with
  | ifPool =>
    simp only [Config.objSize, sizeofDpaIf, sizeofSsize, clusterMaxSize]
    omega
  | ringPool => exact ⟨(by decide : 0 < 9 * pageSize), (by decide : 9 * pageSize < clusterMaxSize)⟩
  | bufPool =>
    simp only [Config.objSize, hb, clusterMaxSize]
    omega

theorem memory_ifPool : (dpaParamInit p).memory .ifPool =
    alignUp ((dpaParamInit p).numIfs * (dpaParamInit p).numQueues + 2)
        (if 6 ≤ (dpaParamInit p).numQueues ∧ (dpaParamInit p).numQueues ≤ 13 then 32 else 64) *
      (if (dpaParamInit p).numQueues ≤ 5 then 64 else if (dpaParamInit p).numQueues ≤ 13 then 128
        else 192) := by
  have hq := paramInit_numQueues p
  obtain ⟨-, hentries, hclst⟩ := ifPool_entries hq.1 hq.2
  rw [Config.memory, paramInit_objNum p (by decide), exactMemory, exactClusters, Config.objSize,
    hentries, hclst, alignUp]
  exact (Nat.mul_assoc _ _ _).symm

theorem memory_ringPool : (dpaParamInit p).memory .ringPool =
    ((dpaParamInit p).numIfs * (dpaParamInit p).numQueues + 2) * 36864 := by
  rw [Config.memory, paramInit_objNum p (by decide), exactMemory, exactClusters, exactClusterSize,
    Config.objSize]
  rw [ringPool_entries, Nat.div_one, Nat.add_sub_cancel]
  rfl

theorem memory_bufPool : (dpaParamInit p).memory .bufPool =
    alignUp ((dpaParamInit p).numIfs * (dpaParamInit p).numQueues * (dpaParamInit p).numRxDescs + 2)
      (4 / Nat.gcd 4 ((dpaParamInit p).bufSize / 1024)) * (dpaParamInit p).bufSize := by
  obtain ⟨b, hb1, hb16, hb⟩ := paramInit_bufSize p
  obtain ⟨-, hentries, hclst⟩ := bufPool_entries hb1 hb16
  rw [Config.memory, exactMemory, exactClusters, Config.objSize, Config.objNum, hb,
    paramInit_numBufs p]
  rw [hentries, hclst, Nat.mul_div_cancel b (by decide), alignUp]
  exact (Nat.mul_assoc _ _ _).symm

theorem memory_sum : (dpaParamInit p).memory .ifPool + (dpaParamInit p).memory .ringPool +
    (dpaParamInit p).memory .bufPool = (dpaParamInit p).bytes := by
  rw [memory_ifPool, memory_ringPool, memory_bufPool, Config.bytes, layoutBytes]

theorem memory_lt {q : PoolId} (hq : q ≠ .bufPool) : (dpaParamInit p).memory q < 2 ^ 32 := by
  have hqueues := paramInit_queues_lt p
  cases q with
  | ifPool =>
    rw [memory_ifPool]
    have hcount : alignUp ((dpaParamInit p).numIfs * (dpaParamInit p).numQueues + 2)
        (if 6 ≤ (dpaParamInit p).numQueues ∧ (dpaParamInit p).numQueues ≤ 13 then 32 else 64) ≤
        322 := by
      split_ifs
      · exact (alignUp_lt (by decide)).le.trans (by omega)
      · exact (alignUp_lt (by decide)).le.trans (by omega)
    refine (Nat.mul_le_mul hcount (?_ : _ ≤ 192)).trans_lt (by decide)
    split_ifs <;> decide
  | ringPool =>
    rw [memory_ringPool]
    omega
  | bufPool => exact absurd rfl hq

theorem paramInit_countable (q : PoolId) :
    Countable pageSize ((dpaParamInit p).objNum q) ((dpaParamInit p).objSize q) := by
  have hsize := paramInit_objSize p q
  have hqueues := paramInit_queues_lt p
  cases q with
  | ifPool => exact .of_memory pageSize_eq hsize.1 hsize.2 (memory_lt p (by decide))
  | ringPool => exact .of_memory pageSize_eq hsize.1 hsize.2 (memory_lt p (by decide))
  | bufPool =>
    obtain ⟨b, hb1, hb16, hb⟩ := paramInit_bufSize p
    obtain ⟨-, hentries, hclst⟩ := bufPool_entries hb1 hb16
    have hgcd : 4 / Nat.gcd 4 b ≤ 4 := Nat.div_le_self 4 _
    have hpos : 0 < 4 / Nat.gcd 4 b :=
      Nat.div_pos (Nat.le_of_dvd (by decide) (Nat.gcd_dvd_left 4 b)) (Nat.gcd_pos_of_pos_left b (by decide))
    have hbufs := Nat.mul_le_mul hqueues (paramInit_numRxDescs p).2
    rw [Config.objSize, Config.objNum, hb, paramInit_numBufs p]
    constructor
    · rw [exactClusters, hentries]
      exact (alignUp_lt hpos).trans (by omega)
    · rw [hclst]
      exact (Nat.mul_le_mul hgcd (Nat.mul_le_mul_right 1024 hb16)).trans_lt (by decide)

variable {getFreePages : PoolId → ℕ → ℕ} {virtToPhys : ℕ → ℕ}

def Config.pool (getFreePages : PoolId → ℕ → ℕ) (virtToPhys : ℕ → ℕ) (c : Config) (q : PoolId) :
    DpaObjPool :=
  fullPool (getFreePages q) virtToPhys pageSize (c.objNum q) (c.objSize q)

theorem dpaMemInit_eq (virtToPhys : ℕ → ℕ) (hpages : Pages getFreePages (dpaParamInit p)) :
    ∃ a, dpaMemInit getFreePages virtToPhys (dpaParamInit p) = some a ∧
      a.pools = (dpaParamInit p).pool getFreePages virtToPhys ∧
      (∀ q, Represents (a.pools q) (a.words q) (Finset.Ico 2 (a.pools q).objTotal)) ∧
      a.totalSize = u32 (u32 ((a.pools .ifPool).memTotal + (a.pools .ringPool).memTotal) +
        (a.pools .bufPool).memTotal) := by
  have hnew := fun q ↦ dpaNewObjAllocator_eq virtToPhys
    pageSize_eq (paramInit_objSize p q).1 (paramInit_objSize p q).2 (paramInit_countable p q) (hpages q)
  obtain ⟨wi, hi, hri⟩ := hnew .ifPool
  obtain ⟨wr, hr, hrr⟩ := hnew .ringPool
  obtain ⟨wb, hb, hrb⟩ := hnew .bufPool
  refine ⟨_, by rw [dpaMemInit]; dsimp only; rw [hi, hr, hb]; rfl, ?_, fun q ↦ ?_, rfl⟩
  · funext q
    cases q with
    | ifPool => rfl
    | ringPool => rfl
    | bufPool => rfl
  · cases q with
    | ifPool => exact hri
    | ringPool => exact hrr
    | bufPool => exact hrb

structure PoolSized (c : Config) (q : PoolId) (pool : DpaObjPool) : Prop where
  entries : pool.clstNEntries = clusterEntries pageSize (alignUp (c.objSize q) cacheLine)
  clusters : pool.numClusters = exactClusters pageSize (c.objNum q) (c.objSize q)
  total : pool.objTotal = pool.numClusters * pool.clstNEntries
  clstSize : pool.clstSize = exactClusterSize pageSize (c.objSize q)
  objSize : pool.objSize = alignUp (c.objSize q) cacheLine
  memTotal : pool.memTotal = u32 (c.memory q)

variable (getFreePages virtToPhys) in
theorem pool_sized (q : PoolId) :
    PoolSized (dpaParamInit p) q ((dpaParamInit p).pool getFreePages virtToPhys q) := by
  have hsize := paramInit_objSize p q
  rw [Config.pool, fullPool,
    emptyPool_eq pageSize_eq hsize.1 hsize.2 (paramInit_countable p q)]
  exact ⟨rfl, rfl, rfl, rfl, rfl, rfl⟩

end

section

variable (getFreePages virtToPhys : ℕ → ℕ) (pool : DpaObjPool) (b : ℕ → BitVec 32) {n : ℕ}

/-- The loop over the clusters, whether it ends or is rolled back, -/
theorem clustersLoop_clusters (htotal : pool.objTotal = n * pool.clstNEntries)
    (hpos : 0 < pool.clstNEntries) (hnum : pool.numClusters = n)
    (hmem : pool.memTotal = u32 (pool.numClusters * pool.clstSize)) :
    let built := (clustersLoop getFreePages virtToPhys (pool.objTotal + 1) 0 pool b).1
    built.clstSize = pool.clstSize ∧
      built.numClusters = keptClusters getFreePages n pool.clstNEntries ∧
      built.memTotal = u32 (keptClusters getFreePages n pool.clstNEntries * pool.clstSize : ℕ) := by
  cases hfind : (List.range n).find? fun c ↦ getFreePages c = 0 with
  | none =>
    have hpages : ∀ c < n, getFreePages c ≠ 0 := by simpa [List.find?_eq_none] using hfind
    rw [keptClusters, hfind, clustersLoop_all virtToPhys b hpos htotal hpages]
    exact ⟨rfl, hnum, by rw [← hnum, Nat.cast_mul]; exact hmem⟩
  | some m =>
    obtain ⟨hnone, hm, hpages⟩ := List.find?_range_eq_some.1 hfind
    have hlt : m * pool.clstNEntries < pool.objTotal := by
      rw [htotal]
      exact Nat.mul_lt_mul_of_pos_right (List.mem_range.1 hm) hpos
    have hgot := clustersGot_first hpos htotal (List.mem_range.1 hm) (of_decide_eq_true hnone)
      fun c hc ↦ by simpa using hpages c hc
    rw [keptClusters, hfind, clustersLoop_result hpos, hgot]
    dsimp only
    rw [if_neg (not_le.2 hlt), rollBack_fst]
    exact ⟨rfl, rfl, rfl⟩

end

section

variable (p : Params) (getFreePages : PoolId → ℕ → ℕ) (virtToPhys : ℕ → ℕ)

/-- so a pool keeps its clusters, and counts their memory in 32 bits. -/
theorem dpaNewObjAllocator_clusters (q : PoolId) :
    ∃ pool w, dpaNewObjAllocator (getFreePages q) virtToPhys pageSize ((dpaParamInit p).objNum q)
        ((dpaParamInit p).objSize q) = some (pool, w) ∧
      (mmapClusters pool).map Prod.snd = (dpaParamInit p).clusterSizes getFreePages q ∧
      pool.memTotal = u32 ((dpaParamInit p).clusterSizes getFreePages q).sum := by
  have hsize := paramInit_objSize p q
  have halign := alignUp_cacheLine hsize.1 hsize.2
  have hfits := clusterEntries_fits pageSize halign.2
  have heq := emptyPool_eq pageSize_eq hsize.1 hsize.2 (paramInit_countable p q)
  have hbuilt := clustersLoop_clusters (getFreePages q) virtToPhys
    (emptyPool pageSize ((dpaParamInit p).objNum q) ((dpaParamInit p).objSize q)) (fun _ ↦ 0)
    (n := exactClusters pageSize ((dpaParamInit p).objNum q) ((dpaParamInit p).objSize q))
    (by rw [heq]) (by rw [heq]; exact hfits.1) (by rw [heq]) (by rw [heq, exactMemory, Nat.cast_mul])
  obtain ⟨hclst, hnum, hmem⟩ := hbuilt
  rw [dpaNewObjAllocator, if_neg (not_le.2 hsize.2)]
  refine ⟨_, _, rfl, ?_, ?_⟩
  · rw [mmapClusters, List.map_map, Config.clusterSizes, Config.clusters]
    refine List.map_const'.trans ?_
    rw [List.length_range]
    refine (congrArg₂ List.replicate hnum hclst).trans ?_
    rw [heq]
  · rw [hmem, heq, Config.clusterSizes, Config.clusters, List.sum_replicate, smul_eq_mul]

end

section

variable {l : List (ℕ × ℕ)} {a : ℕ}

theorem getLast_offsets (a : ℤ) (l : List ℕ) :
    (offsets a l).getLast? = some (a + (l.sum : ℕ)) := by
  induction l generalizing a with
  | nil => simp [offsets]
  | cons n l ih =>
    rw [offsets, List.getLast?_cons, ih, Option.getD_some, List.sum_cons]
    push_cast
    rw [add_assoc]

theorem mmapLoop_cons (pfn size : ℕ) (l : List (ℕ × ℕ)) (a : ℤ) :
    mmapLoop allOk ((pfn, size) :: l) a =
      (⟨a, pfn, size⟩ :: (mmapLoop allOk l (s32 (a + size))).1,
        (mmapLoop allOk l (s32 (a + size))).2) := rfl

/-- `user_skip` is exact as long as all of it stays below `2 ^ 31`, -/
theorem mmapLoop_exact (h : a + (l.map Prod.snd).sum < 2 ^ 31) :
    (mmapLoop allOk l a).1.map Remap.skip ++ [(mmapLoop allOk l a).2] =
      offsets a (l.map Prod.snd) := by
  induction l generalizing a with
  | nil => rfl
  | cons x l ih =>
    obtain ⟨pfn, size⟩ := x
    rw [List.map_cons, List.sum_cons] at h
    dsimp only at h
    have hskip : s32 ((a : ℤ) + size) = ((a + size : ℕ) : ℤ) := by
      rw [s32_of_mem (by omega) (by omega)]
      rfl
    rw [mmapLoop_cons, List.map_cons, List.map_cons, offsets, hskip, List.cons_append,
      ih (by omega)]
    rfl

theorem mmapLoop_lt {a : ℤ} (h : a < 2 ^ 31) : (mmapLoop allOk l a).2 < 2 ^ 31 := by
  induction l generalizing a with
  | nil => exact h
  | cons x l ih =>
    exact ih (a := s32 (a + x.2)) (by unfold s32; omega)

theorem mmapLoop_exact_iff : (mmapLoop allOk l 0).1.map Remap.skip ++ [(mmapLoop allOk l 0).2] =
    offsets 0 (l.map Prod.snd) ↔ (l.map Prod.snd).sum < 2 ^ 31 := by
  constructor
  · intro h
    have hlast := congrArg List.getLast? h
    rw [List.getLast?_concat, getLast_offsets, Option.some.injEq] at hlast
    have hlt := mmapLoop_lt (l := l) (a := 0) (by decide)
    omega
  · intro h
    exact mmapLoop_exact (a := 0) (by omega)

end

section

variable (p : Params)

theorem layout_sum {getFreePages : PoolId → ℕ → ℕ}
    (hpages : ∀ q, ∀ c < exactClusters pageSize ((dpaParamInit p).objNum q)
      ((dpaParamInit p).objSize q), getFreePages q c ≠ 0) :
    ((dpaParamInit p).layout getFreePages).sum = (dpaParamInit p).bytes := by
  have hsum : ∀ q, ((dpaParamInit p).clusterSizes getFreePages q).sum =
      (dpaParamInit p).memory q := by
    intro q
    have hnone : (List.range (exactClusters pageSize ((dpaParamInit p).objNum q)
        ((dpaParamInit p).objSize q))).find? (fun c ↦ getFreePages q c = 0) = none := by
      simpa [List.find?_eq_none] using hpages q
    rw [Config.clusterSizes, Config.clusters, keptClusters, hnone, List.sum_replicate, smul_eq_mul]
    rfl
  rw [Config.layout, List.sum_append, List.sum_append, hsum, hsum, hsum, memory_sum]

/-- The layout is exact as long as the clusters that are kept take less than `2 ^ 31` bytes, and only
then. -/
theorem dpaMemInit_exact (getFreePages : PoolId → ℕ → ℕ) (virtToPhys : ℕ → ℕ) :
    ∃ a, dpaMemInit getFreePages virtToPhys (dpaParamInit p) = some a ∧
      (LayoutExact getFreePages (dpaParamInit p) a ↔
        ((dpaParamInit p).layout getFreePages).sum < 2 ^ 31) := by
  have hnew := dpaNewObjAllocator_clusters p getFreePages virtToPhys
  obtain ⟨ifPool, wi, hi, hisizes, himem⟩ := hnew .ifPool
  obtain ⟨ringPool, wr, hr, hrsizes, hrmem⟩ := hnew .ringPool
  obtain ⟨bufPool, wb, hb, hbsizes, hbmem⟩ := hnew .bufPool
  have hsizes : (mmapClusters ifPool ++ mmapClusters ringPool ++ mmapClusters bufPool).map Prod.snd =
      (dpaParamInit p).layout getFreePages := by
    rw [List.map_append, List.map_append, hisizes, hrsizes, hbsizes, Config.layout]
  have hsum : ((dpaParamInit p).layout getFreePages).sum =
      ((dpaParamInit p).clusterSizes getFreePages .ifPool).sum +
        ((dpaParamInit p).clusterSizes getFreePages .ringPool).sum +
        ((dpaParamInit p).clusterSizes getFreePages .bufPool).sum := by
    rw [Config.layout, List.sum_append, List.sum_append]
  have hpools : ∀ q, ((dpaParamInit p).layout getFreePages).sum < 2 ^ 31 →
      u32 ((dpaParamInit p).clusterSizes getFreePages q).sum =
        ((dpaParamInit p).clusterSizes getFreePages q).sum := by
    intro q hlt
    refine u32_natCast ?_
    cases q with
    | ifPool => omega
    | ringPool => omega
    | bufPool => omega
  have hadd : ∀ a b : ℕ, a + b < 2 ^ 31 → u32 (a + b) = a + b := fun a b h ↦ by
    rw [← Nat.cast_add, u32_natCast (by omega)]
  obtain ⟨a, ha, ⟨hif, hring, hbuf⟩, htotal⟩ : ∃ a, dpaMemInit getFreePages virtToPhys (dpaParamInit p) = some a ∧
      (a.pools .ifPool = ifPool ∧ a.pools .ringPool = ringPool ∧ a.pools .bufPool = bufPool) ∧
      a.totalSize = u32 (u32 (ifPool.memTotal + ringPool.memTotal) + bufPool.memTotal) := by
    rw [dpaMemInit]
    dsimp only
    rw [hi, hr, hb]
    exact ⟨_, rfl, ⟨rfl, rfl, rfl⟩, rfl⟩
  refine ⟨a, ha, ?_⟩
  constructor
  · intro hexact
    have hskip := hexact.userSkip
    rw [dpaMmap, hif, hring, hbuf, ← hsizes] at hskip
    rw [← hsizes]
    exact mmapLoop_exact_iff.1 hskip
  · intro hlt
    refine ⟨paramInit_numBufs p, fun q ↦ ?_, ?_, ?_⟩
    · rw [← hpools q hlt]
      cases q with
      | ifPool => rw [hif, himem]
      | ringPool => rw [hring, hrmem]
      | bufPool => rw [hbuf, hbmem]
    · have htwo := hadd ((dpaParamInit p).clusterSizes getFreePages .ifPool).sum
        ((dpaParamInit p).clusterSizes getFreePages .ringPool).sum (by omega)
      rw [htotal, himem, hrmem, hbmem, hpools _ hlt, hpools _ hlt, hpools _ hlt, htwo,
        hadd _ _ (by omega), hsum]
    · rw [dpaMmap, hif, hring, hbuf]
      rw [← hsizes] at hlt ⊢
      exact mmapLoop_exact_iff.2 hlt

/-- Whatever the parameters are and whichever pages can be had, the sizes and offsets are the
mathematical values as long as the clusters take less than `2 ^ 31` bytes, and only then. -/
theorem layoutExact_iff (getFreePages : PoolId → ℕ → ℕ) (virtToPhys : ℕ → ℕ) :
    ∃ a, dpaMemInit getFreePages virtToPhys (dpaParamInit p) = some a ∧
      (LayoutExact getFreePages (dpaParamInit p) a ↔
        ((dpaParamInit p).layout getFreePages).sum < 2 ^ 31) ∧
      ((∀ q, ∀ c < exactClusters pageSize ((dpaParamInit p).objNum q)
          ((dpaParamInit p).objSize q), getFreePages q c ≠ 0) →
        (LayoutExact getFreePages (dpaParamInit p) a ↔ (dpaParamInit p).bytes < 2 ^ 31)) := by
  obtain ⟨a, ha, hiff⟩ := dpaMemInit_exact p getFreePages virtToPhys
  refine ⟨a, ha, hiff, fun hpages ↦ ?_⟩
  rw [hiff, layout_sum p hpages]

def farPages (_ : PoolId) (c : ℕ) : ℕ := (c + 1) * 2 ^ 20

/-- With 16 interfaces of 16 queues, 4096 slots and buffers of two kilobytes they are not. -/
theorem layout_overflows : ∃ a,
    dpaMemInit farPages id (dpaParamInit ⟨16, 16, 4096, 2048⟩) = some a ∧
      ¬LayoutExact farPages (dpaParamInit ⟨16, 16, 4096, 2048⟩) a := by
  obtain ⟨a, ha, hiff⟩ := dpaMemInit_exact ⟨16, 16, 4096, 2048⟩ farPages id
  have hpages : ∀ q c, farPages q c ≠ 0 := fun q c ↦
    Nat.mul_ne_zero (Nat.succ_ne_zero c) (by decide)
  refine ⟨a, ha, fun hexact ↦ ?_⟩
  rw [hiff, layout_sum _ fun q c _ ↦ hpages q c] at hexact
  exact absurd hexact (by decide +kernel)

end

end Dpa.Kernel
