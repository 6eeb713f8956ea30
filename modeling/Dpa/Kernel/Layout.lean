import Dpa.Kernel.Interface
import Dpa.Kernel.PoolBuild

namespace Dpa.Kernel

open MachineWord

def pageSize : ℕ := 4096

theorem pageSize_eq : pageSize = 2 ^ 12 := rfl

structure Params where
  numIfs : ℕ
  numQueues : ℕ
  numRxDescs : ℕ
  bufSize : ℕ

/-- The module parameters in use, with `dpa_num_bufs`. -/
structure Config where
  numIfs : ℕ
  numQueues : ℕ
  numRxDescs : ℕ
  numBufs : ℕ
  bufSize : ℕ

def dpaParamInit (p : Params) : Config :=
  let numIfs := max (min p.numIfs 16) 1
  let numQueues := max (min p.numQueues 16) 1
  let numRxDescs := max (min p.numRxDescs 4096) 256
  { numIfs := numIfs
    numQueues := numQueues
    numRxDescs := numRxDescs
    numBufs := u32 (u32 (numIfs * numQueues) * numRxDescs)
    bufSize := alignUp (max (min p.bufSize 16384) 1024) 1024 }

/-- `DPA_OBJ_NUM_IFS`, `DPA_OBJ_NUM_RINGS` and `DPA_OBJ_NUM_BUFS`. -/
def Config.objNum (c : Config) : PoolId → ℕ
  | .ifPool => u32 (c.numIfs * c.numQueues)
  | .ringPool => u32 (c.numIfs * c.numQueues)
  | .bufPool => c.numBufs

/-- `DPA_OBJ_IF_SIZE`, `DPA_OBJ_RING_SIZE` and `DPA_OBJ_BUF_SIZE`. -/
def Config.objSize (c : Config) : PoolId → ℕ
  | .ifPool => sizeofDpaIf + c.numQueues * sizeofSsize
  | .ringPool => 9 * pageSize
  | .bufPool => c.bufSize

/-- `struct dpa_mem_allocator`, with what its pools hold at first. -/
structure DpaMemAllocator where
  pools : PoolId → DpaObjPool
  words : PoolId → PoolWords
  totalSize : ℕ

/-- `dpa_mem_init`; `getFreePages q` gives the pages for pool `q`. -/
def dpaMemInit (getFreePages : PoolId → ℕ → ℕ) (virtToPhys : ℕ → ℕ) (c : Config) :
    Option DpaMemAllocator := do
  let new := fun q ↦
    dpaNewObjAllocator (getFreePages q) virtToPhys pageSize (c.objNum q) (c.objSize q)
  let ifPool ← new .ifPool
  let ringPool ← new .ringPool
  let bufPool ← new .bufPool
  some
    { pools := fun
        | .ifPool => ifPool.1
        | .ringPool => ringPool.1
        | .bufPool => bufPool.1
      words := fun
        | .ifPool => ifPool.2
        | .ringPool => ringPool.2
        | .bufPool => bufPool.2
      totalSize := u32 (u32 (ifPool.1.memTotal + ringPool.1.memTotal) + bufPool.1.memTotal) }

/-- A successful `remap_pfn_range`: the bytes from `vm_start + skip` on are those of page `pfn` and
the ones behind it. -/
structure Remap where
  skip : ℤ
  pfn : ℕ
  size : ℕ

/-- The clusters of a pool as `dpa_mmap` goes through them: page and size. -/
def mmapClusters (pool : DpaObjPool) : List (ℕ × ℕ) :=
  (List.range pool.numClusters).map fun j ↦
    ((pool.addrTbl (j * pool.clstNEntries)).paddr / pageSize, pool.clstSize)

/-- The loops of `dpa_mmap` over the clusters, from `user_skip` on: what is mapped, and `user_skip` at
the end. The loops end where `remap_pfn_range` fails. -/
def mmapLoop (remapOk : Remap → Bool) : List (ℕ × ℕ) → ℤ → List Remap × ℤ
  | [], userSkip => ([], userSkip)
  | (pfn, size) :: l, userSkip =>
    if remapOk ⟨userSkip, pfn, size⟩ then
      let rest := mmapLoop remapOk l (s32 (userSkip + size))
      (⟨userSkip, pfn, size⟩ :: rest.1, rest.2)
    else ([], userSkip)

def dpaMmap (remapOk : Remap → Bool) (pools : PoolId → DpaObjPool) : List Remap × ℤ :=
  mmapLoop remapOk
    (mmapClusters (pools .ifPool) ++ mmapClusters (pools .ringPool) ++ mmapClusters (pools .bufPool)) 0

section

variable (p : Params)

theorem paramInit_numIfs : 1 ≤ (dpaParamInit p).numIfs ∧ (dpaParamInit p).numIfs ≤ 16 :=
  ⟨le_max_right _ _, max_le (min_le_right _ _) (by decide)⟩

theorem paramInit_numQueues :
    1 ≤ (dpaParamInit p).numQueues ∧ (dpaParamInit p).numQueues ≤ 16 :=
  ⟨le_max_right _ _, max_le (min_le_right _ _) (by decide)⟩

theorem paramInit_numRxDescs :
    256 ≤ (dpaParamInit p).numRxDescs ∧ (dpaParamInit p).numRxDescs ≤ 4096 :=
  ⟨le_max_right _ _, max_le (min_le_right _ _) (by decide)⟩

theorem paramInit_bufSize :
    ∃ b, 1 ≤ b ∧ b ≤ 16 ∧ (dpaParamInit p).bufSize = b * 1024 := by
  refine ⟨(max (min p.bufSize 16384) 1024 + 1024 - 1) / 1024, ?_, ?_, rfl⟩
  · omega
  · omega

theorem paramInit_queues_lt :
    (dpaParamInit p).numIfs * (dpaParamInit p).numQueues ≤ 256 :=
  Nat.mul_le_mul (paramInit_numIfs p).2 (paramInit_numQueues p).2

theorem paramInit_objNum {q : PoolId} (hq : q ≠ .bufPool) :
    (dpaParamInit p).objNum q = (dpaParamInit p).numIfs * (dpaParamInit p).numQueues := by
  have hle := paramInit_queues_lt p
  have hnum : u32 ((dpaParamInit p).numIfs * (dpaParamInit p).numQueues) =
      (dpaParamInit p).numIfs * (dpaParamInit p).numQueues := by
    rw [← Nat.cast_mul, u32_natCast (by omega)]
  cases q with
  | ifPool => exact hnum
  | ringPool => exact hnum
  | bufPool => exact absurd rfl hq

theorem paramInit_numBufs : (dpaParamInit p).numBufs =
    (dpaParamInit p).numIfs * (dpaParamInit p).numQueues * (dpaParamInit p).numRxDescs := by
  have hle := paramInit_queues_lt p
  have hbufs := Nat.mul_le_mul hle (paramInit_numRxDescs p).2
  have hmul : u32 ((dpaParamInit p).numIfs * (dpaParamInit p).numQueues) =
      (dpaParamInit p).numIfs * (dpaParamInit p).numQueues := by
    rw [← Nat.cast_mul, u32_natCast (by omega)]
  have hunfold : (dpaParamInit p).numBufs = u32 (u32 ((dpaParamInit p).numIfs *
      (dpaParamInit p).numQueues) * (dpaParamInit p).numRxDescs) := rfl
  rw [hunfold, hmul, ← Nat.cast_mul, u32_natCast (by omega)]

theorem ifPool_entries {q : ℕ} (h1 : 1 ≤ q) (h16 : q ≤ 16) :
    alignUp (sizeofDpaIf + q * sizeofSsize) cacheLine =
        (if q ≤ 5 then 64 else if q ≤ 13 then 128 else 192) ∧
      clusterEntries pageSize (alignUp (sizeofDpaIf + q * sizeofSsize) cacheLine) =
        (if 6 ≤ q ∧ q ≤ 13 then 32 else 64) ∧
      exactClusterSize pageSize (sizeofDpaIf + q * sizeofSsize) =
        (if 6 ≤ q ∧ q ≤ 13 then 32 else 64) *
          (if q ≤ 5 then 64 else if q ≤ 13 then 128 else 192) := by
  have hall : ∀ q ∈ Finset.Icc 1 16, alignUp (sizeofDpaIf + q * sizeofSsize) cacheLine =
      (if q ≤ 5 then 64 else if q ≤ 13 then 128 else 192) ∧
      clusterEntries pageSize (alignUp (sizeofDpaIf + q * sizeofSsize) cacheLine) =
        (if 6 ≤ q ∧ q ≤ 13 then 32 else 64) ∧
      exactClusterSize pageSize (sizeofDpaIf + q * sizeofSsize) =
        (if 6 ≤ q ∧ q ≤ 13 then 32 else 64) *
          (if q ≤ 5 then 64 else if q ≤ 13 then 128 else 192) := by decide +kernel
  exact hall q (Finset.mem_Icc.2 ⟨h1, h16⟩)

theorem ringPool_entries : clusterEntries pageSize (alignUp (9 * pageSize) cacheLine) = 1 := by
  decide +kernel

theorem bufPool_entries {b : ℕ} (h1 : 1 ≤ b) (h16 : b ≤ 16) :
    alignUp (b * 1024) cacheLine = b * 1024 ∧
      clusterEntries pageSize (alignUp (b * 1024) cacheLine) = 4 / Nat.gcd 4 b ∧
      exactClusterSize pageSize (b * 1024) = 4 / Nat.gcd 4 b * (b * 1024) := by
  have hall : ∀ b ∈ Finset.Icc 1 16, alignUp (b * 1024) cacheLine = b * 1024 ∧
      clusterEntries pageSize (alignUp (b * 1024) cacheLine) = 4 / Nat.gcd 4 b ∧
      exactClusterSize pageSize (b * 1024) = 4 / Nat.gcd 4 b * (b * 1024) := by decide +kernel
  exact hall b (Finset.mem_Icc.2 ⟨h1, h16⟩)

end

end Dpa.Kernel
