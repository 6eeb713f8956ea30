import Dpa.Kernel.PoolBuild

namespace Dpa.Kernel

open Function MachineWord Bitmap Loop

variable {k c m x i : ℕ} {pageSize objTotal objSize : ℕ} {getFreePages virtToPhys : ℕ → ℕ}
  {pool : DpaObjPool} {b : ℕ → BitVec 32}

def roundupPowOfTwo (n : ℕ) : ℕ := 2 ^ Nat.clog 2 n

def ilog2 (n : ℕ) : ℕ := Nat.log 2 n

/-- The pages of a cluster: where they are, their order, and how many of them have their reserved
flag changed with them. -/
structure ClusterPages where
  vaddr : ℕ
  order : ℕ
  reserved : ℕ
  deriving DecidableEq

/-- Pages for a cluster are got and marked, or unmarked and freed. -/
inductive PageOp
  | get (p : ClusterPages)
  | free (p : ClusterPages)
  deriving DecidableEq

def got (ops : List PageOp) : List ClusterPages :=
  ops.filterMap fun
    | .get p => some p
    | .free _ => none

def freed (ops : List PageOp) : List ClusterPages :=
  ops.filterMap fun
    | .free p => some p
    | .get _ => none

def gotPages (pageSize clstSize vaddr : ℕ) : ClusterPages :=
  ⟨vaddr, ilog2 (roundupPowOfTwo (clstSize / pageSize)), roundupPowOfTwo (clstSize / pageSize)⟩

def freedPages (pageSize : ℕ) (pool : DpaObjPool) (x : ℕ) : ClusterPages :=
  ⟨(pool.addrTbl x).vaddr, ilog2 (roundupPowOfTwo pool.clstSize / pageSize),
    roundupPowOfTwo (pool.clstSize / pageSize)⟩

def rollBackOps (pageSize : ℕ) (pool : DpaObjPool) (i : ℕ) : List PageOp :=
  (List.range' (i / 2) (i + 1 - i / 2)).reverse.flatMap fun x ↦
    if x % pool.clstNEntries = 0 ∧ (pool.addrTbl x).vaddr ≠ 0 then
      [.free (freedPages pageSize pool x)]
    else []

section

variable (getFreePages virtToPhys : ℕ → ℕ)

/-- What the loop that gets the clusters does to pages; it goes as `clustersLoop` does. -/
def clusterOps (pageSize : ℕ) : ℕ → ℕ → DpaObjPool → List PageOp
  | 0, _, _ => []
  | fuel + 1, c, pool =>
    if c * pool.clstNEntries ≥ pool.objTotal then []
    else if getFreePages c = 0 then rollBackOps pageSize pool (c * pool.clstNEntries)
    else
      .get (gotPages pageSize pool.clstSize (getFreePages c)) ::
        clusterOps pageSize fuel (c + 1) (pool.withCluster getFreePages virtToPhys c)

def dpaNewObjAllocatorOps (pageSize objTotal objSize : ℕ) : List PageOp :=
  if objSize ≥ clusterMaxSize then []
  else
    let pool := emptyPool pageSize objTotal objSize
    clusterOps getFreePages virtToPhys pageSize (pool.objTotal + 1) 0 pool

end

def dpaDestroyObjAllocatorOps (pageSize : ℕ) (pool : DpaObjPool) : List PageOp :=
  (List.range ((pool.objTotal + pool.clstNEntries - 1) / pool.clstNEntries)).flatMap fun c ↦
    if (pool.addrTbl (c * pool.clstNEntries)).vaddr ≠ 0 then
      [.free (freedPages pageSize pool (c * pool.clstNEntries))]
    else []

variable (virtToPhys pageSize) in
theorem clusterOps_rounds (fuel : ℕ) (hc : c ≤ clustersGot getFreePages pool) :
    clusterOps getFreePages virtToPhys pageSize (c + fuel) 0 pool =
      (List.range c).map (fun j ↦ .get (gotPages pageSize pool.clstSize (getFreePages j))) ++
        clusterOps getFreePages virtToPhys pageSize fuel c
          (pool.filled getFreePages virtToPhys c) := by
  induction c generalizing fuel with
  | zero =>
    rw [filled_zero, Nat.zero_add]
    rfl
  | succ c ih =>
    obtain ⟨hlt, hpage⟩ := of_lt_clustersGot hc
    rw [Nat.add_right_comm, Nat.add_assoc, ih (fuel + 1) (by omega), List.range_succ,
      List.map_append, List.append_assoc, clusterOps,
      if_neg (not_le.2 (show c * (pool.filled getFreePages virtToPhys c).clstNEntries <
        (pool.filled getFreePages virtToPhys c).objTotal from hlt)), if_neg hpage, filled_succ]
    rfl

theorem clusterOps_result (hk : 0 < pool.clstNEntries) :
    clusterOps getFreePages virtToPhys pageSize (pool.objTotal + 1) 0 pool =
      (let m := clustersGot getFreePages pool
      (List.range m).map (fun c ↦ .get (gotPages pageSize pool.clstSize (getFreePages c))) ++
        if pool.objTotal ≤ m * pool.clstNEntries then []
        else rollBackOps pageSize (pool.filled getFreePages virtToPhys m)
          (m * pool.clstNEntries)) := by
  have hle := clustersGot_le getFreePages hk
  have hstop := clustersGot_stops getFreePages hk
  have hrun := clusterOps_rounds pageSize virtToPhys
    (pool.objTotal - clustersGot getFreePages pool + 1) (le_refl (clustersGot getFreePages pool))
  rw [show clustersGot getFreePages pool + (pool.objTotal - clustersGot getFreePages pool + 1) =
    pool.objTotal + 1 by omega] at hrun
  rw [hrun, clusterOps]
  simp only
  congr 1
  by_cases hfull : pool.objTotal ≤ clustersGot getFreePages pool * pool.clstNEntries
  · rw [if_pos hfull]
    exact if_pos hfull
  · rw [if_neg hfull]
    exact (if_neg hfull).trans (if_pos (hstop.resolve_left hfull))

theorem flatMap_ite {α : Type} (q : ℕ → Prop) [DecidablePred q] (f : ℕ → α) (l : List ℕ) :
    (l.flatMap fun x ↦ if q x then [f x] else []) = (l.filter q).map f := by
  induction l with
  | nil => rfl
  | cons x l ih =>
    rw [List.flatMap_cons, ih, List.filter_cons]
    by_cases hx : q x
    · rw [if_pos hx, if_pos (decide_eq_true hx)]
      rfl
    · rw [if_neg hx, if_neg (by simpa using hx)]
      rfl

theorem freed_map_free (f : ℕ → ClusterPages) (l : List ℕ) :
    freed (l.map fun x ↦ .free (f x)) = l.map f := by
  induction l with
  | nil => rfl
  | cons x l ih => exact congrArg (f x :: ·) ih

theorem got_map_free (f : ℕ → ClusterPages) (l : List ℕ) :
    got (l.map fun x ↦ .free (f x)) = [] := by
  induction l with
  | nil => rfl
  | cons x l ih => exact ih

theorem got_map_get (f : ℕ → ClusterPages) (l : List ℕ) :
    got (l.map fun x ↦ .get (f x)) = l.map f := by
  induction l with
  | nil => rfl
  | cons x l ih => exact congrArg (f x :: ·) ih

theorem freed_map_get (f : ℕ → ClusterPages) (l : List ℕ) :
    freed (l.map fun x ↦ .get (f x)) = [] := by
  induction l with
  | nil => rfl
  | cons x l ih => exact ih

theorem got_append (l l' : List PageOp) : got (l ++ l') = got l ++ got l' := List.filterMap_append

theorem freed_append (l l' : List PageOp) : freed (l ++ l') = freed l ++ freed l' :=
  List.filterMap_append

section

variable (hk : 0 < pool.clstNEntries) (hempty : ∀ x, (pool.addrTbl x).vaddr = 0)

include hk in
theorem filled_base (hc : c < m) :
    ((pool.filled getFreePages virtToPhys m).addrTbl (c * pool.clstNEntries)).vaddr =
      getFreePages c := by
  have hlt : c * pool.clstNEntries < m * pool.clstNEntries := Nat.mul_lt_mul_of_pos_right hc hk
  simp only [DpaObjPool.filled, if_pos hlt, clusterItem, Nat.mul_div_cancel c hk,
    Nat.mul_mod_left, Nat.zero_mul, Nat.add_zero]

include hempty in
theorem filled_rest (hx : m * pool.clstNEntries ≤ x) :
    ((pool.filled getFreePages virtToPhys m).addrTbl x).vaddr = 0 := by
  rw [DpaObjPool.filled]
  dsimp only
  rw [if_neg (not_lt.2 hx), hempty]

theorem got_rollBackOps : got (rollBackOps pageSize pool i) = [] := by
  rw [rollBackOps, flatMap_ite, got_map_free]

theorem got_destroyOps : got (dpaDestroyObjAllocatorOps pageSize pool) = [] := by
  rw [dpaDestroyObjAllocatorOps, flatMap_ite, got_map_free]

def rolledBack (pool : DpaObjPool) (i : ℕ) : List ℕ :=
  (List.range' (i / 2) (i + 1 - i / 2)).reverse.filter fun x ↦
    x % pool.clstNEntries = 0 ∧ (pool.addrTbl x).vaddr ≠ 0

include hk hempty in
theorem mem_rolledBack (hpages : ∀ c < m, getFreePages c ≠ 0) :
    x ∈ rolledBack (pool.filled getFreePages virtToPhys m) (m * pool.clstNEntries) ↔
      ∃ c < m, m * pool.clstNEntries / 2 ≤ c * pool.clstNEntries ∧ x = c * pool.clstNEntries := by
  rw [rolledBack, List.mem_filter, List.mem_reverse, List.mem_range'_1, decide_eq_true_eq]
  constructor
  · rintro ⟨⟨hlim, -⟩, hmod, hne⟩
    have hx := Nat.div_add_mod' x pool.clstNEntries
    rw [show x % pool.clstNEntries = 0 from hmod, Nat.add_zero] at hx
    have hlt : x < m * pool.clstNEntries := by
      by_contra hout
      exact hne (filled_rest hempty (not_lt.1 hout))
    exact ⟨x / pool.clstNEntries, Nat.div_lt_of_lt_mul (Nat.mul_comm _ _ ▸ hlt),
      hx.symm ▸ hlim, hx.symm⟩
  · rintro ⟨c, hc, hlim, rfl⟩
    have hlt : c * pool.clstNEntries < m * pool.clstNEntries :=
      Nat.mul_lt_mul_of_pos_right hc hk
    exact ⟨⟨hlim, by omega⟩, Nat.mul_mod_left _ _, filled_base hk hc ▸ hpages c hc⟩

variable (virtToPhys) in
include hk hempty in
/-- The roll-back frees each cluster whose first object is not below half of the failing index. -/
theorem freed_rollBackOps (pageSize : ℕ) (hpages : ∀ c < m, getFreePages c ≠ 0) :
    ∃ l : List ℕ, l.Nodup ∧
      (∀ c, c ∈ l ↔ c < m ∧ m * pool.clstNEntries / 2 ≤ c * pool.clstNEntries) ∧
      freed (rollBackOps pageSize (pool.filled getFreePages virtToPhys m)
        (m * pool.clstNEntries)) = l.map fun c ↦
          freedPages pageSize (pool.filled getFreePages virtToPhys m) (c * pool.clstNEntries) := by
  refine ⟨(rolledBack (pool.filled getFreePages virtToPhys m) (m * pool.clstNEntries)).map
    (· / pool.clstNEntries), ?_, ?_, ?_⟩
  · refine List.Nodup.map_on ?_ ((List.nodup_reverse.2 List.nodup_range').filter _)
    intro x hx y hy hdiv
    obtain ⟨c, -, -, rfl⟩ := (mem_rolledBack hk hempty hpages).1 hx
    obtain ⟨c', -, -, rfl⟩ := (mem_rolledBack hk hempty hpages).1 hy
    rw [Nat.mul_div_cancel _ hk, Nat.mul_div_cancel _ hk] at hdiv
    rw [hdiv]
  · intro c
    simp only [List.mem_map, mem_rolledBack hk hempty hpages]
    constructor
    · rintro ⟨_, ⟨c', hc', hlim, rfl⟩, rfl⟩
      rw [Nat.mul_div_cancel _ hk]
      exact ⟨hc', hlim⟩
    · rintro ⟨hc, hlim⟩
      exact ⟨_, ⟨c, hc, hlim, rfl⟩, Nat.mul_div_cancel _ hk⟩
  · rw [rollBackOps, flatMap_ite, freed_map_free, List.map_map]
    refine List.map_congr_left ?_
    intro x hx
    obtain ⟨c, -, -, rfl⟩ := (mem_rolledBack hk hempty hpages).1 hx
    rw [comp_apply, Nat.mul_div_cancel _ hk]

variable (virtToPhys) in
include hk hempty in
/-- The destructor frees each cluster whose first object is below the number of objects. -/
theorem freed_destroyOps (pageSize t : ℕ) (hpages : ∀ c < m, getFreePages c ≠ 0) :
    ∃ l : List ℕ, l.Nodup ∧ (∀ c, c ∈ l ↔ c < m ∧ c * pool.clstNEntries < t) ∧
      freed (dpaDestroyObjAllocatorOps pageSize
        ((pool.filled getFreePages virtToPhys m).cut t)) = l.map fun c ↦
          freedPages pageSize (pool.filled getFreePages virtToPhys m) (c * pool.clstNEntries) := by
  refine ⟨(List.range ((t + pool.clstNEntries - 1) / pool.clstNEntries)).filter fun c ↦
    ((pool.filled getFreePages virtToPhys m).addrTbl (c * pool.clstNEntries)).vaddr ≠ 0,
    List.nodup_range.filter _, ?_, ?_⟩
  · intro c
    rw [List.mem_filter, List.mem_range, decide_eq_true_eq]
    have hcount : c < (t + pool.clstNEntries - 1) / pool.clstNEntries ↔
        c * pool.clstNEntries < t := by
      rw [Nat.lt_div_iff_mul_lt hk]
      omega
    rw [hcount, and_comm]
    refine and_congr_left fun _ ↦ ⟨fun hne ↦ ?_, fun hc ↦ filled_base hk hc ▸ hpages c hc⟩
    by_contra hout
    exact hne (filled_rest hempty (Nat.mul_le_mul_right _ (not_lt.1 hout)))
  · rw [dpaDestroyObjAllocatorOps, flatMap_ite, freed_map_free]
    rfl

end

end Dpa.Kernel
