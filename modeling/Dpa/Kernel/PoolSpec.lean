import Dpa.Kernel.Pool

namespace Dpa.Kernel

open Function Library MachineWord Bitmap Loop

namespace PoolMemory

variable (s : PoolMemory) (p q : PoolId) (w w' : PoolWords)

@[simp] theorem set_words : (s.set p w).words = update s.words p w := rfl

@[simp] theorem set_locked : (s.set p w).locked = s.locked := rfl

@[simp] theorem set_set : (s.set p w).set p w' = s.set p w' := by
  rw [set, set, set, update_idem]

@[simp] theorem set_self : s.set p (s.words p) = s := by
  rw [set, update_eq_self]

end PoolMemory

namespace PoolWords

def take (w : PoolWords) (x : ℕ) : PoolWords := ⟨w.objFree - 1, clearBit w.bitmap x⟩

def put (w : PoolWords) (x : ℕ) : PoolWords := ⟨w.objFree + 1, setBit w.bitmap x⟩

end PoolWords

/-- A pool of which every cluster is there: the clusters lie apart and hold their objects. -/
structure DpaObjPool.Sound (pool : DpaObjPool) : Prop where
  entries_pos : 0 < pool.clstNEntries
  objSize_pos : 0 < pool.objSize
  clstSize_pos : 0 < pool.clstSize
  fits : pool.clstNEntries * pool.objSize ≤ pool.clstSize
  total : pool.objTotal = pool.numClusters * pool.clstNEntries
  two_le : 2 ≤ pool.objTotal
  bitmap : pool.objTotal ≤ 32 * pool.bitmapLen
  vaddr : ∀ x < pool.objTotal, (pool.addrTbl x).vaddr =
    clusterBase pool (x / pool.clstNEntries) + x % pool.clstNEntries * pool.objSize
  base_ne : ∀ c < pool.numClusters, clusterBase pool c ≠ 0
  apart : ∀ c < pool.numClusters, ∀ c' < pool.numClusters, c ≠ c' →
    clusterBase pool c + pool.clstSize ≤ clusterBase pool c' ∨
      clusterBase pool c' + pool.clstSize ≤ clusterBase pool c

/-- `_mem_total` is the exact size, so that a release by address finds every cluster. -/
def DpaObjPool.Mapped (pool : DpaObjPool) : Prop :=
  pool.memTotal = pool.numClusters * pool.clstSize

/-- The words say that the objects of `F` are free. -/
structure Represents (pool : DpaObjPool) (w : PoolWords) (F : Finset ℕ) : Prop where
  range : ∀ x ∈ F, 2 ≤ x ∧ x < pool.objTotal
  bits : ∀ x < pool.objTotal, bit w.bitmap x = decide (x ∈ F)
  count : w.objFree = F.card

def IsObject (pool : DpaObjPool) (vaddr x : ℕ) : Prop :=
  2 ≤ x ∧ x < pool.objTotal ∧ vaddr = (pool.addrTbl x).vaddr

section

variable {pools : PoolId → DpaObjPool} {p : PoolId} {i : ℕ} {s : PoolMemory} {α : Type}

theorem run_loadWord_bind (h : i < (pools p).bitmapLen) (f : BitVec 32 → PoolProgram α) :
    (loadWord p i >>= f).run (access pools) s =
      (f ((s.words p).bitmap i)).run (access pools) s :=
  Program.run_act_of (R := PoolAccess.Answer) (a := .loadWord p i) (if_pos h) f

theorem run_loadFree_bind (f : ℕ → PoolProgram α) :
    (loadFree p >>= f).run (access pools) s = (f (s.words p).objFree).run (access pools) s :=
  Program.run_act_of (R := PoolAccess.Answer) (a := .loadFree p) rfl f

theorem run_changeWord (h : i < (pools p).bitmapLen) (op : BitVec 32 → BitVec 32) :
    (changeWord p i op).run (access pools) s = some ((), s.set p
      { s.words p with bitmap := update (s.words p).bitmap i (op ((s.words p).bitmap i)) }) := by
  rw [changeWord, run_loadWord_bind h, Program.run_perform, access, if_pos h]

theorem run_changeFree (op : ℕ → ℕ) :
    (changeFree p op).run (access pools) s =
      some ((), s.set p { s.words p with objFree := op (s.words p).objFree }) := by
  rw [changeFree, run_loadFree_bind, Program.run_perform, access]

end

section

variable {pool : DpaObjPool} (hp : pool.Sound) {c n x : ℕ}

include hp

theorem DpaObjPool.Sound.div_lt (hx : x < pool.objTotal) :
    x / pool.clstNEntries < pool.numClusters := by
  rw [hp.total] at hx
  exact Nat.div_lt_of_lt_mul (by rwa [Nat.mul_comm])

theorem DpaObjPool.Sound.mod_le (x : ℕ) :
    x % pool.clstNEntries * pool.objSize + pool.objSize ≤ pool.clstSize := by
  have hmod := Nat.mod_lt x hp.entries_pos
  have hmul := Nat.mul_le_mul_right pool.objSize hmod
  rw [Nat.succ_mul] at hmul
  exact hmul.trans hp.fits

theorem DpaObjPool.Sound.vaddr_ne (hx : x < pool.objTotal) : (pool.addrTbl x).vaddr ≠ 0 := by
  have hbase := hp.base_ne _ (hp.div_lt hx)
  rw [hp.vaddr x hx]
  omega

theorem findCluster_eq {ofs : ℕ} (hc : c < pool.numClusters) (hn : c < n) (hofs : ofs < pool.clstSize) :
    findCluster pool (clusterBase pool c + ofs) n = some c := by
  rw [findCluster, List.find?_range_eq_some]
  simp only [decide_eq_true_eq, List.mem_range, Bool.not_eq_true', decide_eq_false_iff_not]
  refine ⟨⟨by omega, by omega⟩, hn, fun c' hc' ↦ ?_⟩
  have hapart := hp.apart c hc c' (hc'.trans hc) (by omega)
  omega

theorem findCluster_vaddr (hx : x < pool.objTotal) (hn : x / pool.clstNEntries < n) :
    findCluster pool (pool.addrTbl x).vaddr n = some (x / pool.clstNEntries) := by
  have hmod := hp.mod_le x
  have hpos := hp.objSize_pos
  rw [hp.vaddr x hx]
  exact findCluster_eq hp (hp.div_lt hx) hn (by omega)

theorem vaIndex_vaddr (hm : pool.Mapped) (hx : x < pool.objTotal) :
    vaIndex pool (pool.addrTbl x).vaddr = some x := by
  have hn : pool.memTotal / pool.clstSize = pool.numClusters := by
    rw [hm, Nat.mul_div_cancel _ hp.clstSize_pos]
  have hsub : (pool.addrTbl x).vaddr - clusterBase pool (x / pool.clstNEntries) =
      x % pool.clstNEntries * pool.objSize := by
    rw [hp.vaddr x hx, Nat.add_sub_cancel_left]
  rw [vaIndex, hn, findCluster_vaddr hp hx (hp.div_lt hx), Option.map_some, hsub,
    Nat.mul_div_cancel _ hp.objSize_pos, Nat.div_add_mod']

theorem dpaObjOffset_vaddr (hx : x < pool.objTotal) :
    dpaObjOffset pool (pool.addrTbl x).vaddr =
      x / pool.clstNEntries * pool.clstSize + x % pool.clstNEntries * pool.objSize := by
  have hn : (pool.objTotal + pool.clstNEntries - 1) / pool.clstNEntries = pool.numClusters := by
    have hpos := hp.entries_pos
    rw [hp.total, Nat.add_sub_assoc hpos, Nat.mul_comm, Nat.mul_add_div hpos,
      Nat.div_eq_of_lt (Nat.sub_one_lt hpos.ne'), Nat.add_zero]
  rw [dpaObjOffset, hn, findCluster_vaddr hp hx (hp.div_lt hx)]
  dsimp only
  rw [hp.vaddr x hx, Nat.add_sub_cancel_left]

theorem vaddr_apart {y : ℕ} (hx : x < pool.objTotal) (hy : y < pool.objTotal) (hxy : x ≠ y) :
    (pool.addrTbl x).vaddr + pool.objSize ≤ (pool.addrTbl y).vaddr ∨
      (pool.addrTbl y).vaddr + pool.objSize ≤ (pool.addrTbl x).vaddr := by
  have hmx := hp.mod_le x
  have hmy := hp.mod_le y
  rw [hp.vaddr x hx, hp.vaddr y hy]
  by_cases hdiv : x / pool.clstNEntries = y / pool.clstNEntries
  · rw [hdiv]
    have hmod : x % pool.clstNEntries ≠ y % pool.clstNEntries := by
      intro hmod
      exact hxy ((eq_iff_div_mod pool.clstNEntries y x).2 ⟨hdiv, hmod⟩)
    rcases hmod.lt_or_gt with hlt | hlt
    · have hmul := Nat.mul_le_mul_right pool.objSize hlt
      rw [Nat.succ_mul] at hmul
      omega
    · have hmul := Nat.mul_le_mul_right pool.objSize hlt
      rw [Nat.succ_mul] at hmul
      omega
  · have hapart := hp.apart _ (hp.div_lt hx) _ (hp.div_lt hy) hdiv
    omega

theorem vaddr_injective {y : ℕ} (hx : x < pool.objTotal) (hy : y < pool.objTotal)
    (heq : (pool.addrTbl x).vaddr = (pool.addrTbl y).vaddr) : x = y := by
  by_contra hxy
  have hapart := vaddr_apart hp hx hy hxy
  have hpos := hp.objSize_pos
  omega

end

namespace Represents

variable {pool : DpaObjPool} {w w' : PoolWords} {F : Finset ℕ} {x : ℕ}

theorem eq_bits (h : Represents pool w F) : F = Bitmap.bits 2 pool.objTotal w.bitmap := by
  ext y
  rw [mem_bits]
  refine ⟨fun hy ↦ ?_, ?_⟩
  · have hrange := h.range y hy
    refine ⟨hrange, ?_⟩
    rw [h.bits y hrange.2]
    exact decide_eq_true hy
  · rintro ⟨hrange, hbit⟩
    rw [h.bits y hrange.2] at hbit
    exact of_decide_eq_true hbit

theorem take (h : Represents pool w F) (hx : x ∈ F) : Represents pool (w.take x) (F.erase x) where
  range y hy := h.range y (Finset.mem_of_mem_erase hy)
  bits y hy := by
    rw [PoolWords.take, bit_clearBit (by decide), h.bits y hy, ← Bool.decide_and]
    simp only [Finset.mem_erase, and_comm]
  count := by
    rw [PoolWords.take, Finset.card_erase_of_mem hx, h.count]

theorem put (h : Represents pool w F) (hx : x ∉ F) (hrange : 2 ≤ x ∧ x < pool.objTotal) :
    Represents pool (w.put x) (insert x F) where
  range y hy := by
    rcases Finset.mem_insert.1 hy with rfl | hy
    · exact hrange
    · exact h.range y hy
  bits y hy := by
    rw [PoolWords.put, bit_setBit (by decide), h.bits y hy, ← Bool.decide_or]
    simp only [Finset.mem_insert, or_comm]
  count := by
    rw [PoolWords.put, Finset.card_insert_of_notMem hx, h.count]

theorem first_mem (h : Represents pool w F) (hp : pool.Sound) (hF : F.Nonempty) :
    first w.bitmap pool.bitmapLen ∈ F ∧
      leading (fun i ↦ w.bitmap i = 0) pool.bitmapLen < pool.bitmapLen := by
  obtain ⟨y, hy⟩ := hF
  have hrange := h.range y hy
  have hbit : bit w.bitmap y = true := by
    rw [h.bits y hrange.2]
    exact decide_eq_true hy
  have hlen := hp.bitmap
  have hword : y / 32 < pool.bitmapLen := by omega
  have hle := first_le hbit hword
  have hfirst := bit_first hbit hword
  rw [h.bits _ (hle.trans_lt hrange.2)] at hfirst
  exact ⟨of_decide_eq_true hfirst, (leading_le_of_bit hbit _).trans_lt hword⟩

end Represents

section

variable {pools : PoolId → DpaObjPool} {p : PoolId} {s : PoolMemory} {i j x fuel : ℕ}
  {len : ℤ} {F : Finset ℕ}

/-- The scan goes over the empty words and takes the first set bit. -/
theorem run_mallocLoop (hp : (pools p).Sound) (h : Represents (pools p) (s.words p) F)
    (hF : F.Nonempty)
    (hi : i ≤ leading (fun i ↦ (s.words p).bitmap i = 0) (pools p).bitmapLen)
    (hfuel : leading (fun i ↦ (s.words p).bitmap i = 0) (pools p).bitmapLen < i + fuel) :
    (mallocLoop (pools p) p fuel i).run (access pools) s =
      some (((pools p).addrTbl (first (s.words p).bitmap (pools p).bitmapLen)).vaddr,
        s.set p ((s.words p).take (first (s.words p).bitmap (pools p).bitmapLen))) := by
  obtain ⟨hmem, hlead⟩ := h.first_mem hp hF
  induction fuel generalizing i with
  | zero => omega
  | succ fuel ih =>
    rw [mallocLoop, run_loadWord_bind (hi.trans_lt hlead)]
    rcases hi.lt_or_eq with hlt | rfl
    · rw [if_pos (of_decide_eq_true (of_lt_leading hlt))]
      exact ih hlt (by omega)
    · have hword := of_decide_eq_false (leading_fails hlead)
      have hne := hp.vaddr_ne (h.range _ hmem).2
      have hlow := lowest_lt hword
      rw [first] at hne
      rw [if_neg hword, Program.run_bind_of (run_changeWord hlead _),
        Program.run_bind_of (run_changeFree _), if_neg hne]
      rw [Program.pure_eq, Program.run_ret, PoolMemory.set_set, PoolMemory.set_words, update_self,
        PoolWords.take, first, clearBit]
      have hdiv : (leading (fun i ↦ (s.words p).bitmap i = 0) (pools p).bitmapLen * 32 +
          lowest ((s.words p).bitmap
            (leading (fun i ↦ (s.words p).bitmap i = 0) (pools p).bitmapLen))) / 32 =
          leading (fun i ↦ (s.words p).bitmap i = 0) (pools p).bitmapLen := by omega
      have hmod : (leading (fun i ↦ (s.words p).bitmap i = 0) (pools p).bitmapLen * 32 +
          lowest ((s.words p).bitmap
            (leading (fun i ↦ (s.words p).bitmap i = 0) (pools p).bitmapLen))) % 32 =
          lowest ((s.words p).bitmap
            (leading (fun i ↦ (s.words p).bitmap i = 0) (pools p).bitmapLen)) := by omega
      rw [hdiv, hmod]

theorem run_dpaObjMalloc (hp : (pools p).Sound) (h : Represents (pools p) (s.words p) F)
    (hF : F.Nonempty) (hlen : u32 len ≤ (pools p).objSize) :
    (dpaObjMalloc (pools p) p len).run (access pools) s =
      some (((pools p).addrTbl (first (s.words p).bitmap (pools p).bitmapLen)).vaddr,
        s.set p ((s.words p).take (first (s.words p).bitmap (pools p).bitmapLen))) := by
  have hcount : (s.words p).objFree ≠ 0 := by
    rw [h.count]
    exact Finset.card_ne_zero.2 hF
  have hle := leading_le (fun i ↦ (s.words p).bitmap i = 0) (pools p).bitmapLen
  rw [dpaObjMalloc, if_neg (not_lt.2 hlen), run_loadFree_bind, if_neg hcount]
  exact run_mallocLoop hp h hF (Nat.zero_le _) (by omega)

theorem run_dpaObjMalloc_none (h : Represents (pools p) (s.words p) F)
    (hfail : F = ∅ ∨ (pools p).objSize < u32 len) :
    (dpaObjMalloc (pools p) p len).run (access pools) s = some (0, s) := by
  rw [dpaObjMalloc]
  by_cases hlen : u32 len > (pools p).objSize
  · rw [if_pos hlen]
    rfl
  · have hcount : (s.words p).objFree = 0 := by
      rw [h.count, hfail.resolve_right hlen, Finset.card_empty]
    rw [if_neg hlen, run_loadFree_bind, if_pos hcount]
    rfl

theorem run_dpaObjFree (hp : (pools p).Sound) (hj : j < (pools p).objTotal) :
    (dpaObjFree (pools p) p j).run (access pools) s =
      some ((), s.set p ((s.words p).put j)) := by
  have hlen := hp.bitmap
  rw [dpaObjFree, if_neg (not_le.2 hj), Program.run_bind_of (run_changeWord (by omega) _),
    run_changeFree, PoolMemory.set_set, PoolMemory.set_words, update_self, PoolWords.put, setBit]

theorem run_dpaObjFreeVa (hp : (pools p).Sound) (hm : (pools p).Mapped) (hx : x < (pools p).objTotal) :
    (dpaObjFreeVa (pools p) p ((pools p).addrTbl x).vaddr).run (access pools) s =
      some ((), s.set p ((s.words p).put x)) := by
  rw [dpaObjFreeVa, vaIndex_vaddr hp hm hx]
  exact run_dpaObjFree hp hx

theorem run_dpaFreeBuf (hp : (pools .bufPool).Sound) (hx : 2 ≤ x ∧ x < (pools .bufPool).objTotal) :
    (dpaFreeBuf (pools .bufPool) x).run (access pools) s =
      some ((), s.set .bufPool ((s.words .bufPool).put x)) := by
  rw [dpaFreeBuf, if_neg (by omega)]
  exact run_dpaObjFree hp hx.2

end

end Dpa.Kernel
