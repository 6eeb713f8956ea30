import Dpa.Kernel.PoolBuild
import Dpa.Library.Machine

namespace Dpa.Kernel

open Function Library MachineWord Bitmap

/-- A pool asked of `dpa_new_obj_allocator` that has its pages and whose memory can be counted in
32 bits. -/
structure PoolRequest (pageSize : ℕ) where
  getFreePages : ℕ → ℕ
  virtToPhys : ℕ → ℕ
  objTotal : ℕ
  objSize : ℕ
  objSize_pos : 0 < objSize
  objSize_lt : objSize < clusterMaxSize
  memory_lt : exactMemory pageSize objTotal objSize < 2 ^ 32
  pages : PagesFor getFreePages (exactClusters pageSize objTotal objSize)
    (exactClusterSize pageSize objSize)

namespace PoolRequest

variable {pageSize k : ℕ}

def pool (r : PoolRequest pageSize) : DpaObjPool :=
  fullPool r.getFreePages r.virtToPhys pageSize r.objTotal r.objSize

theorem countable (hpage : pageSize = 2 ^ k) (r : PoolRequest pageSize) :
    Countable pageSize r.objTotal r.objSize :=
  .of_memory hpage r.objSize_pos r.objSize_lt r.memory_lt

theorem sound (hpage : pageSize = 2 ^ k) (r : PoolRequest pageSize) : r.pool.Sound :=
  fullPool_sound hpage r.objSize_pos r.objSize_lt (r.countable hpage) r.pages

theorem mapped (hpage : pageSize = 2 ^ k) (r : PoolRequest pageSize) : r.pool.Mapped :=
  fullPool_mapped hpage r.objSize_pos r.objSize_lt r.memory_lt

def build (r : PoolRequest pageSize) : Option (DpaObjPool × PoolWords) :=
  dpaNewObjAllocator r.getFreePages r.virtToPhys pageSize r.objTotal r.objSize

theorem of_build (hpage : pageSize = 2 ^ k) (r : PoolRequest pageSize) {pool : DpaObjPool}
    {w : PoolWords} (h : r.build = some (pool, w)) :
    pool = r.pool ∧ Represents pool w (Finset.Ico 2 pool.objTotal) := by
  obtain ⟨w', heq, hw⟩ := dpaNewObjAllocator_eq r.virtToPhys hpage r.objSize_pos
    r.objSize_lt (r.countable hpage) r.pages
  obtain ⟨rfl, rfl⟩ := Prod.mk.inj (Option.some.inj (heq.symm.trans h))
  exact ⟨rfl, hw⟩

end PoolRequest

inductive PoolOp
  | malloc (p : PoolId) (len : ℤ)
  | freeVa (p : PoolId) (vaddr : ℕ)
  | freeBuf (i : ℕ)

/-- The pools, with the addresses that have been handed out and not been released. -/
structure PoolState where
  memory : PoolMemory
  held : PoolId → Finset ℕ

def PoolState.init (words : PoolId → PoolWords) : PoolState := ⟨⟨words, false⟩, fun _ ↦ ∅⟩

/-- A call of a pool function; only what is held is released. -/
def poolExec (pools : PoolId → DpaObjPool) (s : PoolState) : PoolOp → Option PoolState
  | .malloc p len =>
    ((dpaObjMalloc (pools p) p len).run (access pools) s.memory).map fun r ↦
      ⟨r.2, if r.1 = 0 then s.held else update s.held p (insert r.1 (s.held p))⟩
  | .freeVa p vaddr =>
    if vaddr ∈ s.held p then
      ((dpaObjFreeVa (pools p) p vaddr).run (access pools) s.memory).map fun r ↦
        ⟨r.2, update s.held p ((s.held p).erase vaddr)⟩
    else none
  | .freeBuf i =>
    let vaddr := ((pools .bufPool).addrTbl i).vaddr
    if i < (pools .bufPool).objTotal ∧ vaddr ∈ s.held .bufPool then
      ((dpaFreeBuf (pools .bufPool) i).run (access pools) s.memory).map fun r ↦
        ⟨r.2, update s.held .bufPool ((s.held .bufPool).erase vaddr)⟩
    else none

def notHeld (pool : DpaObjPool) (held : Finset ℕ) : Finset ℕ :=
  (Finset.Ico 2 pool.objTotal).filter fun x ↦ (pool.addrTbl x).vaddr ∉ held

def PoolInv (pools : PoolId → DpaObjPool) (s : PoolState) : Prop :=
  ∀ p, Represents (pools p) (s.memory.words p) (notHeld (pools p) (s.held p)) ∧
    ∀ vaddr ∈ s.held p, ∃ x, IsObject (pools p) vaddr x

section

variable {pool : DpaObjPool} {held : Finset ℕ} {x : ℕ}

theorem mem_notHeld : x ∈ notHeld pool held ↔
    (2 ≤ x ∧ x < pool.objTotal) ∧ (pool.addrTbl x).vaddr ∉ held := by
  rw [notHeld, Finset.mem_filter, Finset.mem_Ico]

theorem notHeld_insert (hp : pool.Sound) (hx : x < pool.objTotal) :
    notHeld pool (insert (pool.addrTbl x).vaddr held) = (notHeld pool held).erase x := by
  ext y
  rw [mem_notHeld, Finset.mem_erase, mem_notHeld, Finset.mem_insert, not_or]
  constructor
  · rintro ⟨hrange, hne, hheld⟩
    exact ⟨fun h ↦ hne (by rw [h]), hrange, hheld⟩
  · rintro ⟨hne, hrange, hheld⟩
    exact ⟨hrange, fun h ↦ hne (vaddr_injective hp hrange.2 hx h), hheld⟩

theorem notHeld_erase (hp : pool.Sound) (hx : 2 ≤ x ∧ x < pool.objTotal) :
    notHeld pool (held.erase (pool.addrTbl x).vaddr) = insert x (notHeld pool held) := by
  ext y
  rw [mem_notHeld, Finset.mem_insert, mem_notHeld, Finset.mem_erase, not_and_or, not_not]
  constructor
  · rintro ⟨hrange, heq | hheld⟩
    · exact .inl (vaddr_injective hp hrange.2 hx.2 heq)
    · exact .inr ⟨hrange, hheld⟩
  · rintro (rfl | ⟨hrange, hheld⟩)
    · exact ⟨hx, .inl rfl⟩
    · exact ⟨hrange, .inr hheld⟩

end

section

variable {pools : PoolId → DpaObjPool} {p : PoolId} {s s' : PoolState} {x : ℕ}

theorem PoolInv.update (h : PoolInv pools s) {w : PoolWords} {held : Finset ℕ}
    (hw : Represents (pools p) w (notHeld (pools p) held))
    (hheld : ∀ vaddr ∈ held, ∃ x, IsObject (pools p) vaddr x) :
    PoolInv pools ⟨s.memory.set p w, Function.update s.held p held⟩ := by
  intro q
  by_cases hq : q = p
  · subst hq
    simp only [PoolMemory.set_words, update_self]
    exact ⟨hw, hheld⟩
  · simp only [PoolMemory.set_words, update_of_ne hq]
    exact h q

theorem PoolInv.take (hp : (pools p).Sound) (h : PoolInv pools s)
    (hx : x ∈ notHeld (pools p) (s.held p)) :
    PoolInv pools ⟨s.memory.set p ((s.memory.words p).take x),
      Function.update s.held p (insert ((pools p).addrTbl x).vaddr (s.held p))⟩ := by
  have hrange := (mem_notHeld.1 hx).1
  refine h.update ?_ ?_
  · rw [notHeld_insert hp hrange.2]
    exact (h p).1.take hx
  · intro vaddr hv
    rcases Finset.mem_insert.1 hv with rfl | hv
    · exact ⟨x, hrange.1, hrange.2, rfl⟩
    · exact (h p).2 vaddr hv

theorem PoolInv.put (hp : (pools p).Sound) (h : PoolInv pools s) (hx : 2 ≤ x ∧ x < (pools p).objTotal)
    (hheld : ((pools p).addrTbl x).vaddr ∈ s.held p) :
    PoolInv pools ⟨s.memory.set p ((s.memory.words p).put x),
      Function.update s.held p ((s.held p).erase ((pools p).addrTbl x).vaddr)⟩ := by
  refine h.update ?_ fun vaddr hv ↦ (h p).2 vaddr (Finset.mem_of_mem_erase hv)
  rw [notHeld_erase hp hx]
  exact (h p).1.put (fun hmem ↦ (mem_notHeld.1 hmem).2 hheld) hx

theorem poolExec_inv (hp : ∀ p, (pools p).Sound)
    (hmap : ∀ p, (pools p).Mapped) (h : PoolInv pools s) {op : PoolOp}
    (heq : poolExec pools s op = some s') : PoolInv pools s' := by
  cases op with
  | malloc p len =>
    rw [poolExec] at heq
    by_cases hok : (notHeld (pools p) (s.held p)).Nonempty ∧ u32 len ≤ (pools p).objSize
    · have hmem := ((h p).1.first_mem (hp p) hok.1).1
      have hne := (hp p).vaddr_ne ((h p).1.range _ hmem).2
      rw [run_dpaObjMalloc (hp p) (h p).1 hok.1 hok.2, Option.map_some, if_neg hne] at heq
      obtain rfl := Option.some.inj heq
      exact h.take (hp p) hmem
    · rw [run_dpaObjMalloc_none (h p).1 (by rw [← Finset.not_nonempty_iff_eq_empty, ← not_le]; tauto),
        Option.map_some, if_pos rfl] at heq
      obtain rfl := Option.some.inj heq
      exact h
  | freeVa p vaddr =>
    rw [poolExec] at heq
    split_ifs at heq with hheld
    obtain ⟨x, hx, hx', rfl⟩ := (h p).2 vaddr hheld
    rw [run_dpaObjFreeVa (hp p) (hmap p) hx', Option.map_some] at heq
    obtain rfl := Option.some.inj heq
    exact h.put (hp p) ⟨hx, hx'⟩ hheld
  | freeBuf i =>
    rw [poolExec] at heq
    split_ifs at heq with hheld
    obtain ⟨x, hx, hx', hv⟩ := (h .bufPool).2 _ hheld.2
    obtain rfl := vaddr_injective (hp .bufPool) hheld.1 hx' hv
    rw [run_dpaFreeBuf (hp .bufPool) ⟨hx, hx'⟩, Option.map_some] at heq
    obtain rfl := Option.some.inj heq
    exact h.put (hp .bufPool) ⟨hx, hx'⟩ hheld.2

theorem PoolInv.init {words : PoolId → PoolWords}
    (h : ∀ p, Represents (pools p) (words p) (Finset.Ico 2 (pools p).objTotal)) :
    PoolInv pools (.init words) := by
  intro p
  have hnone : notHeld (pools p) ∅ = Finset.Ico 2 (pools p).objTotal :=
    Finset.filter_true_of_mem fun x _ ↦ Finset.notMem_empty _
  refine ⟨?_, fun vaddr hv ↦ absurd hv (Finset.notMem_empty _)⟩
  exact hnone ▸ h p

theorem run_poolInv (hp : ∀ p, (pools p).Sound)
    (hmap : ∀ p, (pools p).Mapped) (h : PoolInv pools s) {ops : List PoolOp}
    (hrun : run (poolExec pools) ops s = some s') : PoolInv pools s' :=
  run_preserves (fun _ _ _ hs heq ↦ poolExec_inv hp hmap hs heq) h hrun

end

section

variable {pools : PoolId → DpaObjPool} {p : PoolId} {s : PoolState}

theorem PoolInv.objFree (h : PoolInv pools s) : (s.memory.words p).objFree =
    (bits 2 (pools p).objTotal (s.memory.words p).bitmap).card := by
  rw [← (h p).1.eq_bits]
  exact (h p).1.count

theorem PoolInv.malloc (hp : ∀ p, (pools p).Sound) (h : PoolInv pools s) (len : ℤ) :
    ∃ vaddr memory,
      (dpaObjMalloc (pools p) p len).run (access pools) s.memory = some (vaddr, memory) ∧
      (vaddr ≠ 0 ↔ 0 < (s.memory.words p).objFree ∧ u32 len ≤ (pools p).objSize) ∧
      (vaddr = 0 → memory = s.memory) ∧
      (vaddr ≠ 0 → vaddr ∉ s.held p ∧ ∃ x, IsObject (pools p) vaddr x ∧
        bit (s.memory.words p).bitmap x = true ∧
        memory = s.memory.set p ((s.memory.words p).take x)) := by
  have hrep := (h p).1
  by_cases hok : (notHeld (pools p) (s.held p)).Nonempty ∧ u32 len ≤ (pools p).objSize
  · have hmem := (hrep.first_mem (hp p) hok.1).1
    obtain ⟨hrange, hheld⟩ := mem_notHeld.1 hmem
    have hne := (hp p).vaddr_ne hrange.2
    refine ⟨_, _, run_dpaObjMalloc (hp p) hrep hok.1 hok.2, ?_, fun h0 ↦ absurd h0 hne, fun _ ↦ ?_⟩
    · rw [hrep.count, Finset.card_pos]
      exact ⟨fun _ ↦ hok, fun _ ↦ hne⟩
    · refine ⟨hheld, _, ⟨hrange.1, hrange.2, rfl⟩, ?_, rfl⟩
      rw [hrep.bits _ hrange.2]
      exact decide_eq_true hmem
  · refine ⟨0, s.memory, run_dpaObjMalloc_none hrep ?_, ?_, fun _ ↦ rfl, fun h0 ↦ absurd rfl h0⟩
    · rw [← Finset.not_nonempty_iff_eq_empty, ← not_le]
      tauto
    · rw [hrep.count, Finset.card_pos]
      exact ⟨fun h0 ↦ absurd rfl h0, fun h' ↦ absurd h' hok⟩

/-- A held object is not free, and releasing it, by address or by index, sets its bit and nothing
else. -/
theorem PoolInv.release (hp : ∀ p, (pools p).Sound)
    (hmap : ∀ p, (pools p).Mapped) (h : PoolInv pools s) {vaddr : ℕ}
    (hheld : vaddr ∈ s.held p) :
    ∃ x, IsObject (pools p) vaddr x ∧ bit (s.memory.words p).bitmap x = false ∧
      (dpaObjFreeVa (pools p) p vaddr).run (access pools) s.memory =
        some ((), s.memory.set p ((s.memory.words p).put x)) := by
  obtain ⟨x, hx, hx', rfl⟩ := (h p).2 vaddr hheld
  refine ⟨x, ⟨hx, hx', rfl⟩, ?_, run_dpaObjFreeVa (hp p) (hmap p) hx'⟩
  rw [(h p).1.bits x hx']
  exact decide_eq_false fun hmem ↦ (mem_notHeld.1 hmem).2 hheld

theorem PoolInv.releaseBuf (hp : ∀ p, (pools p).Sound)
    (hmap : ∀ p, (pools p).Mapped) (h : PoolInv pools s) {i : ℕ}
    (hi : i < (pools .bufPool).objTotal)
    (hheld : ((pools .bufPool).addrTbl i).vaddr ∈ s.held .bufPool) :
    bit (s.memory.words .bufPool).bitmap i = false ∧
      (dpaFreeBuf (pools .bufPool) i).run (access pools) s.memory =
        some ((), s.memory.set .bufPool ((s.memory.words .bufPool).put i)) := by
  obtain ⟨x, ⟨hx, hx', hv⟩, hbit, -⟩ := h.release hp hmap hheld
  obtain rfl := vaddr_injective (hp .bufPool) hi hx' hv
  exact ⟨hbit, run_dpaFreeBuf (hp .bufPool) ⟨hx, hi⟩⟩

end

/-- After any calls on pools that `dpa_new_obj_allocator` built, the counter is right, and the next
allocation and the next release do what they should. -/
theorem dpaObjAllocator_correct {pageSize k : ℕ} (hpage : pageSize = 2 ^ k)
    (r : PoolId → PoolRequest pageSize) {pools : PoolId → DpaObjPool} {words : PoolId → PoolWords}
    (hbuilt : ∀ p, (r p).build = some (pools p, words p)) {ops : List PoolOp} {s : PoolState}
    (hrun : run (poolExec pools) ops (.init words) = some s) (p : PoolId) :
    (s.memory.words p).objFree = (bits 2 (pools p).objTotal (s.memory.words p).bitmap).card ∧
    (∀ len, ∃ vaddr memory,
      (dpaObjMalloc (pools p) p len).run (access pools) s.memory = some (vaddr, memory) ∧
      (vaddr ≠ 0 ↔ 0 < (s.memory.words p).objFree ∧ u32 len ≤ (pools p).objSize) ∧
      (vaddr = 0 → memory = s.memory) ∧
      (vaddr ≠ 0 → vaddr ∉ s.held p ∧ ∃ x, IsObject (pools p) vaddr x ∧
        bit (s.memory.words p).bitmap x = true ∧
        memory = s.memory.set p ((s.memory.words p).take x))) ∧
    (∀ vaddr ∈ s.held p, ∃ x, IsObject (pools p) vaddr x ∧
      bit (s.memory.words p).bitmap x = false ∧
      (dpaObjFreeVa (pools p) p vaddr).run (access pools) s.memory =
        some ((), s.memory.set p ((s.memory.words p).put x))) ∧
    (∀ i < (pools .bufPool).objTotal, ((pools .bufPool).addrTbl i).vaddr ∈ s.held .bufPool →
      bit (s.memory.words .bufPool).bitmap i = false ∧
        (dpaFreeBuf (pools .bufPool) i).run (access pools) s.memory =
          some ((), s.memory.set .bufPool ((s.memory.words .bufPool).put i))) := by
  have hp : ∀ p, (pools p).Sound := by
    intro p
    rw [((r p).of_build hpage (hbuilt p)).1]
    exact (r p).sound hpage
  have hmap : ∀ p, (pools p).Mapped := by
    intro p
    rw [((r p).of_build hpage (hbuilt p)).1]
    exact (r p).mapped hpage
  have hinit : PoolInv pools (.init words) :=
    .init fun p ↦ ((r p).of_build hpage (hbuilt p)).2
  have h := run_poolInv hp hmap hinit hrun
  exact ⟨h.objFree, h.malloc hp, fun vaddr hv ↦ h.release hp hmap hv,
    fun i hi hv ↦ h.releaseBuf hp hmap hi hv⟩

def fivePages : PoolRequest 4096 where
  getFreePages c := 4096 * (c + 1)
  virtToPhys := id
  objTotal := 3
  objSize := 4096
  objSize_pos := by decide
  objSize_lt := by decide
  memory_lt := by decide
  pages :=
    { available := fun c _ ↦ by omega
      apart := fun c _ c' _ hne ↦ by
        have hsize : exactClusterSize 4096 4096 = 4096 := by decide
        rw [hsize]
        omega }

theorem fivePages_build : fivePages.build.isSome = true := rfl

def fivePagesBuilt : DpaObjPool × PoolWords := fivePages.build.get fivePages_build

/-- Object 2 is taken and put back. -/
theorem dpaObjAllocator_correct_fivePages :
    ∃ s, run (poolExec fun _ ↦ fivePagesBuilt.1) [.malloc .bufPool 10, .freeBuf 2]
        (.init fun _ ↦ fivePagesBuilt.2) = some s ∧
      (s.memory.words .bufPool).objFree =
        (bits 2 fivePagesBuilt.1.objTotal (s.memory.words .bufPool).bitmap).card := by
  have hruns : (run (poolExec fun _ ↦ fivePagesBuilt.1) [.malloc .bufPool 10, .freeBuf 2]
      (.init fun _ ↦ fivePagesBuilt.2)).isSome = true := by decide +kernel
  have hrun := (Option.some_get hruns).symm
  exact ⟨_, hrun, (dpaObjAllocator_correct (k := 12) rfl (fun _ ↦ fivePages)
    (fun _ ↦ (Option.some_get fivePages_build).symm) hrun .bufPool).1⟩

end Dpa.Kernel
