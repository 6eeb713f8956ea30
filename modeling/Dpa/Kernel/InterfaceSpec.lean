import Dpa.Kernel.Interface
import Dpa.Kernel.PoolBatch

namespace Dpa.Kernel

open Function Library MachineWord PoolMemory

def slotIdxs (rx : RxRing) : List ℕ :=
  (List.range rx.kring.nkrNumSlots).map fun j ↦ (rx.ring.slot j).bufIdx

/-- The buffer indices that `dpa_free_buf` lets pass. -/
def validBufs (pool : DpaObjPool) (l : List ℕ) : List ℕ :=
  l.filter fun i ↦ 2 ≤ i ∧ i < pool.objTotal

section

variable (pools : PoolId → DpaObjPool)

def ringObj (rx : RxRing) : List ℕ :=
  if rx.ringVa = 0 then [] else (vaIndex (pools .ringPool) rx.ringVa).toList

def ringGrant (rx : RxRing) : PoolId → List ℕ
  | .ifPool => []
  | .ringPool => ringObj pools rx
  | .bufPool => slotIdxs rx

@[simp] theorem ringGrant_ifPool (rx : RxRing) : ringGrant pools rx .ifPool = [] := rfl

@[simp] theorem ringGrant_ringPool (rx : RxRing) :
    ringGrant pools rx .ringPool = ringObj pools rx := rfl

@[simp] theorem ringGrant_bufPool (rx : RxRing) : ringGrant pools rx .bufPool = slotIdxs rx := rfl

def ringGrants (rx : ℕ → RxRing) (l : List ℕ) (p : PoolId) : List ℕ :=
  l.flatMap fun j ↦ ringGrant pools (rx j) p

@[simp] theorem ringGrants_ifPool (rx : ℕ → RxRing) (l : List ℕ) :
    ringGrants pools rx l .ifPool = [] :=
  List.flatMap_eq_nil_iff.2 fun _ _ ↦ rfl

@[simp] theorem ringGrants_ringPool (rx : ℕ → RxRing) (l : List ℕ) :
    ringGrants pools rx l .ringPool = l.flatMap fun j ↦ ringObj pools (rx j) := rfl

@[simp] theorem ringGrants_bufPool (rx : ℕ → RxRing) (l : List ℕ) :
    ringGrants pools rx l .bufPool = l.flatMap fun j ↦ slotIdxs (rx j) := rfl

def Pointer (rx : RxRing) : Prop :=
  rx.ringVa = 0 ∨ ∃ x, IsObject (pools .ringPool) rx.ringVa x

/-- A ring as `dpa_new_if` leaves it, with its slots filled somehow. -/
def Filled (bufSize ndesc : ℕ) (rx : RxRing) : Prop :=
  ∃ x slot, IsObject (pools .ringPool) rx.ringVa x ∧
    rx = { newRing pools bufSize rx.ringVa ndesc with
      ring := { (newRing pools bufSize rx.ringVa ndesc).ring with slot := slot } }

def Enough (F : PoolId → Finset ℕ) (ndesc m : ℕ) : Prop :=
  m = 0 ∨ ringLen ndesc ≤ (pools .ringPool).objSize ∧ m ≤ (F .ringPool).card ∧
    m * ndesc ≤ (F .bufPool).card

/-- What the interface functions ask of the pools. Buffers fill their clusters; they are released by
index, so that their `_mem_total` may have wrapped. -/
structure SoundPools (bufSize : ℕ) : Prop where
  sound : ∀ p, (pools p).Sound
  ifMapped : (pools .ifPool).Mapped
  ringMapped : (pools .ringPool).Mapped
  packed : (pools .bufPool).clstSize = (pools .bufPool).clstNEntries * (pools .bufPool).objSize
  bufSize_le : u32 bufSize ≤ (pools .bufPool).objSize

end

section

variable {pools : PoolId → DpaObjPool} {bufSize : ℕ} (hp : SoundPools pools bufSize)
  {s : PoolMemory} {F : PoolId → Finset ℕ} {i j m n x ndesc : ℕ} {slot : ℕ → DpaSlot}

include hp

theorem dpaBufIndex_vaddr (hx : x < (pools .bufPool).objTotal) :
    dpaBufIndex (pools .bufPool) ((pools .bufPool).addrTbl x).vaddr = x := by
  have hpos := (hp.sound .bufPool).objSize_pos
  rw [dpaBufIndex, dpaObjOffset_vaddr (hp.sound .bufPool) hx, hp.packed, ← Nat.mul_assoc,
    ← Nat.add_mul, Nat.div_add_mod', Nat.mul_div_cancel x hpos]

omit hp in
theorem nonempty_of_card (h : m + 1 ≤ (F .bufPool).card) : (F .bufPool).Nonempty :=
  Finset.card_pos.1 (by omega)

def idxsFrom (slot : ℕ → DpaSlot) (i m : ℕ) : List ℕ :=
  (List.range' i m).map fun j ↦ (slot j).bufIdx

theorem run_newBufsLoop_ok (slot : ℕ → DpaSlot) (h : Represented pools s F) (hm : m ≤ (F .bufPool).card) :
    ∃ slot', (newBufsLoop pools bufSize n m i slot).run (access pools) s =
        some ((true, slot'), s.takeAll (only .bufPool (idxsFrom slot' i m))) ∧
      FreeObjs F (only .bufPool (idxsFrom slot' i m)) ∧ ∀ j < i, slot' j = slot j := by
  induction m generalizing i s F slot with
  | zero =>
    refine ⟨slot, ?_, ?_, fun j _ ↦ rfl⟩
    · rw [idxsFrom, List.range'_zero, List.map_nil, only_nil]
      rfl
    · rw [idxsFrom, List.range'_zero, List.map_nil, only_nil]
      exact FreeObjs.nil
  | succ m ih =>
    obtain ⟨x, hx, hrun⟩ :=
      run_malloc (hp.sound .bufPool) h (nonempty_of_card hm) (l := bufSize) hp.bufSize_le
    have hxt := ((h .bufPool).range x hx).2
    have hone : FreeObjs F (only .bufPool [x]) := .only hx
    have hcard := hone.card .bufPool
    rw [only_self, List.length_singleton] at hcard
    obtain ⟨slot', hrest, hfree, hkeep⟩ := ih (i := i + 1)
      (update slot i { slot i with
        bufIdx := dpaBufIndex (pools .bufPool) ((pools .bufPool).addrTbl x).vaddr
        len := u16 (pools .bufPool).objSize })
      (h.takeAll hone) (by rw [only_self]; omega)
    have hidx : idxsFrom slot' i (m + 1) = [x] ++ idxsFrom slot' (i + 1) m := by
      rw [idxsFrom, List.range'_succ, List.map_cons, hkeep i (Nat.lt_succ_self i), update_self,
        dpaBufIndex_vaddr hp hxt]
      rfl
    refine ⟨slot', ?_, ?_, fun j hj ↦ ?_⟩
    · rw [newBufsLoop, Program.run_bind_of hrun,
        if_neg ((hp.sound .bufPool).vaddr_ne hxt), hrest, takeAll_takeAll, only_append, hidx]
    · rw [hidx, ← only_append]
      exact hone.append hfree
    · rw [hkeep j (by omega), update_of_ne (by omega)]

omit hp in
/-- The loop that releases the buffers of the slots before `i` goes downwards. -/
theorem idxs_perm (slot : ℕ → DpaSlot) (i : ℕ) :
    ((List.range i).reverse.flatMap fun j ↦ [(slot j).bufIdx]).Perm (idxsFrom slot 0 i) := by
  rw [← List.map_eq_flatMap, idxsFrom, ← List.range_eq_range']
  exact (List.reverse_perm _).map _

omit hp in
theorem idxsFrom_update (slot : ℕ → DpaSlot) (i : ℕ) (new : DpaSlot) :
    idxsFrom (update slot i new) 0 (i + 1) = idxsFrom slot 0 i ++ [new.bufIdx] := by
  rw [idxsFrom, List.range'_1_concat, List.map_append, idxsFrom]
  congr 1
  · refine List.map_congr_left fun j hj ↦ ?_
    rw [update_of_ne (by have := List.mem_range'_1.1 hj; omega)]
  · simp

theorem run_release (h : Represented pools s F)
    (hheld : FreeObjs F (only .bufPool (idxsFrom slot 0 i))) :
    (Program.forEach (fun j ↦ dpaObjFree (pools .bufPool) .bufPool (slot j).bufIdx)
      (List.range i).reverse).run (access pools) (s.takeAll (only .bufPool (idxsFrom slot 0 i))) =
      some ((), s) := by
  have hidx : ∀ j ∈ (List.range i).reverse, (slot j).bufIdx < (pools .bufPool).objTotal := by
    intro j hj
    refine ((h .bufPool).range _ (hheld.of_only.2 _ (List.mem_map.2 ⟨j, ?_, rfl⟩))).2
    simpa [List.mem_range'_1] using hj
  rw [run_releases (i := fun j ↦ [(slot j).bufIdx])
    (fun j hj s ↦ run_free (hp.sound .bufPool) (hidx j hj) s)]
  rw [h.putAll_takeAll hheld (only_perm (idxs_perm slot i))]

omit hp in
theorem FreeObjs.card_idxs (hheld : FreeObjs F (PoolMemory.only .bufPool (idxsFrom slot i m))) :
    (F .bufPool \ (idxsFrom slot i m).toFinset).card + m = (F .bufPool).card := by
  have hcard := hheld.card .bufPool
  rwa [only_self, idxsFrom, List.length_map, List.length_range', ← idxsFrom] at hcard

theorem run_newBufsLoop_fail (slot : ℕ → DpaSlot) (h : Represented pools s F)
    (hheld : FreeObjs F (only .bufPool (idxsFrom slot 0 i))) (hm : (F .bufPool).card < i + m) :
    ∃ slot', (newBufsLoop pools bufSize n m i slot).run (access pools)
      (s.takeAll (only .bufPool (idxsFrom slot 0 i))) = some ((false, slot'), s) := by
  induction m generalizing i slot with
  | zero =>
    have hcard := hheld.card_idxs
    omega
  | succ m ih =>
    have htaken := h.takeAll hheld
    rw [newBufsLoop]
    rcases (F .bufPool \ (idxsFrom slot 0 i).toFinset).eq_empty_or_nonempty with hempty | hsome
    · have hnone := run_malloc_none htaken (l := bufSize) (.inl (by rwa [only_self]))
      refine ⟨fun j ↦ if j < n then zeroSlot else slot j, ?_⟩
      rw [Program.run_bind_of hnone, if_pos rfl, Program.run_bind_of (run_release hp h hheld)]
      rfl
    · obtain ⟨x, hx, hrun⟩ := run_malloc (hp.sound .bufPool) htaken
        (by rwa [only_self]) (l := bufSize) hp.bufSize_le
      have hxt := ((htaken .bufPool).range x hx).2
      have hidx := idxsFrom_update slot i
        { slot i with bufIdx := x, len := u16 (pools .bufPool).objSize }
      have hheld' := hheld.append (FreeObjs.only hx)
      rw [only_append, ← hidx] at hheld'
      obtain ⟨slot', hrest⟩ := ih _ hheld' (by omega)
      refine ⟨slot', ?_⟩
      rw [Program.run_bind_of hrun, if_neg ((hp.sound .bufPool).vaddr_ne hxt),
        dpaBufIndex_vaddr hp hxt, takeAll_takeAll, only_append]
      rwa [hidx] at hrest

theorem ringObj_eq {rx : RxRing} (hx : IsObject (pools .ringPool) rx.ringVa x) :
    ringObj pools rx = [x] := by
  have hne : rx.ringVa ≠ 0 := by
    rw [hx.2.2]
    exact (hp.sound .ringPool).vaddr_ne hx.2.1
  rw [ringObj, if_neg hne, hx.2.2, vaIndex_vaddr (hp.sound .ringPool) hp.ringMapped hx.2.1, Option.toList_some]

omit hp in
theorem flatMap_validBufs (pool : DpaObjPool) (f : ℕ → ℕ) (l : List ℕ) :
    (l.flatMap fun j ↦ validBufs pool [f j]) = validBufs pool (l.map f) := by
  induction l with
  | nil => rfl
  | cons j l ih =>
    rw [List.flatMap_cons, ih, List.map_cons, validBufs, validBufs, validBufs, ← List.filter_append]
    rfl

theorem run_freeSlots (rx : RxRing) (s : PoolMemory) :
    (freeSlots pools rx).run (access pools) s =
      some ((), s.putAll (only .bufPool (validBufs (pools .bufPool) (slotIdxs rx)))) := by
  have hone : ∀ j ∈ List.range rx.kring.nkrNumSlots, ∀ s,
      (dpaFreeBuf (pools .bufPool) (rx.ring.slot j).bufIdx).run (access pools) s =
        some ((), s.putAll (only .bufPool (validBufs (pools .bufPool) [(rx.ring.slot j).bufIdx]))) := by
    intro j _ s
    by_cases hj : 2 ≤ (rx.ring.slot j).bufIdx ∧ (rx.ring.slot j).bufIdx < (pools .bufPool).objTotal
    · rw [run_dpaFreeBuf (hp.sound .bufPool) hj, validBufs, List.filter_singleton,
        decide_eq_true hj, ← set_putAll]
      rfl
    · rw [dpaFreeBuf, if_pos (by omega), validBufs, List.filter_singleton, decide_eq_false hj]
      simp [only_nil, putAll_nil]
  rw [freeSlots, run_releases hone, flatMap_validBufs]
  rfl

theorem run_freeSlots_all (rx : ℕ → RxRing) (l : List ℕ) (s : PoolMemory) :
    (Program.forEach (fun i ↦ freeSlots pools (rx i)) l).run (access pools) s =
      some ((), s.putAll (only .bufPool
        (l.flatMap fun i ↦ validBufs (pools .bufPool) (slotIdxs (rx i))))) :=
  run_releases (fun i _ s ↦ run_freeSlots hp (rx i) s) s

theorem run_dpaFreeRings {nrx : ℕ} {rx : ℕ → RxRing} (hptr : ∀ j < nrx, Pointer pools (rx j))
    (s : PoolMemory) : (dpaFreeRings pools nrx rx).run (access pools) s =
      some ((), s.putAll (only .ringPool ((List.range nrx).flatMap fun j ↦ ringObj pools (rx j)))) := by
  refine run_releases (fun j hj s ↦ ?_) s
  rcases hptr j (List.mem_range.1 hj) with hnull | ⟨x, hx⟩
  · rw [if_pos hnull, ringObj, if_pos hnull, only_nil, putAll_nil]
    rfl
  · have hne : (rx j).ringVa ≠ 0 := by
      rw [hx.2.2]
      exact (hp.sound .ringPool).vaddr_ne hx.2.1
    rw [if_neg hne, ringObj_eq hp hx]
    exact run_freeVa (hp.sound .ringPool) hp.ringMapped hx s

theorem run_dpaIfFree {va : ℕ} (hx : IsObject (pools .ifPool) va x) (s : PoolMemory) :
    (dpaIfFree pools va).run (access pools) s = some ((), s.putAll (only .ifPool [x])) :=
  run_freeVa (hp.sound .ifPool) hp.ifMapped hx s

omit hp in
theorem u32_ringLen (n : ℕ) : u32 (ringLen n) = ringLen n := u32_natCast (u32_lt _)

theorem run_newRingsLoop_step (h : Represented pools s F)
    (hlen : ringLen ndesc ≤ (pools .ringPool).objSize) (hring : (F .ringPool).Nonempty)
    (hbuf : ndesc ≤ (F .bufPool).card) :
    ∃ new, Filled pools bufSize ndesc new ∧ FreeObjs F (ringGrant pools new) ∧ ∀ m i rx,
      (newRingsLoop pools bufSize ndesc (m + 1) i rx).run (access pools) s =
        (newRingsLoop pools bufSize ndesc m (i + 1) (update rx i new)).run (access pools)
          (s.takeAll (ringGrant pools new)) := by
  obtain ⟨x, hx, hrun⟩ := run_malloc (hp.sound .ringPool) h hring (l := ringLen ndesc)
    (by rwa [u32_ringLen])
  have hobj := (h .ringPool).range x hx
  have hone : FreeObjs F (only .ringPool [x]) := .only hx
  have hne : PoolId.bufPool ≠ .ringPool := by decide
  obtain ⟨slot, hbufs, hfree, -⟩ := run_newBufsLoop_ok hp (n := ndesc) (m := ndesc) (i := 0)
    ((newRing pools bufSize ((pools .ringPool).addrTbl x).vaddr ndesc).ring.slot)
    (h.takeAll hone) (by rw [only_of_ne hne, List.toFinset_nil, Finset.sdiff_empty]; exact hbuf)
  let base := newRing pools bufSize ((pools .ringPool).addrTbl x).vaddr ndesc
  let new : RxRing := { base with ring := { base.ring with slot := slot } }
  have hnew : IsObject (pools .ringPool) new.ringVa x := ⟨hobj.1, hobj.2, rfl⟩
  have hgrant : (fun p ↦ only .ringPool [x] p ++ only .bufPool (idxsFrom slot 0 ndesc) p) =
      ringGrant pools new := by
    funext p
    cases p with
    | ifPool => rfl
    | ringPool => exact (ringObj_eq hp hnew).symm
    | bufPool =>
      change idxsFrom slot 0 ndesc = _
      rw [idxsFrom, ← List.range_eq_range']
      rfl
  refine ⟨new, ⟨x, slot, hnew, rfl⟩, hgrant ▸ hone.append hfree, fun m i rx ↦ ?_⟩
  rw [newRingsLoop, Program.run_bind_of hrun, if_neg ((hp.sound .ringPool).vaddr_ne hobj.2)]
  refine (Program.run_bind_of (R := PoolAccess.Answer) hbufs _).trans ?_
  rw [takeAll_takeAll, hgrant]
  rfl

theorem run_newRingsLoop_stop (h : Represented pools s F)
    (hfail : ¬(ringLen ndesc ≤ (pools .ringPool).objSize ∧ (F .ringPool).Nonempty ∧
      ndesc ≤ (F .bufPool).card)) (m i : ℕ) (rx : ℕ → RxRing) :
    ∃ new, Pointer pools new ∧ FreeObjs F (only .ringPool (ringObj pools new)) ∧
      (newRingsLoop pools bufSize ndesc (m + 1) i rx).run (access pools) s =
        some ((some i, update rx i new), s.takeAll (only .ringPool (ringObj pools new))) := by
  rw [newRingsLoop]
  by_cases hring : ringLen ndesc ≤ (pools .ringPool).objSize ∧ (F .ringPool).Nonempty
  · obtain ⟨x, hx, hrun⟩ := run_malloc (hp.sound .ringPool) h hring.2 (l := ringLen ndesc)
      (by rw [u32_ringLen]; exact hring.1)
    have hobj := (h .ringPool).range x hx
    have hone : FreeObjs F (only .ringPool [x]) := .only hx
    have hne : PoolId.bufPool ≠ .ringPool := by decide
    have hfew : (F .bufPool).card < ndesc :=
      not_le.1 fun hle ↦ hfail ⟨hring.1, hring.2, hle⟩
    obtain ⟨slot, hbufs⟩ := run_newBufsLoop_fail hp (n := ndesc) (m := ndesc) (i := 0)
      ((newRing pools bufSize ((pools .ringPool).addrTbl x).vaddr ndesc).ring.slot)
      (h.takeAll hone) (by rw [idxsFrom, List.range'_zero, List.map_nil, only_nil]; exact .nil)
      (by rw [only_of_ne hne, List.toFinset_nil, Finset.sdiff_empty, Nat.zero_add]; exact hfew)
    rw [idxsFrom, List.range'_zero, List.map_nil, only_nil, takeAll_nil] at hbufs
    let base := newRing pools bufSize ((pools .ringPool).addrTbl x).vaddr ndesc
    let new : RxRing := { base with ring := { base.ring with slot := slot } }
    have hnew : IsObject (pools .ringPool) new.ringVa x := ⟨hobj.1, hobj.2, rfl⟩
    refine ⟨new, .inr ⟨x, hnew⟩, ringObj_eq hp hnew ▸ hone, ?_⟩
    rw [Program.run_bind_of hrun, if_neg ((hp.sound .ringPool).vaddr_ne hobj.2),
      ringObj_eq hp hnew]
    exact Program.run_bind_of (R := PoolAccess.Answer) hbufs _
  · have hnone := run_malloc_none h (p := .ringPool) (l := ringLen ndesc)
      (by rw [u32_ringLen, ← Finset.not_nonempty_iff_eq_empty, ← not_le]; tauto)
    refine ⟨{ rx i with ringVa := 0, kring := zeroKring }, .inl rfl, ?_, ?_⟩
    · rw [ringObj, if_pos rfl, only_nil]
      exact .nil
    · rw [Program.run_bind_of hnone, if_pos rfl, ringObj, if_pos rfl, only_nil, takeAll_nil]
      rfl

omit hp in
theorem ringGrants_cons (rx : ℕ → RxRing) (i : ℕ) (l : List ℕ) :
    (fun p ↦ ringGrant pools (rx i) p ++ ringGrants pools rx l p) =
      ringGrants pools rx (i :: l) := by
  funext p
  rw [ringGrants, ringGrants, List.flatMap_cons]

omit hp in
theorem enough_succ {new : RxRing} (hfree : FreeObjs F (ringGrant pools new))
    (hring : (ringObj pools new).length = 1) (hbuf : (slotIdxs new).length = ndesc)
    (hlen : ringLen ndesc ≤ (pools .ringPool).objSize) :
    Enough pools F ndesc (m + 1) ↔
      Enough pools (fun p ↦ F p \ (ringGrant pools new p).toFinset) ndesc m := by
  have hr := hfree.card .ringPool
  have hb := hfree.card .bufPool
  rw [ringGrant_ringPool, hring] at hr
  rw [ringGrant_bufPool, hbuf] at hb
  simp only [Enough, ringGrant_ringPool, ringGrant_bufPool, Nat.add_mul, Nat.one_mul]
  constructor
  · rintro (h0 | ⟨-, hr', hb'⟩)
    · omega
    · exact .inr ⟨hlen, by omega, by omega⟩
  · rintro (rfl | ⟨-, hr', hb'⟩)
    · exact .inr ⟨hlen, by omega, by omega⟩
    · exact .inr ⟨hlen, by omega, by omega⟩

omit hp in
theorem Filled.slotIdxs_length {new : RxRing} (h : Filled pools bufSize ndesc new) :
    (slotIdxs new).length = ndesc := by
  obtain ⟨x, slot, -, heq⟩ := h
  rw [slotIdxs, List.length_map, List.length_range, heq]
  rfl

theorem Filled.ringObj_length {new : RxRing} (h : Filled pools bufSize ndesc new) :
    (ringObj pools new).length = 1 := by
  obtain ⟨x, slot, hx, -⟩ := h
  rw [ringObj_eq hp hx, List.length_singleton]

theorem run_newRingsLoop_ok (rx : ℕ → RxRing) (h : Represented pools s F)
    (hm : Enough pools F ndesc m) :
    ∃ rx', (newRingsLoop pools bufSize ndesc m i rx).run (access pools) s =
        some ((none, rx'), s.takeAll (ringGrants pools rx' (List.range' i m))) ∧
      FreeObjs F (ringGrants pools rx' (List.range' i m)) ∧
      (∀ j, i ≤ j → j < i + m → Filled pools bufSize ndesc (rx' j)) ∧
      ∀ j, j < i ∨ i + m ≤ j → rx' j = rx j := by
  induction m generalizing i rx s F with
  | zero => exact ⟨rx, rfl, FreeObjs.nil, fun j _ _ ↦ by omega, fun j _ ↦ rfl⟩
  | succ m ih =>
    obtain ⟨hlen, hr, hb⟩ := hm.resolve_left (Nat.succ_ne_zero m)
    rw [Nat.add_mul, Nat.one_mul] at hb
    obtain ⟨new, hnew, hfree, hrun⟩ := run_newRingsLoop_step hp h hlen
      (Finset.card_pos.1 (by omega)) (by omega)
    obtain ⟨rx', hrest, hfree', hfilled, hkeep⟩ := ih (i := i + 1) (update rx i new)
      (h.takeAll hfree)
      ((enough_succ hfree (hnew.ringObj_length hp) hnew.slotIdxs_length hlen).1 hm)
    have hi : rx' i = new := by rw [hkeep i (.inl (Nat.lt_succ_self i)), update_self]
    have hgrants : (fun p ↦ ringGrant pools new p ++ ringGrants pools rx' (List.range' (i + 1) m) p) =
        ringGrants pools rx' (List.range' i (m + 1)) := by
      rw [← hi, ringGrants_cons, List.range'_succ]
    refine ⟨rx', ?_, hgrants ▸ hfree.append hfree', fun j hj hj' ↦ ?_, fun j hj ↦ ?_⟩
    · rw [hrun, hrest, takeAll_takeAll, hgrants]
    · rcases hj.eq_or_lt with rfl | hlt
      · rwa [hi]
      · exact hfilled j hlt (by omega)
    · rw [hkeep j (by omega), update_of_ne (by omega)]

theorem run_newRingsLoop_fail (rx : ℕ → RxRing) (h : Represented pools s F)
    (hm : ¬Enough pools F ndesc m) :
    ∃ g < m, Enough pools F ndesc g ∧ ¬Enough pools F ndesc (g + 1) ∧ ∃ rx',
      (newRingsLoop pools bufSize ndesc m i rx).run (access pools) s =
        some ((some (i + g), rx'), s.takeAll fun p ↦ ringGrants pools rx' (List.range' i g) p ++
          only .ringPool (ringObj pools (rx' (i + g))) p) ∧
      (FreeObjs F fun p ↦ ringGrants pools rx' (List.range' i g) p ++
          only .ringPool (ringObj pools (rx' (i + g))) p) ∧
      (∀ j, i ≤ j → j < i + g → Filled pools bufSize ndesc (rx' j)) ∧
      Pointer pools (rx' (i + g)) ∧ ∀ j, j < i ∨ i + g < j → rx' j = rx j := by
  induction m generalizing i rx s F with
  | zero => exact absurd (.inl rfl) hm
  | succ m ih =>
    by_cases hone : ringLen ndesc ≤ (pools .ringPool).objSize ∧ (F .ringPool).Nonempty ∧
        ndesc ≤ (F .bufPool).card
    · obtain ⟨new, hnew, hfree, hrun⟩ := run_newRingsLoop_step hp h hone.1 hone.2.1 hone.2.2
      have hsucc := fun m ↦ enough_succ (m := m) hfree (hnew.ringObj_length hp) hnew.slotIdxs_length
        hone.1
      obtain ⟨g, hg, hen, hnot, rx', hrest, hfree', hfilled, hptr, hkeep⟩ := ih (i := i + 1)
        (update rx i new) (h.takeAll hfree) (fun hm' ↦ hm ((hsucc m).2 hm'))
      have hi : rx' i = new := by rw [hkeep i (.inl (Nat.lt_succ_self i)), update_self]
      have hadd : i + 1 + g = i + (g + 1) := by omega
      rw [hadd] at hrest hfree' hptr hkeep
      have hgrants : (fun p ↦ ringGrant pools new p ++ (ringGrants pools rx' (List.range' (i + 1) g) p ++
          only .ringPool (ringObj pools (rx' (i + (g + 1)))) p)) =
          fun p ↦ ringGrants pools rx' (List.range' i (g + 1)) p ++
            only .ringPool (ringObj pools (rx' (i + (g + 1)))) p := by
        funext p
        rw [← hi, ← List.append_assoc, List.range'_succ, ← ringGrants_cons]
      refine ⟨g + 1, by omega, (hsucc g).2 hen, fun h' ↦ hnot ((hsucc (g + 1)).1 h'), rx', ?_,
        hgrants ▸ hfree.append hfree', fun j hj hj' ↦ ?_, hptr, fun j hj ↦ ?_⟩
      · rw [hrun, hrest, takeAll_takeAll, hgrants]
      · rcases hj.eq_or_lt with rfl | hlt
        · rwa [hi]
        · exact hfilled j hlt (by omega)
      · rw [hkeep j (by omega), update_of_ne (by omega)]
    · obtain ⟨new, hptr, hfree, hrun⟩ := run_newRingsLoop_stop hp h hone m i rx
      have hgrants : (fun p ↦ ringGrants pools (update rx i new) (List.range' i 0) p ++
          only .ringPool (ringObj pools (update rx i new (i + 0))) p) =
          only .ringPool (ringObj pools new) := by
        funext p
        rw [Nat.add_zero, update_self]
        rfl
      refine ⟨0, Nat.succ_pos m, .inl rfl, ?_, update rx i new, ?_, ?_, fun j _ _ ↦ by omega, ?_,
        fun j hj ↦ update_of_ne (by omega) _ _⟩
      · rintro (h0 | ⟨hlen, hr, hb⟩)
        · omega
        · exact hone ⟨hlen, Finset.card_pos.1 (by omega), by omega⟩
      · rw [hrun, hgrants]
        rfl
      · rwa [hgrants]
      · rwa [Nat.add_zero, update_self]

omit hp in
theorem enough_of_if {x : ℕ} :
    Enough pools (fun p ↦ F p \ (only .ifPool [x] p).toFinset) ndesc m ↔
      Enough pools F ndesc m := by
  have hr : PoolId.ringPool ≠ .ifPool := by decide
  have hb : PoolId.bufPool ≠ .ifPool := by decide
  simp only [Enough, only_of_ne hr, only_of_ne hb, List.toFinset_nil, Finset.sdiff_empty]

omit hp in
theorem u32_ifLen (n : ℕ) : u32 (ifLen n) = ifLen n := u32_natCast (u32_lt _)

section

variable {dadp : DpaAdapter} (h : Represented pools s F) (hlock : s.locked = false)

include h hlock

omit hp in
theorem run_dpaNewIf_noIf
    (hfail : F .ifPool = ∅ ∨ (pools .ifPool).objSize < ifLen dadp.numRxRings) :
    (dpaNewIf pools bufSize dadp).run (access pools) s = some ((none, dadp), s) := by
  have hlocked : Represented pools { s with locked := true } F := h
  have hnone := run_malloc_none hlocked (p := .ifPool) (l := ifLen dadp.numRxRings)
    (by rwa [u32_ifLen])
  rw [dpaNewIf, run_lock_bind hlock, Program.run_bind_of hnone, if_pos rfl, run_unlock_bind,
    Program.pure_eq, Program.run_ret]
  exact congrArg (fun s ↦ some ((none, dadp), s)) (unlock_lock hlock)

theorem run_dpaNewIf_again (hF : (F .ifPool).Nonempty)
    (hlen : ifLen dadp.numRxRings ≤ (pools .ifPool).objSize) (hrefs : 0 < dadp.refs) :
    ∃ x ∈ F .ifPool, (dpaNewIf pools bufSize dadp).run (access pools) s =
      some ((some (newIf pools ((pools .ifPool).addrTbl x).vaddr { dadp with refs := dadp.refs + 1 }),
        { dadp with refs := dadp.refs + 1 }), s.takeAll (only .ifPool [x])) := by
  have hlocked : Represented pools { s with locked := true } F := h
  obtain ⟨x, hx, hrun⟩ := run_malloc (hp.sound .ifPool) hlocked hF (l := ifLen dadp.numRxRings)
    (by rwa [u32_ifLen])
  have hne := (hp.sound .ifPool).vaddr_ne ((h .ifPool).range x hx).2
  refine ⟨x, hx, ?_⟩
  rw [dpaNewIf, run_lock_bind hlock, Program.run_bind_of hrun, if_neg hne, if_pos hrefs]
  dsimp only
  rw [run_unlock_bind, Program.pure_eq, Program.run_ret, unlock_takeAll hlock]

theorem run_dpaNewIf_first (hF : (F .ifPool).Nonempty)
    (hlen : ifLen dadp.numRxRings ≤ (pools .ifPool).objSize) (hrefs : ¬0 < dadp.refs)
    (hen : Enough pools F dadp.numRxDescs dadp.numRxRings) :
    ∃ x rx', (dpaNewIf pools bufSize dadp).run (access pools) s =
        some ((some (newIf pools ((pools .ifPool).addrTbl x).vaddr
            { dadp with refs := dadp.refs + 1, rxRings := rx' }),
          { dadp with refs := dadp.refs + 1, rxRings := rx' }),
          s.takeAll fun p ↦ only .ifPool [x] p ++
            ringGrants pools rx' (List.range dadp.numRxRings) p) ∧
      (FreeObjs F fun p ↦ only .ifPool [x] p ++
        ringGrants pools rx' (List.range dadp.numRxRings) p) ∧
      (∀ j < dadp.numRxRings, Filled pools bufSize dadp.numRxDescs (rx' j)) ∧
      ∀ j, dadp.numRxRings ≤ j → rx' j = dadp.rxRings j := by
  have hlocked : Represented pools { s with locked := true } F := h
  obtain ⟨x, hx, hrun⟩ := run_malloc (hp.sound .ifPool) hlocked hF (l := ifLen dadp.numRxRings)
    (by rwa [u32_ifLen])
  have hne := (hp.sound .ifPool).vaddr_ne ((h .ifPool).range x hx).2
  have hone : FreeObjs F (only .ifPool [x]) := .only hx
  obtain ⟨rx', hloop, hfree, hfilled, hkeep⟩ := run_newRingsLoop_ok hp (i := 0)
    dadp.rxRings (hlocked.takeAll hone) (enough_of_if.2 hen)
  rw [← List.range_eq_range'] at hloop hfree
  refine ⟨x, rx', ?_, hone.append hfree, fun j hj ↦ hfilled j (Nat.zero_le j) (by omega),
    fun j hj ↦ hkeep j (.inr (by omega))⟩
  rw [dpaNewIf, run_lock_bind hlock, Program.run_bind_of hrun, if_neg hne, if_neg hrefs,
    Program.run_bind_of hloop, takeAll_takeAll]
  dsimp only
  rw [run_unlock_bind, Program.pure_eq, Program.run_ret, unlock_takeAll hlock]

omit h hlock hp in
theorem range_split {g nrx : ℕ} (hg : g < nrx) :
    List.range nrx = List.range g ++ (g :: List.range' (g + 1) (nrx - (g + 1))) := by
  rw [List.range_eq_range', List.range_eq_range', ← List.range'_succ]
  have happ := List.range'_append_1 (s := 0) (m := g) (n := nrx - (g + 1) + 1)
  rw [Nat.zero_add] at happ
  rw [happ]
  congr 1
  omega

omit hlock hp in
theorem validBufs_eq {l : List ℕ} (hl : ∀ x ∈ l, x ∈ F .bufPool) :
    validBufs (pools .bufPool) l = l :=
  List.filter_eq_self.2 fun x hx ↦ decide_eq_true ((h .bufPool).range x (hl x hx))

/-- `dpa_new_if` without objects for all its rings puts back what it took, and also every ring that
a pointer beyond the ring it failed at leads to. -/
theorem run_dpaNewIf_fail (hF : (F .ifPool).Nonempty)
    (hlen : ifLen dadp.numRxRings ≤ (pools .ifPool).objSize) (hrefs : ¬0 < dadp.refs)
    (hen : ¬Enough pools F dadp.numRxDescs dadp.numRxRings)
    (hptr : ∀ j < dadp.numRxRings, Pointer pools (dadp.rxRings j)) :
    ∃ g < dadp.numRxRings, Enough pools F dadp.numRxDescs g ∧
      ¬Enough pools F dadp.numRxDescs (g + 1) ∧ ∃ rx',
      (dpaNewIf pools bufSize dadp).run (access pools) s =
        some ((none, { dadp with rxRings := rx' }), s.putAll (only .ringPool
          ((List.range' (g + 1) (dadp.numRxRings - (g + 1))).flatMap fun j ↦
            ringObj pools (dadp.rxRings j)))) ∧
      ∀ j < dadp.numRxRings, Pointer pools (rx' j) := by
  have hlocked : Represented pools { s with locked := true } F := h
  obtain ⟨x, hx, hrun⟩ := run_malloc (hp.sound .ifPool) hlocked hF (l := ifLen dadp.numRxRings)
    (by rwa [u32_ifLen])
  have hxr := (h .ifPool).range x hx
  have hne := (hp.sound .ifPool).vaddr_ne hxr.2
  have hone : FreeObjs F (only .ifPool [x]) := .only hx
  obtain ⟨g, hg, heng, hnot, rx', hloop, hfree, hfilled, hptrg, hkeep⟩ :=
    run_newRingsLoop_fail hp (i := 0) dadp.rxRings (hlocked.takeAll hone)
      fun hen' ↦ hen (enough_of_if.1 hen')
  rw [Nat.zero_add] at hloop hfree hfilled hptrg hkeep
  rw [← List.range_eq_range'] at hloop hfree
  have hptr' : ∀ j < dadp.numRxRings, Pointer pools (rx' j) := by
    intro j hj
    rcases lt_trichotomy j g with hlt | rfl | hlt
    · obtain ⟨y, slot, hy, -⟩ := hfilled j (Nat.zero_le j) hlt
      exact .inr ⟨y, hy⟩
    · exact hptrg
    · rw [hkeep j (.inr hlt)]
      exact hptr j hj
  refine ⟨g, hg, enough_of_if.1 heng, fun h' ↦ hnot (enough_of_if.2 h'), rx', ?_, hptr'⟩
  have hall := hone.append hfree
  have hbufs : ((List.range g).reverse.flatMap fun i ↦ validBufs (pools .bufPool) (slotIdxs (rx' i))) =
      (List.range g).reverse.flatMap fun i ↦ slotIdxs (rx' i) := by
    refine List.flatMap_congr fun i hi ↦ validBufs_eq h fun y hy ↦ (hall .bufPool).2 y ?_
    have hi' : i ∈ List.range g := List.mem_reverse.1 hi
    exact List.mem_append_right _ (List.mem_append_left _ (List.mem_flatMap.2 ⟨i, hi', hy⟩))
  have hstale : (List.range' (g + 1) (dadp.numRxRings - (g + 1))).flatMap (fun j ↦
      ringObj pools (rx' j)) = (List.range' (g + 1) (dadp.numRxRings - (g + 1))).flatMap fun j ↦
      ringObj pools (dadp.rxRings j) := by
    refine List.flatMap_congr fun j hj ↦ ?_
    rw [hkeep j (.inr (by have := List.mem_range'_1.1 hj; omega))]
  rw [dpaNewIf, run_lock_bind hlock, Program.run_bind_of hrun, if_neg hne, if_neg hrefs,
    Program.run_bind_of hloop, takeAll_takeAll]
  dsimp only
  rw [Program.run_bind_of (run_freeSlots_all hp rx' _ _), hbufs,
    Program.run_bind_of (run_dpaFreeRings hp hptr' _),
    Program.run_bind_of (run_dpaIfFree hp ⟨hxr.1, hxr.2, rfl⟩ _), run_unlock_bind,
    Program.pure_eq, Program.run_ret, putAll_putAll, putAll_putAll]
  refine congrArg (fun s ↦ some ((none, { dadp with rxRings := rx' }), s)) ?_
  rw [range_split hg, ← hstale, putAll_perm, ← putAll_putAll,
    hlocked.putAll_takeAll hall fun p ↦ List.Perm.refl _, unlock_putAll hlock]
  intro p
  cases p with
  | ifPool => simp [only_of_ne]
  | ringPool =>
    have hb : PoolId.ringPool ≠ .bufPool := by decide
    have hi : PoolId.ringPool ≠ .ifPool := by decide
    simp only [only_self, only_of_ne hb, only_of_ne hi, List.nil_append, List.append_nil,
      ringGrants_ringPool, List.flatMap_append, List.flatMap_cons, List.append_assoc]
    exact List.Perm.refl _
  | bufPool =>
    have hr : PoolId.bufPool ≠ .ringPool := by decide
    have hi : PoolId.bufPool ≠ .ifPool := by decide
    simp only [only_self, only_of_ne hr, only_of_ne hi, List.nil_append, List.append_nil,
      ringGrants_bufPool]
    exact (List.reverse_perm _).flatMap_right _

omit h in
theorem run_freeAll (dadp : DpaAdapter) (hptr : ∀ j < dadp.numRxRings, Pointer pools (dadp.rxRings j)) :
    (freeAll pools dadp).run (access pools) s = some ((), s.putAll fun p ↦
      only .bufPool ((List.range dadp.numRxRings).flatMap fun i ↦
        validBufs (pools .bufPool) (slotIdxs (dadp.rxRings i))) p ++
      only .ringPool ((List.range dadp.numRxRings).flatMap fun j ↦
        ringObj pools (dadp.rxRings j)) p) := by
  rw [freeAll, run_lock_bind hlock, Program.run_bind_of (run_freeSlots_all hp dadp.rxRings _ _),
    run_unlock_bind, unlock_putAll hlock, run_dpaFreeRings hp hptr, putAll_putAll]

end

end

end Dpa.Kernel
