import Dpa.Driver.IntelSync

namespace Dpa.Driver

open Kernel MachineWord Cyclic Function Relation

variable {N o a h r i : ℕ} {bits : RxBits} {m : DpaModule} {s s' : RxQueue} {drv : Intel}

def GoodSlots (N : ℕ) (m : DpaModule) (s : RxQueue) : Prop :=
  ∀ x < N, (bufVpa m.bufs (s.ring.slot x)).1 ≠ m.bufs.base

/-- The kernel's and the hardware's side of a queue with `a` packets pending in the user ring
and `h` more completed by the hardware: places are counted from `next_to_clean`. -/
structure Core (N o a h : ℕ) (bits : RxBits) (m : DpaModule) (s : RxQueue) : Prop
    extends Indexed N o s where
  hwavail : s.kring.nrHwavail = a
  room : a + h < N
  clean : userClean N o s = pos N s.kring.nrHwcur a
  count : s.nic.count = N
  numRxDescs : s.numRxDescs = N
  head : s.nic.head = pos N s.nic.nextToClean h
  tail : s.nic.tail = pos N s.nic.nextToClean (N - 1 - a)
  done : ∀ j < h, DoneAt N bits s j
  clear : ∀ j, h ≤ j → j < N - a → ¬DoneAt N bits s j
  good : GoodSlots N m s

/-- The user's side: it has passed all but `avail` of the pending packets and keeps `reserved`
of those. -/
structure UserSide (N a : ℕ) (s : RxQueue) : Prop where
  avail : s.ring.avail + s.ring.reserved ≤ a
  cur : s.ring.cur = pos N s.kring.nrHwcur (a - s.ring.avail)

theorem Core.nicCur (hc : Core N o a h bits m s) :
    nicCur N o s = pos N s.nic.nextToClean (N - a) := by
  have hr := hc.room
  exact ahead_of_pos_eq hc.clean_lt hc.hwcur_lt hc.ofs_lt (by omega) hc.clean

theorem Core.pos_clean (hc : Core N o a h bits m s) (j : ℕ) :
    pos N s.nic.nextToClean j = pos N (Driver.nicCur N o s) (a + j) := by
  have hroom := hc.room
  rw [hc.nicCur, pos_pos, show N - a + (a + j) = j + N by omega, pos, pos, ← Nat.add_assoc,
    Nat.add_mod_right]

theorem harvestAt_vpa (x : ℕ) :
    bufVpa m.bufs ((harvestAt N o bits m s i).slot x) = bufVpa m.bufs (s.ring.slot x) := by
  simp only [harvestAt, swept]
  split_ifs <;> rfl

theorem Core.harvested (hc : Core N o a h bits m s) (hv : Harvested N o bits m h s s') :
    Core N o (a + h) 0 bits m s' where
  toIndexed := hv.indexed hc.toIndexed
  hwavail := by
    rw [hv.hwavail, hc.hwavail, Nat.cast_add]
  room := hc.room
  clean := by
    rw [hv.hwcur, ← pos_pos, ← hc.clean, userClean, userClean, hv.clean, pos_pos, pos_pos,
      Nat.add_comm]
  count := hv.count.trans hc.count
  numRxDescs := hv.numRxDescs.trans hc.numRxDescs
  head := by
    rw [hv.head, hv.clean, hc.head, pos_pos]
    rfl
  tail := by
    have hr := hc.room
    rw [hv.tail, hv.clean, hc.tail, pos_pos]
    congr 1
    omega
  done := by
    intro j hj
    omega
  clear := by
    intro j _ hj
    have hcl := hc.clear (h + j) (by omega) (by omega)
    unfold DoneAt at hcl ⊢
    rwa [hv.desc, hv.clean, pos_pos]
  good := by
    intro x hx
    rw [hv.ring, harvestAt_vpa]
    exact hc.good x hx

theorem rearm_not_done (d : AdvRxDesc) (paddr : ℕ) : ¬(d.rearm paddr).done bits = true := by
  simp [AdvRxDesc.rearm, AdvRxDesc.done]

theorem Core.released (hc : Core N o a h bits m s) {resvd : ℕ}
    (hr : Released N o m r resvd s s') (hra : r ≤ a) : Core N o (a - r) h bits m s' where
  toIndexed := hr.indexed hc.toIndexed
  hwavail := by
    rw [hr.hwavail, hc.hwavail, Nat.cast_sub hra]
  room := by
    have := hc.room
    omega
  clean := by
    rw [hr.hwcur, pos_pos, Nat.add_sub_cancel' hra, ← hc.clean, userClean, userClean, hr.clean]
  count := hr.count.trans hc.count
  numRxDescs := hr.numRxDescs.trans hc.numRxDescs
  head := by
    rw [hr.head, hr.clean, hc.head]
  tail := by
    have hroom := hc.room
    have hcl := hc.clean_lt
    rw [hr.tail, hr.clean, hc.nicCur, hc.tail]
    by_cases h0 : r = 0
    · rw [if_pos h0, h0, Nat.sub_zero]
    · rw [if_neg h0, pos_pos, show N - a + (r + (N - 1)) = N - 1 - (a - r) + N by omega, pos,
        ← Nat.add_assoc, Nat.add_mod_right]
      rfl
  done := by
    have hroom := hc.room
    intro j hj
    have hd := hc.done j hj
    unfold DoneAt at hd ⊢
    rw [hr.clean, hr.desc]
    rw [hc.pos_clean] at hd ⊢
    simp only [releaseAt]
    rwa [swept_off hc.nicCur_lt (by omega) (by omega)]
  clear := by
    have hroom := hc.room
    intro j hj hlt
    unfold DoneAt
    rw [hr.clean, hr.desc]
    by_cases hja : j < N - a
    · have hcl := hc.clear j hj hja
      unfold DoneAt at hcl
      rw [hc.pos_clean] at hcl ⊢
      simp only [releaseAt]
      rwa [swept_off hc.nicCur_lt (by omega) (by omega)]
    · have hin : pos N s.nic.nextToClean j = pos N (Driver.nicCur N o s) (j - (N - a)) := by
        rw [hc.nicCur, pos_pos, Nat.add_sub_cancel' (by omega)]
      rw [hin]
      simp only [releaseAt]
      rw [swept_at hc.nicCur_lt (by omega) (by omega)]
      exact rearm_not_done _ _
  good := by
    intro x hx
    rw [hr.slot]
    exact hc.good x hx

theorem Core.completed (hc : Core N o a h bits m s) (hne : s.nic.head ≠ s.nic.tail)
    {d : AdvRxDesc} (hd : d.done bits = true) :
    Core N o a (h + 1) bits m { s with nic := s.nic.complete d } ∧ a + h + 1 < N := by
  have hN := hc.nonempty
  have hroom := hc.room
  have hcl := hc.clean_lt
  have hhead := pos_lt (a := s.nic.nextToClean) (i := h) hN
  have hlt : a + h + 1 < N := by
    have : h ≠ N - 1 - a := by
      rintro rfl
      exact hne (hc.head.trans hc.tail.symm)
    omega
  have hdesc : (s.nic.complete d).desc = update s.nic.desc (pos N s.nic.nextToClean h) d := by
    rw [← hc.head]
    rfl
  refine ⟨⟨⟨hN, hc.bound, hc.slots, hc.ofs_lt, hc.hwofs, hcl, hc.hwcur_lt⟩, hc.hwavail, hlt,
    hc.clean, hc.count, hc.numRxDescs, ?_, hc.tail, ?_, ?_, hc.good⟩, hlt⟩
  · change (if s.nic.head + 1 = s.nic.count then 0 else s.nic.head + 1) = pos N _ (h + 1)
    have hnext := next_eq hhead
    rw [pos_pos] at hnext
    refine Eq.trans ?_ hnext
    rw [hc.count, hc.head]
    split_ifs <;> omega
  · intro j hj
    unfold DoneAt
    change (((s.nic.complete d).desc) (pos N s.nic.nextToClean j)).done bits = true
    rw [hdesc]
    rcases Nat.lt_succ_iff_lt_or_eq.1 hj with hjh | rfl
    · rw [update_of_ne]
      · exact hc.done j hjh
      · intro heq
        have := pos_injective (by omega) (by omega) heq
        omega
    · rwa [update_self]
  · intro j hj hja
    unfold DoneAt
    change ¬(((s.nic.complete d).desc) (pos N s.nic.nextToClean j)).done bits = true
    rw [hdesc, update_of_ne]
    · exact hc.clear j (by omega) hja
    · intro heq
      have := pos_injective (by omega) (by omega) heq
      omega

/-- What a reset relies on where nothing is known of the user's ring. -/
structure ReadyToReset (N a : ℕ) (q : RxQueue) : Prop where
  bound : N ≤ 2 ^ 30
  slots : q.kring.nkrNumSlots = N
  hwcur_lt : q.kring.nrHwcur < N
  hwavail : q.kring.nrHwavail = a
  room : a < N
  count : q.nic.count = N
  numRxDescs : q.numRxDescs = N

theorem ReadyToReset.reset_fields (hr : ReadyToReset N a s) (drv : Intel) (m : DpaModule) :
    (drv.reset m s).kring = dpaReset s.kring 0 ∧ (drv.reset m s).ring = s.ring ∧
      (drv.reset m s).nic.nextToClean = 0 ∧ (drv.reset m s).nic.head = 0 ∧
      (drv.reset m s).nic.count = N ∧ (drv.reset m s).nic.tail = N - 1 - a ∧
      (drv.reset m s).numRxDescs = N ∧
      ∀ x < N, (drv.reset m s).nic.desc x =
        ⟨RxQueue.confAddr m (dpaReset s.kring 0) s.ring.slot x, 0, 0, 0⟩ := by
  have hb := hr.bound
  have hroom := hr.room
  have hav : (dpaReset s.kring 0).nrHwavail = a :=
    (dpaReset_nrHwavail s.kring 0).trans hr.hwavail
  cases drv with
  | igb =>
    simp only [Intel.reset, Intel.confRxRing, RxQueue.igbDpaConfRxRing, RxQueue.clearRing, hav]
    refine ⟨trivial, trivial, trivial, trivial, hr.count, ?_, hr.numRxDescs, ?_⟩
    · rw [hr.count, u32_of_mem (by omega) (by omega)]
      omega
    · intro x hx
      exact if_pos (hx.trans_eq hr.count.symm)
  | ixgbe =>
    simp only [Intel.reset, Intel.confRxRing, RxQueue.ixgbeDpaConfRxRing, RxQueue.clearRing, hav]
    refine ⟨trivial, trivial, trivial, trivial, hr.count, ?_, hr.numRxDescs, ?_⟩
    · rw [hr.numRxDescs, s32_of_mem (by omega) (by omega), u32_of_mem (by omega) (by omega)]
      omega
    · intro x hx
      exact if_pos (hx.trans_eq hr.numRxDescs.symm)

/-- What a reset relies on: the kernel ring, the sizes and the slots, but not the NIC ring. -/
structure Resettable (N a : ℕ) (m : DpaModule) (s : RxQueue) : Prop where
  bound : N ≤ 2 ^ 30
  slots : s.kring.nkrNumSlots = N
  hwcur_lt : s.kring.nrHwcur < N
  hwavail : s.kring.nrHwavail = a
  room : a < N
  count : s.nic.count = N
  numRxDescs : s.numRxDescs = N
  good : GoodSlots N m s

theorem Core.resettable (hc : Core N o a h bits m s) : Resettable N a m s where
  bound := hc.bound
  slots := hc.slots
  hwcur_lt := hc.hwcur_lt
  hwavail := hc.hwavail
  room := by
    have := hc.room
    omega
  count := hc.count
  numRxDescs := hc.numRxDescs
  good := hc.good

theorem Resettable.ready (hc : Resettable N a m s) : ReadyToReset N a s :=
  ⟨hc.bound, hc.slots, hc.hwcur_lt, hc.hwavail, hc.room, hc.count, hc.numRxDescs⟩

theorem Resettable.reset_fields (hc : Resettable N a m s) (drv : Intel) :
    (drv.reset m s).kring = dpaReset s.kring 0 ∧ (drv.reset m s).ring = s.ring ∧
      (drv.reset m s).nic.nextToClean = 0 ∧ (drv.reset m s).nic.head = 0 ∧
      (drv.reset m s).nic.count = N ∧ (drv.reset m s).nic.tail = N - 1 - a ∧
      (drv.reset m s).numRxDescs = N ∧
      ∀ x < N, (drv.reset m s).nic.desc x =
        ⟨RxQueue.confAddr m (dpaReset s.kring 0) s.ring.slot x, 0, 0, 0⟩ :=
  hc.ready.reset_fields drv m

theorem Resettable.hwofs (hc : Resettable N a m s) :
    (dpaReset s.kring 0).nkrHwofs = (pos N s.kring.nrHwcur a : ℕ) := by
  rw [dpaReset_nkrHwofs]
  exact resetHwofs_eq hc.bound hc.slots hc.hwcur_lt hc.hwavail hc.room

theorem Resettable.reset (hc : Resettable N a m s) (drv : Intel) (bits : RxBits) :
    Core N (pos N s.kring.nrHwcur a) a 0 bits m (drv.reset m s) := by
  have hroom := hc.room
  have hN : 0 < N := by omega
  have hofs_lt := pos_lt (a := s.kring.nrHwcur) (i := a) hN
  obtain ⟨hk, hring, hclean, hhead, hcount, htail, hdescs, hdesc⟩ := hc.reset_fields drv
  refine ⟨⟨hN, hc.bound, ?_, hofs_lt, ?_, ?_, ?_⟩, ?_, ?_, ?_, hcount, hdescs, ?_, ?_, ?_, ?_, ?_⟩
  · rw [hk, dpaReset_nkrNumSlots, hc.slots]
  · rw [hk, hc.hwofs]
  · rwa [hclean]
  · rw [hk, dpaReset_nrHwcur]
    exact hc.hwcur_lt
  · rw [hk, dpaReset_nrHwavail, hc.hwavail]
  · exact hroom
  · rw [userClean, hclean, hk, dpaReset_nrHwcur, pos, Nat.zero_add, Nat.mod_eq_of_lt hofs_lt]
  · rw [hhead, hclean, pos_zero hN]
  · rw [htail, hclean, pos, Nat.zero_add, Nat.mod_eq_of_lt (by omega)]
  · intro j hj
    omega
  · intro j _ hj
    unfold DoneAt
    rw [hdesc _ (pos_lt hN)]
    simp [AdvRxDesc.done]
  · intro x hx
    rw [hring]
    exact hc.good x hx

theorem Indexed.checkedResvd_eq {resvd : ℕ} (hs : Indexed N o s)
    (hle : s.ring.avail + resvd < N) : s.checkedResvd resvd = resvd := by
  rw [RxQueue.checkedResvd, hs.numSlots]
  exact Kernel.checkedResvd_eq hs.bound hs.nonempty hle

theorem Indexed.releaseEnd_eq {resvd : ℕ} (hs : Indexed N o s) (hi : i < N) (hle : resvd ≤ i) :
    s.releaseEnd (pos N s.kring.nrHwcur i) resvd = pos N s.kring.nrHwcur (i - resvd) := by
  rw [RxQueue.releaseEnd, hs.numSlots]
  exact Kernel.releaseEnd_eq hs.bound hs.hwcur_lt hi hle

/-- A call of `rx_sync` on a queue in order: all that the hardware has completed is harvested,
and all that the user has passed and does not keep goes back to the NIC. -/
theorem Core.rxSync (hc : Core N o a h bits m s) (hu : UserSide N a s) (doLock : Bool) :
    ∃ s₁ s', s.rxSync bits m true doLock = some (0, s') ∧ Harvested N o bits m h s s₁ ∧
      Released N o m (a - s.ring.avail - s.ring.reserved) s.ring.reserved s₁ s' ∧
      s₁.checkedResvd s.ring.reserved = s.ring.reserved := by
  have hb := hc.bound
  have hroom := hc.room
  have hav := hu.avail
  have hwavail := hc.hwavail
  have hv := hc.endHarvest bits m h (by omega) (by omega)
  have hc₁ := hc.harvested hv
  generalize hs₁ : s.endHarvest (harvestAt N o bits m s h) = s₁ at hv hc₁
  have hav₁ : s₁.ring.avail = s.ring.avail := by rw [hv.ring]
  have hlt : s.ring.cur < N := by
    rw [hu.cur]
    exact pos_lt hc.nonempty
  have hchk : s₁.checkedResvd s.ring.reserved = s.ring.reserved :=
    hc₁.checkedResvd_eq (by omega)
  have hlast : s₁.releaseEnd s.ring.cur (s₁.checkedResvd s.ring.reserved) =
      pos N s₁.kring.nrHwcur (a - s.ring.avail - s.ring.reserved) := by
    rw [hchk, hu.cur, ← hv.hwcur]
    exact hc₁.releaseEnd_eq (by omega) (by omega)
  have hgood : ∀ j < a - s.ring.avail - s.ring.reserved, GoodAt N m s₁ j :=
    fun j _ ↦ hc₁.good _ (pos_lt hc.nonempty)
  have hwavail₁ := hc₁.hwavail
  obtain ⟨s', heq, hr⟩ := hc₁.toIndexed.released (by omega) hlast hgood (by omega) (by omega)
  refine ⟨s₁, s', ?_, hv, hr, hchk⟩
  rw [RxQueue.rxSync, hc.rxSyncBody hlt (by omega) hc.done (hc.clear h le_rfl (by omega)), hs₁, heq]

theorem Core.userSide {s₁ : RxQueue} (hc : Core N o a h bits m s) (hu : UserSide N a s)
    (hv : Harvested N o bits m h s s₁)
    (hr : Released N o m (a - s.ring.avail - s.ring.reserved) s.ring.reserved s₁ s')
    (hchk : s₁.checkedResvd s.ring.reserved = s.ring.reserved) :
    s'.ring.avail = s.ring.avail + h ∧ s'.ring.reserved = s.ring.reserved ∧
      s'.ring.cur = s.ring.cur ∧ UserSide N (s.ring.avail + s.ring.reserved + h) s' := by
  have hb := hc.bound
  have hroom := hc.room
  have hav := hu.avail
  have hwavail₁ := (hc.harvested hv).hwavail
  have h1 : s'.ring.avail = s.ring.avail + h := by
    rw [hr.avail, hchk, hwavail₁, u32_of_mem (by omega) (by omega)]
    omega
  have h2 : s'.ring.reserved = s.ring.reserved := by
    rw [hr.reserved, if_pos hchk, hv.ring]
  have h3 : s'.ring.cur = s.ring.cur := by rw [hr.cur, hv.ring]
  refine ⟨h1, h2, h3, ?_, ?_⟩
  · omega
  · rw [h3, hu.cur, hr.hwcur, hv.hwcur, pos_pos, h1]
    congr 1
    omega

end Dpa.Driver
