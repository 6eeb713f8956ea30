import Dpa.Driver.IntelLeases

namespace Dpa.Driver

open Kernel MachineWord Cyclic Function Relation

variable {β : Type} {N o a h i : ℕ} {bits : RxBits} {m : DpaModule} {s s' s₁ : RxQueue} {drv : Intel}
  {t t' : Traffic β}

theorem u64_add (x y : ℕ) : u64 ((u64 x : ℕ) + (y : ℕ)) = u64 ((x + y : ℕ)) := by
  unfold u64
  omega

def ringTotals (kring : DpaKring) : ℕ × ℕ := (kring.totalPackets, kring.totalBytes)

theorem dropReserved_totals (s : RxQueue) (resvd : ℕ) :
    ringTotals (dropReserved s resvd).kring = ringTotals s.kring := by
  unfold dropReserved
  split_ifs <;> rfl

/-- The part of a call that follows the harvest counts nothing. -/
theorem releaseAndReport_totals {u resvd code : ℕ}
    (hs : s.releaseAndReport m u resvd = some (code, s')) :
    ringTotals s'.kring = ringTotals s.kring := by
  rw [releaseAndReport_eq] at hs
  by_cases hcur : s.kring.nrHwcur = s.releaseEnd u (s.checkedResvd resvd)
  · rw [if_pos hcur, Option.some.injEq, Prod.mk.injEq] at hs
    rw [← hs.2]
    exact dropReserved_totals s resvd
  · rw [if_neg hcur] at hs
    cases hr : release m s.ring.slot s.numSlots (s.releaseEnd u (s.checkedResvd resvd))
        s.kring.nkrNumSlots s.beginRelease with
    | none =>
      simp only [hr] at hs
      cases hs
    | some r =>
      obtain ⟨r, bad⟩ := r
      simp only [hr] at hs
      cases bad with
      | true =>
        rw [Option.some.injEq] at hs
        have hs' : (RxQueue.reinit m _ false).2 = s' := congrArg Prod.snd hs
        rw [← hs']
        exact dropReserved_totals s resvd
      | false =>
        rw [Option.some.injEq, Prod.mk.injEq] at hs
        rw [← hs.2]
        exact dropReserved_totals s resvd

theorem endHarvest_totals (hp : s.kring.totalPackets < 2 ^ 64) (hb : s.kring.totalBytes < 2 ^ 64)
    (hsum : ((List.range h).map fun j ↦ (s.nic.desc (pos N s.nic.nextToClean j)).length).sum <
      2 ^ 32) :
    ringTotals (s.endHarvest (harvestAt N o bits m s h)).kring =
      (u64 ((s.kring.totalPackets + h : ℕ)), u64 ((s.kring.totalBytes +
        ((List.range h).map fun j ↦ (s.nic.desc (pos N s.nic.nextToClean j)).length).sum : ℕ))) := by
  by_cases h0 : h = 0
  · subst h0
    simp only [RxQueue.endHarvest, harvestAt, ne_eq, not_true_eq_false, if_false, ringTotals,
      List.range_zero, List.map_nil, List.sum_nil, Nat.add_zero]
    unfold u64
    congr 1 <;> omega
  · have hu : u32 ((((List.range h).map fun j ↦
        (s.nic.desc (pos N s.nic.nextToClean j)).length).sum : ℕ)) =
        ((List.range h).map fun j ↦ (s.nic.desc (pos N s.nic.nextToClean j)).length).sum :=
      u32_natCast hsum
    simp only [RxQueue.endHarvest, harvestAt, ne_eq, h0, not_false_eq_true, if_true,
      ringTotals, hu, Nat.cast_add]

theorem newlyHarvested_len (filled : ℕ → β) (hc : Core N o a h bits m s)
    (hv : Harvested N o bits m h s s₁) {r resvd : ℕ} (hr : Released N o m r resvd s₁ s') :
    (newlyHarvested filled s s').map Frame.len =
      (List.range h).map fun j ↦ (s.nic.desc (pos N s.nic.nextToClean j)).length := by
  have hroom := hc.room
  have hlen : ahead N s.nic.nextToClean s'.nic.nextToClean = h := by
    rw [hr.clean, hv.clean, ahead_pos hc.clean_lt (by omega)]
  unfold newlyHarvested
  simp only [hc.slots, hlen, List.map_map]
  apply List.map_congr_left
  intro j hj
  have hjh := List.mem_range.1 hj
  have hk : dpaIdxN2k s.kring (pos N s.nic.nextToClean j) = (pos N (userClean N o s) j : ℕ) := by
    rw [hc.n2k (pos_lt hc.nonempty), userClean, pos_pos, pos_pos, Nat.add_comm]
  change (s'.ring.slot (dpaIdxN2k s.kring (pos N s.nic.nextToClean j)).toNat).len = _
  rw [hk, Int.toNat_natCast, hr.slot, hv.ring]
  simp only [harvestAt]
  rw [swept_at hc.userClean_lt hjh (by omega)]
  rfl

structure Counted (N : ℕ) (t : Traffic β) : Prop where
  length : ∀ x < N, (t.queue.nic.desc x).length < 2 ^ 16
  packets : t.queue.kring.totalPackets = u64 t.harvested.length
  bytes : t.queue.kring.totalBytes = u64 (t.harvested.map Frame.len).sum

theorem u64_lt (x : ℤ) : u64 x < 2 ^ 64 := by
  unfold u64
  omega

theorem releaseAt_length (x : ℕ) : ((releaseAt N o m s i).desc x).length = (s.nic.desc x).length := by
  simp only [releaseAt, swept]
  split_ifs <;> rfl

theorem Counted.receive (hn : Counted N t) {d : AdvRxDesc} (contents : β) (hd : d.length < 2 ^ 16) :
    Counted N (t.receive d contents) := by
  refine ⟨?_, hn.packets, hn.bytes⟩
  intro x hx
  change (update t.queue.nic.desc t.queue.nic.head d x).length < 2 ^ 16
  by_cases hxh : x = t.queue.nic.head
  · rwa [hxh, update_self]
  · rw [update_of_ne hxh]
    exact hn.length x hx

theorem Counted.rxSync (hn : Counted N t) (hsmall : N ≤ 2 ^ 16) (ht : Leases N drv m t)
    {carrier doLock : Bool} {code : ℕ} (hs : drv.rxSync m carrier doLock t.queue = some (code, s')) :
    Counted N (t.synced s') := by
  obtain ⟨o, a, h, hc, hu, -⟩ := ht.wired
  have hroom := hc.room
  rw [rxSync_eq] at hs
  cases carrier with
  | false =>
    obtain rfl : t.queue = s' := congrArg Prod.snd (Option.some.inj hs)
    rw [hc.synced_self]
    exact hn
  | true =>
    obtain ⟨s₁, s'', heq, hv, hr, hchk⟩ := hc.rxSync hu doLock
    rw [hs, Option.some.injEq, Prod.mk.injEq] at heq
    obtain ⟨-, rfl⟩ := heq
    have hlens := newlyHarvested_len t.filled hc hv hr
    have hsum : ((List.range h).map fun j ↦
        (t.queue.nic.desc (pos N t.queue.nic.nextToClean j)).length).sum < 2 ^ 32 := by
      have hle := List.sum_le_card_nsmul ((List.range h).map fun j ↦
        (t.queue.nic.desc (pos N t.queue.nic.nextToClean j)).length) (2 ^ 16 - 1) ?_
      · rw [List.length_map, List.length_range, smul_eq_mul] at hle
        omega
      · intro x hx
        obtain ⟨j, -, rfl⟩ := List.mem_map.1 hx
        exact Nat.le_sub_one_of_lt (hn.length _ (pos_lt hc.nonempty))
    have hcur : t.queue.ring.cur < N := by
      rw [hu.cur]
      exact pos_lt hc.nonempty
    rw [RxQueue.rxSync, hc.rxSyncBody hcur (by omega) hc.done (hc.clear h le_rfl (by omega))] at hs
    have htotals := (releaseAndReport_totals hs).trans (endHarvest_totals
      (by rw [hn.packets]; exact u64_lt _) (by rw [hn.bytes]; exact u64_lt _) hsum)
    obtain ⟨hp, hb⟩ := Prod.mk.injEq _ _ _ _ ▸ htotals
    refine ⟨?_, ?_, ?_⟩
    · intro x hx
      change (s'.nic.desc x).length < 2 ^ 16
      rw [hr.desc, releaseAt_length, hv.desc]
      exact hn.length x hx
    · change s'.kring.totalPackets = u64 (t.harvested ++ _).length
      have hcount : (newlyHarvested t.filled t.queue s').length = h := by
        rw [← List.length_map Frame.len, hlens, List.length_map, List.length_range]
      rw [hp, List.length_append, hcount, hn.packets, Nat.cast_add, u64_add]
    · change s'.kring.totalBytes = u64 ((t.harvested ++ _).map Frame.len).sum
      rw [hb, List.map_append, List.sum_append, hlens, hn.bytes, Nat.cast_add, u64_add]

theorem Counted.poll (hn : Counted N t) (hsmall : N ≤ 2 ^ 16) (ht : Leases N drv m t)
    {carrier : Bool} (hpoll : dpaPoll drv m carrier t.queue = some s') :
    Counted N (t.synced s') := by
  obtain ⟨_, _, hs⟩ := rxSync_of_poll hpoll
  exact hn.rxSync hsmall ht hs

theorem Resettable.counted (hr : Resettable N a m t.queue)
    (hp : t.queue.kring.totalPackets = u64 t.harvested.length)
    (hb : t.queue.kring.totalBytes = u64 (t.harvested.map Frame.len).sum) :
    Counted N (t.reset drv m) := by
  obtain ⟨hk, -, -, -, -, -, -, hdesc⟩ := hr.reset_fields drv
  refine ⟨?_, ?_, ?_⟩
  · intro x hx
    change ((drv.reset m t.queue).nic.desc x).length < 2 ^ 16
    rw [hdesc x hx]
    exact Nat.two_pow_pos 16
  · change (drv.reset m t.queue).kring.totalPackets = u64 t.harvested.length
    rw [hk, dpaReset]
    exact hp
  · change (drv.reset m t.queue).kring.totalBytes = u64 (t.harvested.map Frame.len).sum
    rw [hk, dpaReset]
    exact hb

theorem Counted.step (hn : Counted N t) (hsmall : N ≤ 2 ^ 16) (ht : Leases N drv m t)
    (hs : Traffic.LeaseStep N drv m t t') : Counted N t' := by
  cases hs with
  | receive d contents _ _ hlen => exact hn.receive contents hlen
  | poll carrier s' hpoll => exact hn.poll hsmall ht hpoll
  | rxSync carrier code s' hs => exact hn.rxSync hsmall ht hs
  | take => exact ⟨hn.length, hn.packets, hn.bytes⟩
  | reset =>
    obtain ⟨o, a, h, hc, -⟩ := ht.wired
    exact hc.resettable.counted hn.packets hn.bytes

/-- A queue as `dpa_new_if` leaves it, its counters at zero. -/
structure Fresh (N : ℕ) (m : DpaModule) (s : RxQueue) : Prop extends Registered N m s,
    OwnBuffers N m s where
  small : N ≤ 2 ^ 16
  numSlots : s.ring.numSlots = N
  packets : s.kring.totalPackets = 0
  bytes : s.kring.totalBytes = 0

theorem Fresh.counted (hf : Fresh N m s) (mem filled : ℕ → β)
    (hr : ReflTransGen (Traffic.LeaseStep N drv m) ((Traffic.start s mem filled).reset drv m) t) :
    Leases N drv m t ∧ Counted N t := by
  induction hr with
  | refl =>
    refine ⟨hf.toRegistered.leases hf.toOwnBuffers hf.numSlots mem filled, ?_⟩
    exact hf.toRegistered.resettable.counted (t := Traffic.start s mem filled) hf.packets hf.bytes
  | tail _ hs ih => exact ⟨ih.1.step hs, ih.2.step hf.small ih.1 hs⟩

end Dpa.Driver
