import Dpa.Library.Fifo
import Dpa.Driver.IntelRuns

namespace Dpa.Driver

open Kernel MachineWord Cyclic Function Relation Library

variable {β : Type} {N o a h i : ℕ} {bits : RxBits} {m : DpaModule} {s s' : RxQueue} {drv : Intel}

/-- The loop of `raw_recv_proc_intel` over a batch: the frames passed to the callback and the
index it ends at. -/
def recvLoop (m : DpaModule) (mem : ℕ → β) (ring : DpaRing) : ℕ → ℕ → List (Frame β) × ℕ
  | 0, cur => ([], cur)
  | n + 1, cur =>
    let r := recvLoop m mem ring n (dpaRingNext ring cur)
    (frameAt m mem ring cur :: r.1, r.2)

def rawRecvProcIntel (m : DpaModule) (mem : ℕ → β) (ring : DpaRing) : DpaRing × List (Frame β) :=
  if ring.avail = 0 then (ring, [])
  else
    let numProc := min ring.avail pktPerProcess
    let r := recvLoop m mem ring numProc ring.cur
    ({ ring with avail := ring.avail - numProc, cur := r.2 }, r.1)

/-- `dpa_poll` on a file descriptor that is bound to one queue. -/
def dpaPoll (drv : Intel) (m : DpaModule) (carrier : Bool) (s : RxQueue) : Option RxQueue :=
  if s.ring.avail > 0 then some s else (drv.rxSync m carrier false s).map Prod.snd

/-- A queue with its packet memory. `filled` is what the hardware put into the buffer of each
descriptor it completed, `harvested` and `delivered` are the packets seen so far by the
kernel and by the callback; no step of the code reads them. -/
structure Traffic (β : Type) where
  queue : RxQueue
  mem : ℕ → β
  filled : ℕ → β
  harvested : List (Frame β)
  delivered : List (Frame β)

/-- The packets that a call has moved into the user ring: the slots it wrote, and what the
hardware had put into their buffers. -/
def newlyHarvested (filled : ℕ → β) (s s' : RxQueue) : List (Frame β) :=
  let N := s.kring.nkrNumSlots
  (List.range (ahead N s.nic.nextToClean s'.nic.nextToClean)).map fun j ↦
    let n := pos N s.nic.nextToClean j
    let slot := s'.ring.slot (dpaIdxN2k s.kring n).toNat
    ⟨slot.len, slot.info, filled n⟩

namespace Traffic

def receive (t : Traffic β) (d : AdvRxDesc) (contents : β) : Traffic β :=
  { t with
    queue := { t.queue with nic := t.queue.nic.complete d }
    mem := update t.mem (t.queue.nic.desc t.queue.nic.head).lower contents
    filled := update t.filled t.queue.nic.head contents }

def synced (t : Traffic β) (s' : RxQueue) : Traffic β :=
  { t with queue := s', harvested := t.harvested ++ newlyHarvested t.filled t.queue s' }

def recv (m : DpaModule) (t : Traffic β) : Traffic β :=
  let r := rawRecvProcIntel m t.mem t.queue.ring
  { t with queue := { t.queue with ring := r.1 }, delivered := t.delivered ++ r.2 }

def reset (drv : Intel) (m : DpaModule) (t : Traffic β) : Traffic β :=
  { t with queue := drv.reset m t.queue }

end Traffic

inductive Traffic.Step (drv : Intel) (m : DpaModule) : Traffic β → Traffic β → Prop
  | receive (t : Traffic β) (d : AdvRxDesc) (contents : β) :
      t.queue.nic.head ≠ t.queue.nic.tail → d.done drv.bits = true →
      Step drv m t (t.receive d contents)
  | poll (t : Traffic β) (carrier : Bool) (s' : RxQueue) :
      dpaPoll drv m carrier t.queue = some s' → Step drv m t (t.synced s')
  | rxSync (t : Traffic β) (carrier : Bool) (code : ℕ) (s' : RxQueue) :
      drv.rxSync m carrier true t.queue = some (code, s') → Step drv m t (t.synced s')
  | recv (t : Traffic β) : Step drv m t (t.recv m)
  | reset (t : Traffic β) : Step drv m t (t.reset drv m)

structure OwnBuffers (N : ℕ) (m : DpaModule) (s : RxQueue) : Prop where
  valid : ∀ x < N, (s.ring.slot x).bufIdx < m.bufs.total
  distinct : ∀ x < N, ∀ y < N, (s.ring.slot x).bufIdx = (s.ring.slot y).bufIdx → x = y

def slotAddr (N : ℕ) (m : DpaModule) (s : RxQueue) (i : ℕ) : ℕ :=
  m.bufs.paddr (s.ring.slot (pos N s.kring.nrHwcur i)).bufIdx

/-- The descriptors in the hardware's hands hold the addresses of the slots past the pending
ones, and what it has completed is still in their buffers. -/
structure Wired (N a h : ℕ) (m : DpaModule) (t : Traffic β) : Prop
    extends OwnBuffers N m t.queue where
  numSlots : t.queue.ring.numSlots = N
  armed : ∀ j, h ≤ j → j < N - a →
    (t.queue.nic.desc (pos N t.queue.nic.nextToClean j)).lower = slotAddr N m t.queue (a + j)
  filled : ∀ j < h, t.mem (slotAddr N m t.queue (a + j)) =
    t.filled (pos N t.queue.nic.nextToClean j)

def Traffic.window (N : ℕ) (m : DpaModule) (t : Traffic β) : List (Frame β) :=
  (List.range t.queue.ring.avail).map fun j ↦
    frameAt m t.mem t.queue.ring (pos N t.queue.ring.cur j)

structure Carries (N : ℕ) (drv : Intel) (m : DpaModule) (t : Traffic β) (q : Fifo (Frame β)) :
    Prop where
  wired : ∃ o a h, Core N o a h drv.bits m t.queue ∧ UserSide N a t.queue ∧ Wired N a h m t
  reserved : t.queue.ring.reserved = 0
  sent : q.sent = t.harvested
  received : q.received = t.delivered
  pending : q.pending = t.window N m

theorem OwnBuffers.slotAddr_inj (hb : OwnBuffers N m s) {j : ℕ} (hi : i < N) (hj : j < N)
    (h : slotAddr N m s i = slotAddr N m s j) : i = j := by
  have hN : 0 < N := by omega
  have hx := pos_lt (a := s.kring.nrHwcur) (i := i) hN
  have hy := pos_lt (a := s.kring.nrHwcur) (i := j) hN
  have hidx := m.bufs.paddr_inj _ (hb.valid _ hx) _ (hb.valid _ hy) h
  exact pos_injective hi hj (hb.distinct _ hx _ hy hidx)

variable {t t' : Traffic β} {q : Fifo (Frame β)}

theorem UserSide.window_eq (hu : UserSide N a t.queue) : t.window N m =
    (List.range t.queue.ring.avail).map fun j ↦ frameAt m t.mem t.queue.ring
      (pos N t.queue.kring.nrHwcur (a - t.queue.ring.avail + j)) := by
  apply List.map_congr_left
  intro j _
  rw [hu.cur, pos_pos]

/-- The packets that the hardware writes do not reach what is already in the user ring. -/
theorem Wired.receive (hw : Wired N a h m t) (hc : Core N o a h bits m t.queue)
    (hu : UserSide N a t.queue) (hroom : a + h + 1 < N) (d : AdvRxDesc) (contents : β) :
    Wired N a (h + 1) m (t.receive d contents) ∧
      (t.receive d contents).window N m = t.window N m := by
  have hhead := hc.head
  have hlower : (t.queue.nic.desc t.queue.nic.head).lower = slotAddr N m t.queue (a + h) := by
    rw [hhead]
    exact hw.armed h le_rfl (by omega)
  have hmem (i : ℕ) (hi : i < N) (hne : i ≠ a + h) :
      (t.receive d contents).mem (slotAddr N m t.queue i) = t.mem (slotAddr N m t.queue i) := by
    refine update_of_ne ?_ _ _
    intro heq
    rw [hlower] at heq
    exact hne (hw.toOwnBuffers.slotAddr_inj hi (by omega) heq)
  have hne {j : ℕ} (hj : j < N) (hjh : j ≠ h) : pos N t.queue.nic.nextToClean j ≠ t.queue.nic.head := by
    rw [hhead]
    intro heq
    exact hjh (pos_injective hj (by omega) heq)
  refine ⟨⟨⟨hw.valid, hw.distinct⟩, hw.numSlots, ?_, ?_⟩, ?_⟩
  · intro j hj hja
    change (update t.queue.nic.desc t.queue.nic.head d (pos N t.queue.nic.nextToClean j)).lower =
      slotAddr N m t.queue (a + j)
    rw [update_of_ne (hne (by omega) (by omega))]
    exact hw.armed j (by omega) hja
  · intro j hj
    rcases Nat.lt_succ_iff_lt_or_eq.1 hj with hjh | rfl
    · refine (hmem (a + j) (by omega) (by omega)).trans ((hw.filled j hjh).trans ?_)
      exact (update_of_ne (hne (by omega) (by omega)) _ _).symm
    · change update t.mem _ contents (slotAddr N m t.queue (a + j)) =
        update t.filled t.queue.nic.head contents (pos N t.queue.nic.nextToClean j)
      rw [hlower, ← hhead, update_self, update_self]
  · have hu' : UserSide N a (t.receive d contents).queue := ⟨hu.avail, hu.cur⟩
    have hav := hu.avail
    rw [hu'.window_eq, hu.window_eq]
    apply List.map_congr_left
    intro j hj
    have hjlt : j < t.queue.ring.avail := List.mem_range.1 hj
    have hlt : a - t.queue.ring.avail + j < a := by omega
    exact frameAt_congr rfl (hmem (a - t.queue.ring.avail + j) (by omega) (by omega))

section

variable {s₁ : RxQueue} {r resvd : ℕ}

theorem Core.slot_old (hc : Core N o a h bits m s) (hv : Harvested N o bits m h s s₁)
    (hr : Released N o m r resvd s₁ s') (hi : i < a) :
    s'.ring.slot (pos N s.kring.nrHwcur i) = s.ring.slot (pos N s.kring.nrHwcur i) := by
  have hroom := hc.room
  have hcur := hc.hwcur_lt
  have hpos : pos N s.kring.nrHwcur i = pos N (userClean N o s) (N - a + i) := by
    rw [hc.clean, pos_pos, show a + (N - a + i) = i + N by omega, pos, pos, ← Nat.add_assoc,
      Nat.add_mod_right]
  rw [hr.slot, hv.ring, hpos]
  exact swept_off hc.userClean_lt (by omega) (by omega)

theorem slot_bufIdx (hv : Harvested N o bits m h s s₁) (hr : Released N o m r resvd s₁ s')
    (x : ℕ) : (s'.ring.slot x).bufIdx = (s.ring.slot x).bufIdx := by
  rw [hr.slot, hv.ring]
  simp only [harvestAt, swept]
  split_ifs <;> rfl

theorem slotAddr_moved (hv : Harvested N o bits m h s s₁) (hr : Released N o m r resvd s₁ s')
    (i : ℕ) : slotAddr N m s' i = slotAddr N m s (r + i) := by
  rw [slotAddr, slotAddr, slot_bufIdx hv hr, hr.hwcur, hv.hwcur, pos_pos]

theorem Wired.newlyHarvested (hw : Wired N a h m t) (hc : Core N o a h bits m t.queue)
    (hv : Harvested N o bits m h t.queue s₁) (hr : Released N o m r resvd s₁ s') :
    newlyHarvested t.filled t.queue s' = (List.range h).map fun j ↦
      frameAt m t.mem s'.ring (pos N t.queue.kring.nrHwcur (a + j)) := by
  have hroom := hc.room
  have hN := hc.nonempty
  have hlen : ahead N t.queue.nic.nextToClean s'.nic.nextToClean = h := by
    rw [hr.clean, hv.clean, ahead_pos hc.clean_lt (by omega)]
  unfold Driver.newlyHarvested
  simp only [hc.slots, hlen]
  apply List.map_congr_left
  intro j hj
  have hjh := List.mem_range.1 hj
  have hclean : pos N t.queue.nic.nextToClean o = pos N t.queue.kring.nrHwcur a := hc.clean
  have hk : dpaIdxN2k t.queue.kring (pos N t.queue.nic.nextToClean j) =
      (pos N t.queue.kring.nrHwcur (a + j) : ℕ) := by
    rw [hc.n2k (pos_lt hN), pos_pos, Nat.add_comm, ← pos_pos, hclean, pos_pos]
  have hfilled := hw.filled j hjh
  rw [slotAddr] at hfilled
  rw [hk, Int.toNat_natCast, frameAt, slot_bufIdx hv hr, hfilled]

theorem Wired.synced (hw : Wired N a h m t) (hc : Core N o a h bits m t.queue)
    (hv : Harvested N o bits m h t.queue s₁) (hr : Released N o m r resvd s₁ s') (hra : r ≤ a) :
    Wired N (a + h - r) 0 m (t.synced s') := by
  have hroom := hc.room
  have hN := hc.nonempty
  have hc₁ := hc.harvested hv
  refine ⟨⟨?_, ?_⟩, ?_, ?_, ?_⟩
  · intro x hx
    change (s'.ring.slot x).bufIdx < _
    rw [slot_bufIdx hv hr]
    exact hw.valid x hx
  · intro x hx y hy
    change (s'.ring.slot x).bufIdx = (s'.ring.slot y).bufIdx → _
    rw [slot_bufIdx hv hr, slot_bufIdx hv hr]
    exact hw.distinct x hx y hy
  · change s'.ring.numSlots = N
    rw [hr.numSlots, hv.ring]
    exact hw.numSlots
  · intro j _ hj
    change (s'.nic.desc (pos N s'.nic.nextToClean j)).lower = slotAddr N m s' _
    rw [slotAddr_moved hv hr, hr.clean, hr.desc]
    by_cases hja : j < N - (a + h)
    · have harm := hw.armed (h + j) (by omega) (by omega)
      rw [hc₁.pos_clean]
      simp only [releaseAt]
      rw [swept_off hc₁.nicCur_lt (by omega) (by omega), hv.desc, ← hc₁.pos_clean, hv.clean,
        pos_pos, harm]
      congr 1
      omega
    · have hin : pos N s₁.nic.nextToClean j = pos N (nicCur N o s₁) (j - (N - (a + h))) := by
        rw [hc₁.nicCur, pos_pos, Nat.add_sub_cancel' (by omega)]
      have hidx : pos N t.queue.kring.nrHwcur (r + (a + h - r + j)) =
          pos N s₁.kring.nrHwcur (j - (N - (a + h))) := by
        rw [hv.hwcur, show r + (a + h - r + j) = j - (N - (a + h)) + N by omega, pos, pos,
          ← Nat.add_assoc, Nat.add_mod_right]
      have hslot : (s₁.ring.slot (pos N s₁.kring.nrHwcur (j - (N - (a + h))))).bufIdx =
          (t.queue.ring.slot (pos N s₁.kring.nrHwcur (j - (N - (a + h))))).bufIdx := by
        rw [← hr.slot, slot_bufIdx hv hr]
      have hvalid := hw.valid (pos N s₁.kring.nrHwcur (j - (N - (a + h)))) (pos_lt hN)
      rw [hin]
      simp only [releaseAt]
      rw [swept_at hc₁.nicCur_lt (by omega) (by omega), slotAddr, hidx, AdvRxDesc.rearm,
        bufVpa_snd (by rwa [hslot]), hslot]
  · intro j hj
    omega

theorem Wired.window_synced (hw : Wired N a h m t) (hc : Core N o a h bits m t.queue)
    (hu : UserSide N a t.queue) (hv : Harvested N o bits m h t.queue s₁)
    (hr : Released N o m (a - t.queue.ring.avail - t.queue.ring.reserved) t.queue.ring.reserved
      s₁ s')
    (hchk : s₁.checkedResvd t.queue.ring.reserved = t.queue.ring.reserved) :
    (t.synced s').window N m =
      t.window N m ++ Driver.newlyHarvested t.filled t.queue s' := by
  have hav := hu.avail
  obtain ⟨h1, _, h3, _⟩ := hc.userSide hu hv hr hchk
  have hwin : (t.synced s').window N m = (List.range (t.queue.ring.avail + h)).map fun j ↦
      frameAt m t.mem s'.ring (pos N t.queue.kring.nrHwcur (a - t.queue.ring.avail + j)) := by
    rw [Traffic.window]
    change (List.range s'.ring.avail).map (fun j ↦ frameAt m t.mem s'.ring
      (pos N s'.ring.cur j)) = _
    rw [h1, h3]
    apply List.map_congr_left
    intro j _
    rw [hu.cur, pos_pos]
  rw [hwin, hu.window_eq, hw.newlyHarvested hc hv hr, List.range_add, List.map_append,
    List.map_map]
  congr 1
  · apply List.map_congr_left
    intro j hj
    have hjlt := List.mem_range.1 hj
    have hslot := hc.slot_old hv hr (show a - t.queue.ring.avail + j < a by omega)
    exact frameAt_congr hslot rfl
  · apply List.map_congr_left
    intro j _
    simp only [Function.comp]
    rw [show a - t.queue.ring.avail + (t.queue.ring.avail + j) = a + j by omega]

end

theorem recvLoop_eq (mem : ℕ → β) {ring : DpaRing} (hb : N ≤ 2 ^ 30) (hN : 0 < N)
    (hring : ring.numSlots = N) (c : ℕ) (n : ℕ) :
    recvLoop m mem ring n (pos N c i) =
      ((List.range n).map fun j ↦ frameAt m mem ring (pos N c (i + j)), pos N c (i + n)) := by
  induction n generalizing i with
  | zero => rfl
  | succ n ih =>
    have hshift (j : ℕ) : i + 1 + j = i + (j + 1) := by omega
    simp only [recvLoop, dpaRingNext_pos hb hN hring, ih, List.range_succ_eq_map, List.map_cons,
      List.map_map, Function.comp_def, hshift, Nat.add_zero, Nat.succ_eq_add_one]

theorem rawRecvProcIntel_eq (mem : ℕ → β) {ring : DpaRing} (hb : N ≤ 2 ^ 30) (hN : 0 < N)
    (hring : ring.numSlots = N) (hcur : ring.cur < N) :
    rawRecvProcIntel m mem ring =
      ({ ring with
          avail := ring.avail - min ring.avail pktPerProcess
          cur := pos N ring.cur (min ring.avail pktPerProcess) },
        (List.range (min ring.avail pktPerProcess)).map fun j ↦
          frameAt m mem ring (pos N ring.cur j)) := by
  unfold rawRecvProcIntel
  by_cases h0 : ring.avail = 0
  · have hmin : min ring.avail pktPerProcess = 0 := by
      rw [h0]
      exact Nat.zero_min _
    rw [if_pos h0, hmin, pos_zero hcur, Nat.sub_zero]
    rfl
  · have hloop := recvLoop_eq (m := m) (i := 0) mem hb hN hring ring.cur
      (min ring.avail pktPerProcess)
    rw [pos_zero hcur] at hloop
    simp only [if_neg h0, hloop, Nat.zero_add]

theorem Carries.recv (hq : Carries N drv m t q) :
    Carries N drv m (t.recv m) (q.pop (min t.queue.ring.avail pktPerProcess)) := by
  obtain ⟨o, a, h, hc, hu, hw⟩ := hq.wired
  have hav := hu.avail
  have hcur : t.queue.ring.cur < N := by
    rw [hu.cur]
    exact pos_lt hc.nonempty
  have heq := rawRecvProcIntel_eq (m := m) t.mem hc.bound hc.nonempty hw.numSlots hcur
  have hle : min t.queue.ring.avail pktPerProcess ≤ t.queue.ring.avail := min_le_left _ _
  unfold Traffic.recv
  rw [heq]
  generalize min t.queue.ring.avail pktPerProcess = n at heq hle
  refine ⟨⟨o, a, h, hc.withRing rfl, hu.consume hle rfl (Nat.le_add_right _ _) rfl,
    ⟨⟨hw.valid, hw.distinct⟩, hw.numSlots, hw.armed, hw.filled⟩⟩, hq.reserved, hq.sent, ?_, ?_⟩
  · change q.received ++ q.pending.take n = t.delivered ++ _
    rw [hq.received, hq.pending, Traffic.window, ← List.map_take, List.take_range, min_eq_left hle]
  · change q.pending.drop n = (List.range (t.queue.ring.avail - n)).map fun j ↦
      frameAt m t.mem t.queue.ring (pos N (pos N t.queue.ring.cur n) j)
    obtain ⟨k, hk⟩ := Nat.exists_eq_add_of_le hle
    rw [hq.pending, Traffic.window, hk, List.range_add, List.map_append,
      List.drop_left' (by simp), List.map_map, Nat.add_sub_cancel_left]
    apply List.map_congr_left
    intro j _
    simp only [Function.comp, pos_pos]

theorem Resettable.wired (hr : Resettable N a m t.queue) (hb : OwnBuffers N m t.queue)
    (hnum : t.queue.ring.numSlots = N) : Wired N a 0 m (t.reset drv m) := by
  have hroom := hr.room
  have hN : 0 < N := by omega
  obtain ⟨hk, hring, hclean, _, _, _, _, hdesc⟩ := hr.reset_fields drv
  have hn2k (j : ℕ) (hj : j < N) := (hr.reset drv drv.bits).n2k hj
  refine ⟨⟨?_, ?_⟩, ?_, ?_, ?_⟩
  · change ∀ x < N, ((drv.reset m t.queue).ring.slot x).bufIdx < _
    rw [hring]
    exact hb.valid
  · change ∀ x < N, ∀ y < N, ((drv.reset m t.queue).ring.slot x).bufIdx =
      ((drv.reset m t.queue).ring.slot y).bufIdx → x = y
    rw [hring]
    exact hb.distinct
  · change (drv.reset m t.queue).ring.numSlots = N
    rw [hring]
    exact hnum
  · intro j _ hj
    change ((drv.reset m t.queue).nic.desc (pos N (drv.reset m t.queue).nic.nextToClean j)).lower =
      slotAddr N m (drv.reset m t.queue) (a + j)
    have hjN : pos N 0 j = j := by rw [pos, Nat.zero_add, Nat.mod_eq_of_lt (by omega)]
    have hidx : pos N j (pos N t.queue.kring.nrHwcur a) = pos N t.queue.kring.nrHwcur (a + j) := by
      rw [← pos_pos]
      unfold pos
      rw [Nat.add_comm]
    have hj' := hn2k j (by omega)
    rw [hk] at hj'
    rw [hclean, hjN, hdesc j (by omega), slotAddr, hring, hk, dpaReset_nrHwcur]
    change (bufVpa m.bufs (t.queue.ring.slot (dpaIdxN2k (dpaReset t.queue.kring 0) j).toNat)).2 = _
    rw [hj', Int.toNat_natCast, hidx, bufVpa_snd (hb.valid _ (pos_lt hN))]
  · intro j hj
    omega

theorem Carries.reset (hq : Carries N drv m t q) : Carries N drv m (t.reset drv m) q := by
  obtain ⟨o, a, h, hc, hu, hw⟩ := hq.wired
  have hr := hc.resettable
  obtain ⟨_, hring, _⟩ := hr.reset_fields drv
  refine ⟨⟨_, a, 0, hr.reset drv drv.bits, hr.userSide hu, hr.wired hw.toOwnBuffers hw.numSlots⟩,
    ?_, hq.sent, hq.received, ?_⟩
  · change (drv.reset m t.queue).ring.reserved = 0
    rw [hring]
    exact hq.reserved
  · rw [hq.pending, Traffic.window, Traffic.window]
    change _ = (List.range (drv.reset m t.queue).ring.avail).map fun j ↦
      frameAt m t.mem (drv.reset m t.queue).ring (pos N (drv.reset m t.queue).ring.cur j)
    rw [hring]

theorem Carries.receive (hq : Carries N drv m t q) {d : AdvRxDesc} (contents : β)
    (hne : t.queue.nic.head ≠ t.queue.nic.tail) (hd : d.done drv.bits = true) :
    Carries N drv m (t.receive d contents) q := by
  obtain ⟨o, a, h, hc, hu, hw⟩ := hq.wired
  obtain ⟨hc', hroom⟩ := hc.completed hne hd
  obtain ⟨hw', hwin⟩ := hw.receive hc hu hroom d contents
  exact ⟨⟨o, a, h + 1, hc', ⟨hu.avail, hu.cur⟩, hw'⟩, hq.reserved, hq.sent, hq.received,
    hq.pending.trans hwin.symm⟩

theorem Core.newlyHarvested_self (hc : Core N o a h bits m s) (filled : ℕ → β) :
    newlyHarvested filled s s = [] := by
  unfold newlyHarvested
  simp only [hc.slots, ahead_self hc.clean_lt]
  rfl

theorem Core.synced_self (hc : Core N o a h bits m t.queue) : t.synced t.queue = t := by
  unfold Traffic.synced
  rw [hc.newlyHarvested_self, List.append_nil]

/-- What a call that finds a carrier leaves of the queue and its packet memory. -/
theorem Wired.after (hw : Wired N a h m t) (hc : Core N o a h bits m t.queue)
    (hu : UserSide N a t.queue) (hv : Harvested N o bits m h t.queue s₁)
    (hr : Released N o m (a - t.queue.ring.avail - t.queue.ring.reserved) t.queue.ring.reserved
      s₁ s')
    (hchk : s₁.checkedResvd t.queue.ring.reserved = t.queue.ring.reserved) :
    ∃ o a h, Core N o a h bits m s' ∧ UserSide N a s' ∧ Wired N a h m (t.synced s') := by
  have hav := hu.avail
  obtain ⟨-, -, -, hu'⟩ := hc.userSide hu hv hr hchk
  have hc' := (hc.harvested hv).released hr (by omega)
  have hw' := hw.synced hc hv hr (by omega)
  have ha' : a + h - (a - t.queue.ring.avail - t.queue.ring.reserved) =
      t.queue.ring.avail + t.queue.ring.reserved + h := by
    omega
  rw [ha'] at hc' hw'
  exact ⟨_, _, 0, hc', hu', hw'⟩

/-- A poll is a call of `rx_sync`, without a carrier where there still are packets. -/
theorem rxSync_of_poll {carrier : Bool} (h : dpaPoll drv m carrier s = some s') :
    ∃ carrier code, drv.rxSync m carrier false s = some (code, s') := by
  unfold dpaPoll at h
  split_ifs at h with hav
  · obtain rfl : s = s' := Option.some.inj h
    exact ⟨false, 0, by rw [rxSync_eq]; rfl⟩
  · obtain ⟨⟨code, s''⟩, hr, rfl⟩ := Option.map_eq_some_iff.1 h
    exact ⟨carrier, code, hr⟩

theorem Carries.rxSync (hq : Carries N drv m t q) {carrier doLock : Bool} {code : ℕ}
    (hs : drv.rxSync m carrier doLock t.queue = some (code, s')) :
    Carries N drv m (t.synced s') (q.push (newlyHarvested t.filled t.queue s')) := by
  obtain ⟨o, a, h, hc, hu, hw⟩ := hq.wired
  rw [rxSync_eq] at hs
  cases carrier with
  | false =>
    obtain rfl : t.queue = s' := congrArg Prod.snd (Option.some.inj hs)
    rw [hc.synced_self, hc.newlyHarvested_self, Fifo.push_nil]
    exact hq
  | true =>
    obtain ⟨s₁, s'', heq, hv, hr, hchk⟩ := hc.rxSync hu doLock
    rw [hs, Option.some.injEq, Prod.mk.injEq] at heq
    obtain ⟨_, rfl⟩ := heq
    have hkept := (hc.userSide hu hv hr hchk).2.1
    refine ⟨hw.after hc hu hv hr hchk, hkept.trans hq.reserved, ?_, hq.received, ?_⟩
    · change q.sent ++ _ = t.harvested ++ _
      rw [hq.sent]
    · rw [hw.window_synced hc hu hv hr hchk]
      change q.pending ++ _ = _
      rw [hq.pending]

theorem Carries.step (hq : Carries N drv m t q) (hs : Traffic.Step drv m t t') :
    ∃ q', Fifo.Step q q' ∧ Carries N drv m t' q' := by
  cases hs with
  | receive d contents hne hd => exact ⟨q, q.step_idle, hq.receive contents hne hd⟩
  | poll carrier s' hpoll =>
    obtain ⟨_, _, hs⟩ := rxSync_of_poll hpoll
    exact ⟨_, .push q _, hq.rxSync hs⟩
  | rxSync carrier code s' hs => exact ⟨_, .push q _, hq.rxSync hs⟩
  | recv => exact ⟨_, .pop q _, hq.recv⟩
  | reset => exact ⟨q, q.step_idle, hq.reset⟩

def Traffic.start (s : RxQueue) (mem filled : ℕ → β) : Traffic β := ⟨s, mem, filled, [], []⟩

theorem Registered.carries (hs : Registered N m s) (hb : OwnBuffers N m s)
    (hnum : s.ring.numSlots = N) (mem filled : ℕ → β) :
    Carries N drv m ((Traffic.start s mem filled).reset drv m) Fifo.empty := by
  have hr := hs.resettable
  obtain ⟨_, hring, _⟩ := hr.reset_fields drv
  refine ⟨⟨_, 0, 0, hr.reset drv drv.bits, hr.userSide hs.userSide,
    hr.wired (t := Traffic.start s mem filled) hb hnum⟩, ?_, rfl, rfl, ?_⟩
  · change (drv.reset m s).ring.reserved = 0
    rw [hring]
    exact hs.reserved
  · rw [Traffic.window]
    change [] = (List.range (drv.reset m s).ring.avail).map _
    rw [hring, hs.avail]
    rfl

/-- The callback sees the harvested packets in order, each once, and all of them when the ring
is drained. -/
theorem intel_delivers {s₀ : RxQueue} (h₀ : Registered N m s₀) (hb : OwnBuffers N m s₀)
    (hnum : s₀.ring.numSlots = N) (mem filled : ℕ → β)
    (hr : ReflTransGen (Traffic.Step drv m) ((Traffic.start s₀ mem filled).reset drv m) t) :
    t.delivered <+: t.harvested ∧
      (t.queue.ring.avail = 0 → t.delivered = t.harvested) := by
  obtain ⟨q, _, hq⟩ := Fifo.follows
    (fun _ _ _ hq hs ↦ hq.step hs) hr (h₀.carries hb hnum mem filled)
  refine ⟨?_, ?_⟩
  · rw [← hq.received, ← hq.sent]
    exact q.received_prefix
  · intro h0
    have hpend : q.pending = [] := by
      rw [hq.pending, Traffic.window, h0]
      rfl
    rw [← hq.received, ← hq.sent]
    exact q.received_eq hpend

def fourSlotsSynced : RxQueue :=
  match Intel.igb.rxSync eightBuffers true true fourSlotsFilled with
  | some r => r.2
  | none => fourSlotsFilled

theorem fourSlots_sync :
    Intel.igb.rxSync eightBuffers true true fourSlotsFilled = some (0, fourSlotsSynced) := by
  obtain ⟨s', heq, _⟩ := (fourSlots_registered.ordered.run fourSlots_run).rxSync true
  unfold fourSlotsSynced
  rw [heq]

theorem fourSlots_ownBuffers : OwnBuffers 4 eightBuffers fourSlots :=
  ⟨by decide, by decide⟩

def fourSlotsServed : Traffic ℕ :=
  ((((Traffic.start fourSlots (fun _ ↦ 0) (fun _ ↦ 0)).reset .igb eightBuffers).receive
    ⟨0, 1, 60, 0⟩ 7).synced fourSlotsSynced).recv eightBuffers

theorem fourSlots_served : ReflTransGen (Traffic.Step .igb eightBuffers)
    ((Traffic.start fourSlots (fun _ ↦ 0) (fun _ ↦ 0)).reset .igb eightBuffers)
    fourSlotsServed :=
  ((ReflTransGen.single (.receive _ ⟨0, 1, 60, 0⟩ 7 (by decide +kernel) (by decide))).tail
    (.rxSync _ true 0 fourSlotsSynced fourSlots_sync)).tail (.recv _)

theorem intel_delivers_fourSlots :
    (fourSlotsServed.delivered.map fun f ↦ (f.len, f.info, f.contents)) = [(60, 0, 7)] ∧
    fourSlotsServed.delivered <+: fourSlotsServed.harvested ∧
      (fourSlotsServed.queue.ring.avail = 0 →
        fourSlotsServed.delivered = fourSlotsServed.harvested) :=
  ⟨by decide +kernel, intel_delivers fourSlots_registered fourSlots_ownBuffers rfl _ _
    fourSlots_served⟩

end Dpa.Driver
