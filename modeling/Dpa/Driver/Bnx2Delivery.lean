import Dpa.Library.Fifo
import Dpa.Library.Machine
import Dpa.Driver.Bnx2Reset

namespace Dpa.Driver

open Kernel MachineWord Cyclic Paged Function Loop Library

variable {β : Type} {N R o T a i resvd : ℕ} {m : DpaModule} {s s' : Bnx2Queue β}

structure Bnx2Traffic (β : Type) where
  queue : Bnx2Queue β
  delivered : List (Frame β)

inductive Bnx2Event (β : Type)
  | receive (frame : L2Frame β)
  | poll (carrier : Bool)
  | rxSync (carrier : Bool)
  | recv
  | reset

namespace Bnx2Traffic

variable (m : DpaModule)

def recv (t : Bnx2Traffic β) : Bnx2Traffic β :=
  let r := rawRecvProcBnx2 m (fun x ↦ (t.queue.mem x).contents) t.queue.ring
  { queue := { t.queue with ring := r.1 }
    delivered := t.delivered ++ r.2 }

def exec (t : Bnx2Traffic β) : Bnx2Event β → Option (Bnx2Traffic β)
  | .receive frame =>
    if bnx2GetHwRxCons t.queue.nic.hwRxCons ≠ t.queue.nic.bidx then
      some { t with queue := t.queue.receive frame }
    else none
  | .poll carrier => (t.queue.dpaPoll m carrier).map fun s ↦ { t with queue := s }
  | .rxSync carrier =>
    (t.queue.bnx2DpaRxSync m carrier true).map fun r ↦ { t with queue := r.2 }
  | .recv => some (t.recv m)
  | .reset => some { t with queue := t.queue.reset m }

end Bnx2Traffic

/-- A call of `rx_sync` that finds a carrier takes the page links for what they are. -/
structure SeesLinks (s : Bnx2Queue β) : Prop where
  pending : ∀ j < s.ring.avail,
    skipsSlot s.offsetTold.ring (pos s.kring.nkrNumSlots s.ring.cur j) =
      skipsSlot s.ring (pos s.kring.nkrNumSlots s.ring.cur j)
  counted : s.linksCounted s.ready = s.linksPassed s.ready
  configured : ∀ j < s.ready,
    s.rxRingIdx (nextRxBd^[j] s.nic.rxCons) < s.rxRingSize / maxRxDescCnt * rxDescCnt

/-- The chip does not fill the buffer of a packet that the user has still to see. -/
def SparesPending (m : DpaModule) (s : Bnx2Queue β) : Prop :=
  ∀ j < s.ring.avail, skipsSlot s.ring (pos s.kring.nkrNumSlots s.ring.cur j) = false →
    s.nic.rxBufRing (s.rxRingIdx (bnx2GetHwRxCons s.nic.hwRxCons)) ≠
      m.bufs.paddr (s.ring.slot (pos s.kring.nkrNumSlots s.ring.cur j)).bufIdx

instance (s : Bnx2Queue β) : Decidable (SparesPending m s) :=
  inferInstanceAs (Decidable (∀ j < _, _ → _))

theorem seesLinks_iff : SeesLinks s ↔
    (∀ j < s.ring.avail, skipsSlot s.offsetTold.ring (pos s.kring.nkrNumSlots s.ring.cur j) =
      skipsSlot s.ring (pos s.kring.nkrNumSlots s.ring.cur j)) ∧
    s.linksCounted s.ready = s.linksPassed s.ready ∧
    ∀ j < s.ready,
      s.rxRingIdx (nextRxBd^[j] s.nic.rxCons) < s.rxRingSize / maxRxDescCnt * rxDescCnt :=
  ⟨fun h ↦ ⟨h.pending, h.counted, h.configured⟩, fun h ↦ ⟨h.1, h.2.1, h.2.2⟩⟩

instance (s : Bnx2Queue β) : Decidable (SeesLinks s) := decidable_of_iff _ seesLinks_iff.symm

/-- What an event asks of the queue for its packets to arrive. -/
def Arrives (m : DpaModule) (t : Bnx2Traffic β) : Bnx2Event β → Prop
  | .receive _ => SparesPending m t.queue
  | .poll carrier => carrier = true → t.queue.ring.avail = 0 → SeesLinks t.queue
  | .rxSync carrier => carrier = true → SeesLinks t.queue
  | _ => True

instance (t : Bnx2Traffic β) : (e : Bnx2Event β) → Decidable (Arrives m t e)
  | .receive _ => inferInstanceAs (Decidable (SparesPending m t.queue))
  | .poll carrier => inferInstanceAs (Decidable (carrier = true → _ = 0 → SeesLinks t.queue))
  | .rxSync carrier => inferInstanceAs (Decidable (carrier = true → SeesLinks t.queue))
  | .recv => isTrue trivial
  | .reset => isTrue trivial

def Bnx2Queue.slotAddr (m : DpaModule) (s : Bnx2Queue β) (x : ℕ) : ℕ :=
  m.bufs.paddr (s.ring.slot x).bufIdx

def Bnx2Queue.userSlots (N : ℕ) (s : Bnx2Queue β) : List ℕ :=
  (List.range s.ring.avail).map (pos N s.ring.cur)

def Bnx2Queue.window (N : ℕ) (m : DpaModule) (s : Bnx2Queue β) : List (Frame β) :=
  ((s.userSlots N).filter fun x ↦ !skipsSlot s.ring x).map
    (frameAt m (fun x ↦ (s.mem x).contents) s.ring)

/-- The descriptors that the driver has configured hold the addresses of their slots, and the
window ends where the harvest stands. -/
structure Bnx2Wired (N R o T a : ℕ) (m : DpaModule) (s : Bnx2Queue β) : Prop where
  valid : ∀ x < N, (s.ring.slot x).bufIdx < m.bufs.total
  numSlots : s.ring.numSlots = N
  ends : pos N s.kring.nrHwcur a = pos N o (place 255 T)
  wired : ∀ t, place 255 t % N < R / 255 * 256 →
    s.nic.rxBufRing (place 255 t % N) = s.slotAddr m (pos N o (place 255 t))

theorem skipsSlot_congr {ring ring' : DpaRing} (hofs : ring.hwOfs = ring'.hwOfs)
    (hnum : ring.numSlots = ring'.numSlots) (x : ℕ) : skipsSlot ring x = skipsSlot ring' x := by
  unfold skipsSlot
  rw [hofs, hnum]

/-- The user skips the slots of the page links, counted from the offset it was told. -/
theorem skipsSlot_eq {ring : DpaRing} (hb : N ≤ 2 ^ 30) (hnum : ring.numSlots = N)
    (hofs : ring.hwOfs = o) (ho : o < N) {x : ℕ} (hx : x < N) :
    skipsSlot ring x = decide (ahead N o x % 256 = 255) := by
  have hdiff : s32 (u32 ((x : ℤ) - o)) = x - o := by
    rw [s32_u32, s32_of_mem (by omega) (by omega)]
  have hN : s32 (N : ℕ) = N := s32_of_mem (by omega) (by omega)
  have hcur : u32 (if (x : ℤ) - o < 0 then s32 (x - o + N)
      else if (x : ℤ) - o ≥ N then s32 (x - o - N) else x - o) = ahead N o x := by
    rw [ahead_eq ho hx]
    split_ifs with h1 h2 h3 h3
    · omega
    · rw [s32_of_mem (by omega) (by omega), u32_of_mem (by omega) (by omega)]
      omega
    · omega
    · omega
    · rw [u32_of_mem (by omega) (by omega)]
      omega
    · omega
  have hmask (y : ℕ) : y &&& (rxDescCnt - 1) = y % 256 := and_maxRxDescCnt y
  unfold skipsSlot
  simp only [hofs, hnum, hdiff, hN, hcur, hmask]
  rfl

theorem recvLoopBnx2_eq (mem : ℕ → β) {ring : DpaRing} (hb : N ≤ 2 ^ 30) (hN : 0 < N)
    (hring : ring.numSlots = N) (c : ℕ) (n : ℕ) :
    recvLoopBnx2 m mem ring n (pos N c i) =
      ((((List.range n).map fun j ↦ pos N c (i + j)).filter fun x ↦ !skipsSlot ring x).map
        (frameAt m mem ring), pos N c (i + n)) := by
  induction n generalizing i with
  | zero => rfl
  | succ n ih =>
    have hshift (j : ℕ) : i + 1 + j = i + (j + 1) := by omega
    simp only [recvLoopBnx2, dpaRingNext_pos hb hN hring, ih, List.range_succ_eq_map, List.map_cons,
      List.map_map, Function.comp_def, hshift, Nat.add_zero, Nat.succ_eq_add_one]
    cases hskip : skipsSlot ring (pos N c i) with
    | true => rw [List.filter_cons_of_neg (by simp [hskip]), if_pos rfl]
    | false => rw [List.filter_cons_of_pos (by simp [hskip]), if_neg (by simp), List.map_cons]

theorem rawRecvProcBnx2_eq (mem : ℕ → β) {ring : DpaRing} (hb : N ≤ 2 ^ 30) (hN : 0 < N)
    (hring : ring.numSlots = N) (hcur : ring.cur < N) (hav : ring.avail ≤ pktPerProcess) :
    rawRecvProcBnx2 m mem ring =
      ({ ring with avail := 0, cur := pos N ring.cur ring.avail },
        (((List.range ring.avail).map (pos N ring.cur)).filter fun x ↦ !skipsSlot ring x).map
          (frameAt m mem ring)) := by
  unfold rawRecvProcBnx2
  by_cases h0 : ring.avail = 0
  · obtain ⟨numSlots, avail, cur, reserved, hwOfs, bufSize, slot⟩ := ring
    obtain rfl : avail = 0 := h0
    rw [if_pos rfl, pos_zero hcur]
    rfl
  · have hloop := recvLoopBnx2_eq (m := m) (i := 0) mem hb hN hring ring.cur ring.avail
    rw [pos_zero hcur] at hloop
    simp only [if_neg h0, min_eq_left hav, hloop, Nat.zero_add, Nat.sub_self]

structure Bnx2Carries (N R : ℕ) (m : DpaModule) (t : Bnx2Traffic β) (q : Fifo (Frame β)) :
    Prop where
  wired : ∃ o T a, Bnx2Core N R o T a m t.queue ∧ Bnx2User N a t.queue ∧
    Bnx2Wired N R o T a m t.queue
  reserved : t.queue.ring.reserved = 0
  sent : q.sent = t.queue.harvested
  received : q.received = t.delivered
  pending : q.pending = t.queue.window N m

theorem Sized.skipsSlot_place (h : Sized N R) (ring : DpaRing) (hnum : ring.numSlots = N)
    (hofs : ring.hwOfs = o) (ho : o < N) (x : ℕ) :
    skipsSlot ring (pos N o x) = decide (x % 256 = 255) := by
  rw [skipsSlot_eq h.bound hnum hofs ho (pos_lt h.nonempty), ahead_pos_mod ho,
    Nat.mod_mod_of_dvd x h.dvd]

section

variable {s₁ : Bnx2Queue β}

theorem Bnx2Core.slot_old (hc : Bnx2Core N R o T a m s) (hw : Bnx2Wired N R o T a m s)
    (hl : SeesLinks s) (hi : i < a) :
    (harvestRounds s.offsetTold s.ready).slot (pos N s.kring.nrHwcur i) =
      s.ring.slot (pos N s.kring.nrHwcur i) := by
  have hroom := hc.counted_room (hc.places.ready_room hc.hwavail)
  rw [hl.counted] at hroom
  refine hc.offsetTold.rounds_slot_off ?_
  intro j hj heq
  have hmono := place_strictMono (w := 255) (by decide)
  have hadd := hc.places.place_add s.ready
  have hlt : place 255 (T + j) < place 255 (T + s.ready) := hmono (Nat.add_lt_add_left hj T)
  have hle : place 255 T ≤ place 255 (T + j) := hmono.monotone (Nat.le_add_right T j)
  rw [← Nat.add_sub_cancel' hle, ← pos_pos, ← hw.ends, pos_pos] at heq
  have := pos_injective (by omega) (by omega) heq
  omega

theorem Bnx2Core.slot_new (hc : Bnx2Core N R o T a m s) (hw : Bnx2Wired N R o T a m s)
    (hl : SeesLinks s) (hring : s'.ring.slot = (harvestRounds s.offsetTold s.ready).slot)
    (hmem : s'.mem = s.mem) (hi : i < s.ready) :
    frameAt m (fun x ↦ (s'.mem x).contents) s'.ring (pos N o (place 255 (T + i))) =
      s.frameTaken (place 255 (T + i) % 65536) := by
  have hslot := hc.offsetTold.rounds_slot_at hc.places.ready_le hi
  have hidx := hl.configured i hi
  have hR : R / maxRxDescCnt * rxDescCnt = R / 255 * 256 := rfl
  rw [hc.cons, nextRxBd_iterate, hc.places.rxRingIdx, hc.ringSize, hR] at hidx
  have hframe : s.frameOf (place 255 (T + i) % 65536) =
      s.mem (s.slotAddr m (pos N o (place 255 (T + i)))) := by
    rw [← hw.wired (T + i) hidx, Bnx2Queue.frameOf, hc.places.rxRingIdx]
  rw [frameAt, hring, hslot, hmem]
  change Frame.mk (s.frameTaken _).len (s.frameTaken _).info
    (s.mem (s.slotAddr m (pos N o (place 255 (T + i))))).contents = _
  rw [← hframe]
  rfl

theorem Bnx2Core.window_synced (hc : Bnx2Core N R o T a m s) (hu : Bnx2User N a s)
    (hw : Bnx2Wired N R o T a m s) (hl : SeesLinks s)
    (hv : Bnx2Harvested T s.ready s.offsetTold s₁)
    (hr : Bnx2Released N (a - s.ring.avail - s.ring.reserved) s.ring.reserved s₁ s') :
    s'.window N m = s.window N m ++
      (List.range s.ready).map fun j ↦ s.frameTaken (place 255 (T + j) % 65536) := by
  have hav := hu.avail
  have hN := hc.sized.nonempty
  have hmono := place_strictMono (w := 255) (by decide)
  have hle : place 255 T ≤ place 255 (T + s.ready) := hmono.monotone (Nat.le_add_right T s.ready)
  have hadd := hc.places.place_add s.ready
  have hring : s'.ring = { s.offsetTold.ring with
      slot := (harvestRounds s.offsetTold s.ready).slot, avail := s'.ring.avail } := by
    rw [hr.ring, hv.ring]
  have hslot : s'.ring.slot = (harvestRounds s.offsetTold s.ready).slot := by rw [hring]
  have hcur : s'.ring.cur = s.ring.cur := by
    rw [hring]
    rfl
  have hskip (x : ℕ) : skipsSlot s'.ring x = skipsSlot s.offsetTold.ring x := by
    refine skipsSlot_congr ?_ ?_ x <;> rw [hring]
  have hmem : s'.mem = s.mem := hr.mem.trans hv.mem
  have havail : s'.ring.avail = s.ring.avail + (place 255 (T + s.ready) - place 255 T) := by
    rw [(hc.synced hu hv hr).1, hl.counted]
    omega
  have hends : pos N s.ring.cur s.ring.avail = pos N o (place 255 T) := by
    rw [hu.cur, pos_pos, ← hw.ends, Nat.sub_add_cancel (by omega)]
  have hold : ∀ x ∈ s.userSlots N, skipsSlot s'.ring x = skipsSlot s.ring x ∧
      s'.ring.slot x = s.ring.slot x := by
    intro x hx
    obtain ⟨j, hj, rfl⟩ := List.mem_map.1 hx
    have hlt := List.mem_range.1 hj
    have hpend := hl.pending j hlt
    rw [hc.slots] at hpend
    refine ⟨(hskip _).trans hpend, ?_⟩
    rw [hslot, hu.cur, pos_pos]
    exact hc.slot_old hw hl (by omega)
  unfold Bnx2Queue.window Bnx2Queue.userSlots
  rw [havail, hcur, List.range_add, List.map_append, List.filter_append, List.map_append]
  congr 1
  · refine (congrArg _ (List.filter_congr fun x hx ↦ congrArg not (hold x hx).1)).trans ?_
    apply List.map_congr_left
    intro x hx
    exact frameAt_congr (hold x (List.mem_filter.1 hx).1).2 (by rw [hmem])
  · have hnew : ((List.range (place 255 (T + s.ready) - place 255 T)).map (s.ring.avail + ·)).map
        (pos N s.ring.cur) = ((List.range (place 255 (T + s.ready) - place 255 T)).map
          (place 255 T + ·)).map (pos N o) := by
      rw [List.map_map, List.map_map]
      apply List.map_congr_left
      intro j _
      simp only [Function.comp, ← pos_pos, hends]
    have hlinks : ((fun x ↦ !skipsSlot s'.ring x) ∘ pos N o) = fun x ↦ decide (x % 256 ≠ 255) := by
      funext x
      rw [Function.comp, hskip, hc.sized.skipsSlot_place s.offsetTold.ring hw.numSlots
        hc.hwofs hc.ofs_lt]
      simp
    rw [hnew, List.filter_map, hlinks, places_between (by decide), List.map_map, List.map_map]
    apply List.map_congr_left
    intro j hj
    exact hc.slot_new hw hl hslot hmem (List.mem_range.1 hj)

theorem Bnx2Wired.synced {a' : ℕ} (hw : Bnx2Wired N R o T a m s) (hc : Bnx2Core N R o T a m s)
    (hl : SeesLinks s) (hv : Bnx2Harvested T s.ready s.offsetTold s₁)
    (hr : Bnx2Released N i resvd s₁ s')
    (ha : a' + i = a + (s.ready + s.linksCounted s.ready)) :
    Bnx2Wired N R o (T + s.ready) a' m s' := by
  have hmono := place_strictMono (w := 255) (by decide)
  have hle : place 255 T ≤ place 255 (T + s.ready) := hmono.monotone (Nat.le_add_right T s.ready)
  have hadd := hc.places.place_add s.ready
  have hidx (x : ℕ) : (s'.ring.slot x).bufIdx = (s.ring.slot x).bufIdx := by
    rw [hr.ring, hv.ring]
    exact rounds_bufIdx s.offsetTold s.ready x
  refine ⟨?_, ?_, ?_, ?_⟩
  · intro x hx
    rw [hidx]
    exact hw.valid x hx
  · rw [hr.ring, hv.ring]
    exact hw.numSlots
  · rw [hr.hwcur, hv.hwcur, pos_pos]
    change pos N s.kring.nrHwcur (i + a') = _
    rw [Nat.add_comm i, ha, hl.counted, ← pos_pos, hw.ends, pos_pos, hadd]
  · intro t ht
    rw [hr.nic, hv.nic, Bnx2Queue.slotAddr, hidx]
    exact hw.wired t ht

end

/-- A reset gives every descriptor that it configures the buffer of its slot. -/
theorem Bnx2Resettable.wired (hr : Bnx2Resettable N R a m s)
    (hvalid : ∀ x < N, (s.ring.slot x).bufIdx < m.bufs.total) (hnum : s.ring.numSlots = N) :
    Bnx2Wired N R (pos N s.kring.nrHwcur a) 0 a m (s.reset m) := by
  have hN := hr.sized.nonempty
  obtain ⟨hk, hring, _, _, _, _, _, _, _, _, hbuf⟩ := reset_fields m s
  replace hk := hk.trans (dpaReset_clearRingStates s)
  refine ⟨?_, ?_, ?_, ?_⟩
  · rw [hring]
    exact hvalid
  · rw [hring]
    exact hnum
  · rw [hk, dpaReset_nrHwcur, place_zero, pos_zero (pos_lt hN)]
  · intro t ht
    have hlink : place 255 t % N % 256 ≠ 255 := by
      rw [Nat.mod_mod_of_dvd _ hr.sized.dvd]
      exact (place_mod_lt (by decide) t).ne
    have hplace : place 255 (used 255 (place 255 t % N)) = place 255 t % N := place_used hlink
    have hlt : used 255 (place 255 t % N) < R := by
      rw [← (place_strictMono (w := 255) (by decide)).lt_iff_lt, hplace, hr.sized.place_size]
      exact ht
    have hconf := hr.conf_bufRing le_rfl hlt
    rw [hplace, bufVpa_snd (hvalid _ (pos_lt hN)), pos_mod] at hconf
    rw [hbuf, hr.ringSize, hconf, Bnx2Queue.slotAddr, hring]

variable {t t' : Bnx2Traffic β} {q : Fifo (Frame β)}

theorem Bnx2Carries.reset (hq : Bnx2Carries N R m t q) :
    Bnx2Carries N R m { t with queue := t.queue.reset m } q := by
  obtain ⟨o, T, a, hc, hu, hw⟩ := hq.wired
  obtain ⟨_, hring, _, _, hmem, hharv, _⟩ := reset_fields m t.queue
  refine ⟨⟨_, 0, a, hc.resettable.reset, hu.reset, hc.resettable.wired hw.valid hw.numSlots⟩, ?_,
    hq.sent.trans hharv.symm, hq.received, ?_⟩
  · exact (congrArg DpaRing.reserved hring).trans hq.reserved
  · rw [hq.pending]
    unfold Bnx2Queue.window Bnx2Queue.userSlots
    simp only [hring, hmem]

/-- What the chip writes does not reach the packets of the window. -/
theorem Bnx2Carries.receive (hq : Bnx2Carries N R m t q) (hspare : SparesPending m t.queue)
    (frame : L2Frame β) :
    Bnx2Carries N R m { t with queue := t.queue.receive frame } q := by
  obtain ⟨o, T, a, hc, hu, hw⟩ := hq.wired
  refine ⟨⟨o, T, a, ⟨hc.sized, hc.slots, hc.ringSize, hc.maxRingIdx, hc.ofs_lt, hc.hwofs,
    hc.hwcur_lt, hc.hwavail, hc.room, hc.cons, hc.good⟩, ⟨hu.avail, hu.cur⟩,
    ⟨hw.valid, hw.numSlots, hw.ends, hw.wired⟩⟩, hq.reserved, hq.sent, hq.received, ?_⟩
  rw [hq.pending]
  unfold Bnx2Queue.window
  apply List.map_congr_left
  intro x hx
  obtain ⟨hmem, hskip⟩ := List.mem_filter.1 hx
  obtain ⟨j, hj, rfl⟩ := List.mem_map.1 hmem
  have hne := hspare j (List.mem_range.1 hj)
  rw [hc.slots] at hne
  refine frameAt_congr rfl ?_
  have hne := hne (by simpa using hskip)
  exact congrArg L2Frame.contents (update_of_ne hne.symm _ _).symm

theorem Bnx2Carries.recv_eq (hq : Bnx2Carries N R m t q) :
    t.recv m =
      { queue := { t.queue with ring := { t.queue.ring with
          avail := 0
          cur := pos N t.queue.ring.cur t.queue.ring.avail } }
        delivered := t.delivered ++ t.queue.window N m } := by
  obtain ⟨o, T, a, hc, hu, hw⟩ := hq.wired
  have hav := hu.avail
  have hN := hc.sized.le
  have ha := hc.room
  have hcur : t.queue.ring.cur < N := by
    rw [hu.cur]
    exact pos_lt hc.sized.nonempty
  have heq := rawRecvProcBnx2_eq (m := m) (fun x ↦ (t.queue.mem x).contents) hc.sized.bound
    hc.sized.nonempty hw.numSlots hcur (show t.queue.ring.avail ≤ 2048 by omega)
  unfold Bnx2Traffic.recv
  rw [heq]
  rfl

theorem Bnx2Carries.recv (hq : Bnx2Carries N R m t q) :
    Bnx2Carries N R m (t.recv m) (q.pop q.pending.length) := by
  obtain ⟨o, T, a, hc, hu, hw⟩ := hq.wired
  have hav := hu.avail
  rw [hq.recv_eq]
  refine ⟨⟨o, T, a, ⟨hc.sized, hc.slots, hc.ringSize, hc.maxRingIdx, hc.ofs_lt, hc.hwofs,
    hc.hwcur_lt, hc.hwavail, hc.room, hc.cons, hc.good⟩, ⟨?_, ?_⟩,
    ⟨hw.valid, hw.numSlots, hw.ends, hw.wired⟩⟩, hq.reserved, hq.sent, ?_, ?_⟩
  · change 0 + t.queue.ring.reserved ≤ a
    omega
  · change pos N t.queue.ring.cur t.queue.ring.avail = pos N t.queue.kring.nrHwcur (a - 0)
    rw [hu.cur, pos_pos, Nat.sub_add_cancel (by omega), Nat.sub_zero]
  · change q.received ++ q.pending.take q.pending.length = t.delivered ++ _
    rw [List.take_length, hq.received, hq.pending]
  · change q.pending.drop q.pending.length = _
    rw [List.drop_length]
    rfl

theorem Bnx2Carries.delivered_eq (hq : Bnx2Carries N R m t q) (h0 : t.queue.ring.avail = 0) :
    t.delivered = t.queue.harvested := by
  have hpend : q.pending = [] := by
    rw [hq.pending]
    unfold Bnx2Queue.window Bnx2Queue.userSlots
    rw [h0]
    rfl
  rw [← hq.received, ← hq.sent]
  exact q.received_eq hpend

theorem Bnx2Carries.rxSync (hq : Bnx2Carries N R m t q) (carrier doLock : Bool)
    (hl : carrier = true → SeesLinks t.queue) :
    ∃ s' q', t.queue.bnx2DpaRxSync m carrier doLock = some (0, s') ∧ Fifo.Step q q' ∧
      Bnx2Carries N R m { t with queue := s' } q' := by
  cases carrier with
  | false => exact ⟨t.queue, q, rfl, q.step_idle, hq⟩
  | true =>
    obtain ⟨o, T, a, hc, hu, hw⟩ := hq.wired
    have hav := hu.avail
    obtain ⟨s₁, s', heq, hv, hr⟩ := hc.rxSync hu doLock
    obtain ⟨_, hc', hu'⟩ := hc.synced hu hv hr
    have hwin := hc.window_synced hu hw (hl rfl) hv hr
    refine ⟨s', _, heq, .push q _, ⟨⟨o, _, _, hc', hu', hw.synced hc (hl rfl) hv hr (by omega)⟩,
      ?_, ?_, hq.received, (congrArg₂ _ hq.pending rfl).trans hwin.symm⟩⟩
    · rw [hr.ring, hv.ring]
      exact hq.reserved
    · rw [hr.harvested, hv.harvested]
      exact congrArg₂ _ hq.sent rfl

theorem exec_receive {frame : L2Frame β} (hs : t.exec m (.receive frame) = some t') :
    t' = { t with queue := t.queue.receive frame } := by
  obtain ⟨_, hs⟩ := Option.ite_none_right_eq_some.1 hs
  exact (Option.some.inj hs).symm

theorem Bnx2Carries.step (hq : Bnx2Carries N R m t q) {e : Bnx2Event β} (he : Arrives m t e)
    (hs : t.exec m e = some t') : ∃ q', Fifo.Step q q' ∧ Bnx2Carries N R m t' q' := by
  cases e with
  | receive frame =>
    obtain rfl := exec_receive hs
    exact ⟨q, q.step_idle, hq.receive he frame⟩
  | poll carrier =>
    obtain ⟨s, hpoll, rfl⟩ := Option.map_eq_some_iff.1 hs
    unfold Bnx2Queue.dpaPoll at hpoll
    split_ifs at hpoll with hav
    · obtain rfl := Option.some.inj hpoll
      exact ⟨q, q.step_idle, hq⟩
    · have hl (hup : carrier = true) := he hup (by omega)
      obtain ⟨s', q', heq, hstep, hq'⟩ := hq.rxSync carrier false hl
      rw [heq] at hpoll
      obtain rfl := Option.some.inj hpoll
      exact ⟨q', hstep, hq'⟩
  | rxSync carrier =>
    obtain ⟨s', q', heq, hstep, hq'⟩ := hq.rxSync carrier true he
    obtain ⟨r, hr, rfl⟩ := Option.map_eq_some_iff.1 hs
    obtain rfl := Option.some.inj (heq.symm.trans hr)
    exact ⟨q', hstep, hq'⟩
  | recv =>
    obtain rfl := Option.some.inj hs
    exact ⟨_, .pop q _, hq.recv⟩
  | reset =>
    obtain rfl := Option.some.inj hs
    exact ⟨q, q.step_idle, hq.reset⟩

theorem Bnx2Registered.carries {n : ℕ} (hs : Bnx2Registered n m s)
    (hvalid : ∀ x < s.kring.nkrNumSlots, (s.ring.slot x).bufIdx < m.bufs.total) :
    Bnx2Carries s.kring.nkrNumSlots s.rxRingSize m ⟨s.reset m, []⟩ Fifo.empty := by
  obtain ⟨_, hring, _, _, _, hharv, _⟩ := reset_fields m s
  refine ⟨⟨_, 0, 0, hs.resettable.reset, hs.userSide.reset,
    hs.resettable.wired hvalid hs.numSlots⟩, ?_, ?_, rfl, ?_⟩
  · exact (congrArg DpaRing.reserved hring).trans hs.reserved
  · exact (hharv.trans hs.harvested).symm
  · unfold Bnx2Queue.window Bnx2Queue.userSlots
    simp only [hring, hs.avail]
    rfl

/-- In a run whose every event finds the queue as the condition asks, the callback sees the
harvested packets in order, each once, and all of them when the ring is drained, which a batch does. -/
theorem bnx2_delivers {n : ℕ} {s₀ : Bnx2Queue β} (h₀ : Bnx2Registered n m s₀)
    (hvalid : ∀ x < s₀.kring.nkrNumSlots, (s₀.ring.slot x).bufIdx < m.bufs.total)
    {es : List (Bnx2Event β)} (hes : Throughout (Bnx2Traffic.exec m) (Arrives m) es
      ⟨s₀.reset m, []⟩)
    (hr : run (Bnx2Traffic.exec m) es ⟨s₀.reset m, []⟩ = some t) :
    (∀ carrier doLock, ∃ s', t.queue.bnx2DpaRxSync m carrier doLock = some (0, s')) ∧
      t.delivered <+: t.queue.harvested ∧
      (t.queue.ring.avail = 0 → t.delivered = t.queue.harvested) ∧
      (t.recv m).queue.ring.avail = 0 ∧ (t.recv m).delivered = t.queue.harvested := by
  obtain ⟨q, hq⟩ : ∃ q, Bnx2Carries s₀.kring.nkrNumSlots s₀.rxRingSize m t q := by
    refine Throughout.preserves (P := fun t ↦ ∃ q, Bnx2Carries _ _ m t q) ?_ hes
      ⟨_, h₀.carries hvalid⟩ hr
    intro t e t' ⟨q, hq⟩ he hs
    obtain ⟨q', _, hq'⟩ := hq.step he hs
    exact ⟨q', hq'⟩
  have hdrained : (t.recv m).queue.ring.avail = 0 := by rw [hq.recv_eq]
  refine ⟨?_, ?_, hq.delivered_eq, hdrained, hq.recv.delivered_eq hdrained⟩
  · obtain ⟨o, T, a, hc, hu, _⟩ := hq.wired
    exact hc.rxSync_returns hu
  · rw [← hq.received, ← hq.sent]
    exact q.received_prefix

def twoPagesStart : Bnx2Traffic ℕ := ⟨twoPages.reset pageBuffers, []⟩

/-- A page of packets and one behind its link, a reset when the ring is drained, and two packets. -/
def twoPagesEvents : List (Bnx2Event ℕ) :=
  List.replicate 256 (.receive ⟨0, 0, 64, 7⟩) ++ [.rxSync true, .recv, .reset,
    .receive ⟨0, 0, 74, 8⟩, .receive ⟨0, 0, 84, 9⟩, .rxSync true]

set_option maxRecDepth 20000 in
theorem bnx2_delivers_twoPages :
    ∃ t, run (Bnx2Traffic.exec pageBuffers) twoPagesEvents twoPagesStart = some t ∧
      t.queue.kring.nkrHwofs = 257 ∧
      ((t.recv pageBuffers).delivered.drop 255).map (fun f ↦ (f.len, f.info, f.contents)) =
        [(60, 0, 7), (70, 0, 8), (80, 0, 9)] ∧
      (∀ carrier doLock, ∃ s', t.queue.bnx2DpaRxSync pageBuffers carrier doLock = some (0, s')) ∧
      t.delivered <+: t.queue.harvested ∧
      (t.queue.ring.avail = 0 → t.delivered = t.queue.harvested) ∧
      (t.recv pageBuffers).queue.ring.avail = 0 ∧
      (t.recv pageBuffers).delivered = t.queue.harvested := by
  have hrun : (run (Bnx2Traffic.exec pageBuffers) twoPagesEvents twoPagesStart).map
      (fun t ↦ (t.queue.kring.nkrHwofs, ((t.recv pageBuffers).delivered.drop 255).map
        fun f ↦ (f.len, f.info, f.contents))) =
        some (257, [(60, 0, 7), (70, 0, 8), (80, 0, 9)]) := by
    decide +kernel
  have hes : Throughout (Bnx2Traffic.exec pageBuffers) (Arrives pageBuffers) twoPagesEvents
      twoPagesStart := by
    decide +kernel
  obtain ⟨t, hr, ht⟩ := Option.map_eq_some_iff.1 hrun
  obtain ⟨hofs, hdelivered⟩ := Prod.mk.inj ht
  exact ⟨t, hr, hofs, hdelivered, bnx2_delivers twoPages_registered twoPages_valid hes hr⟩

/-- A reset while a packet is pending moves the page links of the user ring: the user takes the
slot of that packet for one of them and drops it. -/
theorem bnx2_packet_dropped : Bnx2Registered 256 pageBuffers twoPages ∧ ∃ t,
    run (Bnx2Traffic.exec pageBuffers)
      [.receive ⟨0, 0, 64, 7⟩, .rxSync true, .reset, .rxSync true, .recv] twoPagesStart = some t ∧
    t.queue.ring.avail = 0 ∧ t.delivered.length = 0 ∧ t.queue.harvested.length = 1 := by
  have hrun : (run (Bnx2Traffic.exec pageBuffers)
      [.receive ⟨0, 0, 64, 7⟩, .rxSync true, .reset, .rxSync true, .recv] twoPagesStart).map
      (fun t ↦ (t.queue.ring.avail, t.delivered.length, t.queue.harvested.length)) =
        some (0, 0, 1) := by
    decide +kernel
  obtain ⟨t, hr, ht⟩ := Option.map_eq_some_iff.1 hrun
  simp only [Prod.mk.injEq] at ht
  exact ⟨twoPages_registered, t, hr, ht⟩

end Dpa.Driver
