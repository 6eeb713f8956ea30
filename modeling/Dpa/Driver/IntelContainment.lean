import Dpa.Driver.IntelRuns
import Dpa.Driver.IntelSteps

namespace Dpa.Driver

open Kernel MachineWord Cyclic Function Library

/-- What can happen to a queue: a call begins that has read `cur` and `reserved` whenever it did, the call
that holds the lock makes a step, the user writes its ring over, the hardware completes a descriptor, the
driver resets the queue. -/
inductive SyncEvent
  | call (carrier : Bool) (u resvd : ℕ)
  | step
  | user (ring : DpaRing)
  | complete (d : AdvRxDesc)
  | reset

def SyncPc.idle : SyncPc → Bool
  | .returned _ => true
  | _ => false

def SyncPc.cursors : SyncPc → Option Cursors
  | .harvest _ _ c _ | .counts _ _ c _ | .release _ _ c => some c
  | _ => none

/-- A reset finds the count of pending slots as the kernel wants it to be. -/
def SyncState.exec (drv : Intel) (m : DpaModule) (s : SyncState) : SyncEvent → Option SyncState
  | .call carrier u resvd =>
    if s.pc.idle then some { s with pc := SyncState.enter carrier u resvd s.queue } else none
  | .step => some (s.step drv.bits m).2
  | .user ring => some { s with queue := { s.queue with ring := ring } }
  | .complete d =>
    if s.queue.nic.head ≠ s.queue.nic.tail ∧ d.done drv.bits = true then
      some { s with queue := { s.queue with nic := s.queue.nic.complete d } }
    else none
  | .reset =>
    if s.pc.idle ∧ 0 ≤ s.queue.kring.nrHwavail ∧ s.queue.kring.nrHwavail ≤ s.queue.numSlots then
      some { s with queue := drv.reset m s.queue }
    else none

/-- The access stays in the rings, and what the NIC is given is a packet buffer other than the first. -/
def Access.Safe (N : ℕ) (m : DpaModule) : Access → Prop
  | slot k => k < N
  | desc n => n < N
  | arm n paddr => n < N ∧ ∃ i, 0 < i ∧ i < m.bufs.total ∧ paddr = m.bufs.paddr i
  | tail n => n < N

/-- Whatever the user's words are, a call that turns to the slots to be released goes for no more of them
than are pending. -/
def SyncState.AsksPending (N : ℕ) (s : SyncState) : Prop :=
  match s.pc with
  | .clean u resvd =>
    let last := s.queue.releaseEnd u (s.queue.checkedResvd resvd)
    last < N ∧ ahead N s.queue.kring.nrHwcur last ≤ s.queue.kring.nrHwavail
  | _ => True

def AsksPending (N : ℕ) (s : SyncState) : SyncEvent → Prop
  | .step => s.AsksPending N
  | _ => True

instance (N : ℕ) : (s : SyncState) → Decidable (s.AsksPending N)
  | ⟨_, .clean _ _⟩ => inferInstanceAs (Decidable (_ ∧ _))
  | ⟨_, .returned _⟩ | ⟨_, .harvest _ _ _ _⟩ | ⟨_, .counts _ _ _ _⟩ | ⟨_, .release _ _ _⟩
  | ⟨_, .report _⟩ | ⟨_, .reinit _ _ _⟩ => inferInstanceAs (Decidable True)

instance (N : ℕ) (s : SyncState) : (e : SyncEvent) → Decidable (AsksPending N s e)
  | .step => inferInstanceAs (Decidable (s.AsksPending N))
  | .call _ _ _ | .user _ | .complete _ | .reset => inferInstanceAs (Decidable True)

variable {N o a h x : ℕ} {drv : Intel} {bits : RxBits} {m : DpaModule} {q : RxQueue}
  {s s' s₀ : SyncState}

theorem endHarvest_fields (v : Harvest) :
    (q.endHarvest v).kring.nrHwcur = q.kring.nrHwcur ∧
      (q.endHarvest v).kring.nkrNumSlots = q.kring.nkrNumSlots ∧
      (q.endHarvest v).kring.nkrHwofs = q.kring.nkrHwofs ∧
      (q.endHarvest v).nic.nextToClean = (if v.i = 0 then q.nic.nextToClean else v.n) ∧
      (q.endHarvest v).nic.desc = q.nic.desc ∧ (q.endHarvest v).nic.count = q.nic.count ∧
      (q.endHarvest v).nic.head = q.nic.head ∧ (q.endHarvest v).nic.tail = q.nic.tail ∧
      (q.endHarvest v).numRxDescs = q.numRxDescs := by
  by_cases hi : v.i = 0
  · simp [RxQueue.endHarvest, hi]
  · simp [RxQueue.endHarvest, hi]

theorem endHarvest_nrHwavail (v : Harvest) :
    (q.endHarvest v).kring.nrHwavail =
      if v.i = 0 then q.kring.nrHwavail else s32 (q.kring.nrHwavail + v.i) := by
  by_cases hi : v.i = 0
  · simp [RxQueue.endHarvest, hi]
  · simp [RxQueue.endHarvest, hi]

theorem vpa_mem {slot : DpaSlot} (hgood : (bufVpa m.bufs slot).1 ≠ m.bufs.base) :
    ∃ i, 0 < i ∧ i < m.bufs.total ∧ (bufVpa m.bufs slot).2 = m.bufs.paddr i := by
  rw [bufVpa] at hgood ⊢
  split_ifs at hgood ⊢ with hlt
  · exact absurd rfl hgood
  · refine ⟨slot.bufIdx, Nat.pos_of_ne_zero fun h0 ↦ hgood ?_, not_le.1 hlt, rfl⟩
    rw [h0]
    rfl

/-- The buffer whose address `BUF_VPA` gives: the one that the slot names, or the first one. -/
theorem bufVpa_named {t : BufferTable} (htotal : 0 < t.total) (slot : DpaSlot) :
    ∃ i < t.total, (bufVpa t slot).2 = t.paddr i ∧
      (i = slot.bufIdx ∨ t.total ≤ slot.bufIdx ∧ i = 0) := by
  rw [bufVpa]
  split_ifs with hle
  · exact ⟨0, htotal, rfl, .inr ⟨hle, rfl⟩⟩
  · exact ⟨_, not_le.1 hle, rfl, .inl rfl⟩

theorem confAddr_mem (htotal : 0 < m.bufs.total) (kring : DpaKring) (slot : ℕ → DpaSlot) (x : ℕ) :
    ∃ i < m.bufs.total, RxQueue.confAddr m kring slot x = m.bufs.paddr i := by
  obtain ⟨i, hi, haddr, -⟩ := bufVpa_named htotal (slot (dpaIdxN2k kring x).toNat)
  exact ⟨i, hi, haddr⟩

structure Confined (N o : ℕ) (s : SyncState) : Prop extends Indexed N o s.queue where
  count : s.queue.nic.count = N
  numRxDescs : s.queue.numRxDescs = N
  tail : s.queue.nic.tail < N
  cursors : ∀ c, s.pc.cursors = some c → c.n < N ∧ c.k < N

theorem Confined.next {c : Cursors} (hs : Confined N o s) (hc : c.n < N ∧ c.k < N) :
    (c.next s.queue.numSlots).n < N ∧ (c.next s.queue.numSlots).k < N := by
  rw [Cursors.next, hs.numSlots, ringSucc_eq hs.bound hc.1, ringSucc_eq hs.bound hc.2]
  exact ⟨pos_lt hs.nonempty, pos_lt hs.nonempty⟩

/-- What changes the user's ring and the descriptors only leaves the queue confined. -/
theorem Confined.touched (hs : Confined N o s) {ring : DpaRing} {desc : ℕ → AdvRxDesc}
    {head : ℕ} {given : List ℕ} {pc : SyncPc} (hpc : ∀ c, pc.cursors = some c → c.n < N ∧ c.k < N) :
    Confined N o ⟨{ s.queue with
      ring := ring
      nic := { s.queue.nic with desc := desc, head := head, given := given } }, pc⟩ where
  nonempty := hs.nonempty
  bound := hs.bound
  slots := hs.slots
  ofs_lt := hs.ofs_lt
  hwofs := hs.hwofs
  clean_lt := hs.clean_lt
  hwcur_lt := hs.hwcur_lt
  count := hs.count
  numRxDescs := hs.numRxDescs
  tail := hs.tail
  cursors := hpc

section

variable {pc : SyncPc} {c : Cursors} {u resvd bytes : ℕ}

theorem Confined.kept (hs : Confined N o s) {ring : DpaRing} (hpc : pc.cursors = none) :
    Confined N o ⟨{ s.queue with ring := ring }, pc⟩ :=
  hs.touched fun c hc ↦ by
    rw [hpc] at hc
    cases hc

theorem Confined.harvested (hs : Confined N o ⟨q, pc⟩) (v : Harvest) (hv : v.n < N) :
    Confined N o ⟨q.endHarvest v, .clean u resvd⟩ := by
  obtain ⟨hcur, hslots, hofs, hclean, -, hcount, -, htail, hdescs⟩ := endHarvest_fields (q := q) v
  exact
    { nonempty := hs.nonempty
      bound := hs.bound
      slots := hslots.trans hs.slots
      ofs_lt := hs.ofs_lt
      hwofs := hofs.trans hs.hwofs
      clean_lt := by
        rw [hclean]
        split_ifs
        · exact hs.clean_lt
        · exact hv
      hwcur_lt := hcur.trans_lt hs.hwcur_lt
      count := hcount.trans hs.count
      numRxDescs := hdescs.trans hs.numRxDescs
      tail := htail.trans_lt hs.tail
      cursors := fun c h ↦ by cases h }

theorem Confined.released (hs : Confined N o ⟨q, .release u resvd c⟩) (hu : c.k = u) :
    Confined N o ⟨q.endRelease u ⟨q.nic.desc, c.n, c.k, c.i, q.nic.given⟩, .report resvd⟩ where
  nonempty := hs.nonempty
  bound := hs.bound
  slots := hs.slots
  ofs_lt := hs.ofs_lt
  hwofs := hs.hwofs
  clean_lt := hs.clean_lt
  hwcur_lt := by
    have hk := (hs.cursors c rfl).2
    rw [hu] at hk
    exact hk
  count := hs.count
  numRxDescs := hs.numRxDescs
  tail := by
    have hnum : q.numSlots = N - 1 := hs.numSlots
    simp only [RxQueue.endRelease, hnum, prev_pos hs.bound (hs.cursors c rfl).1]
    exact pos_lt hs.nonempty
  cursors := fun c h ↦ by cases h

theorem Confined.begins (hs : Confined N o ⟨q, pc⟩) (m : DpaModule) :
    q.beginRelease.n = nicCur N o q ∧ q.beginRelease.k = q.kring.nrHwcur := by
  have hbegin := hs.toIndexed.beginRelease (m := m)
  have hn : q.beginRelease.n = pos N (nicCur N o q) 0 := congrArg Release.n hbegin
  rw [pos_zero hs.toIndexed.nicCur_lt] at hn
  exact ⟨hn, rfl⟩

theorem Confined.turns (hs : Confined N o ⟨q, pc⟩) (m : DpaModule) (u checked resvd : ℕ) :
    Confined N o ⟨q.told checked resvd, q.turn u checked⟩ := by
  refine hs.touched fun c hc ↦ ?_
  rw [RxQueue.turn] at hc
  split_ifs at hc with hlast
  · cases hc
  · obtain rfl := Option.some.inj hc
    obtain ⟨hn, hk⟩ := hs.begins m
    rw [hn, hk]
    exact ⟨hs.toIndexed.nicCur_lt, hs.hwcur_lt⟩

theorem Confined.enters (hs : Confined N o ⟨q, pc⟩) (bits : RxBits) (m : DpaModule) (carrier : Bool)
    (u resvd : ℕ) :
    Confined N o ⟨q, SyncState.enter carrier u resvd q⟩ := by
  refine hs.touched fun c hc ↦ ?_
  rw [SyncState.enter] at hc
  split_ifs at hc with hcarrier hu
  · cases hc
  · cases hc
  · cases hc
    have hbegin : q.beginHarvest = harvestAt N o bits m q 0 := hs.toIndexed.beginHarvest
    have hn : q.beginHarvest.n = pos N q.nic.nextToClean 0 := congrArg Harvest.n hbegin
    have hk : q.beginHarvest.k = pos N (userClean N o q) 0 := congrArg Harvest.k hbegin
    rw [hn, hk]
    exact ⟨pos_lt hs.nonempty, pos_lt hs.nonempty⟩

end

theorem Confined.step (hs : Confined N o s) (bits : RxBits) (m : DpaModule) :
    Confined N o (s.step bits m).2 ∧ ∀ x ∈ (s.step bits m).1, x.Safe N m := by
  obtain ⟨q, pc⟩ := s
  cases pc with
  | returned code => exact ⟨hs, List.forall_mem_nil _⟩
  | harvest u resvd c bytes =>
    obtain ⟨hn, hk⟩ := hs.cursors c rfl
    simp only [SyncState.step]
    split_ifs with hd
    · refine ⟨hs.touched fun c' hc' ↦ ?_, ?_⟩
      · cases hc'
        exact ⟨hn, hk⟩
      · simpa [Access.Safe] using ⟨hn, hk⟩
    · refine ⟨hs.harvested _ hn, ?_⟩
      simpa [Access.Safe] using hn
  | counts u resvd c bytes =>
    have hc := hs.cursors c rfl
    refine ⟨hs.touched fun c' hc' ↦ ?_, ?_⟩
    · cases hc'
      exact hs.next hc
    · simpa [SyncState.step, Access.Safe] using hc.2
  | clean u resvd => exact ⟨hs.turns m u _ resvd, List.forall_mem_nil _⟩
  | release u resvd c =>
    obtain ⟨hn, hk⟩ := hs.cursors c rfl
    simp only [SyncState.step]
    split_ifs with hu hbad
    · refine ⟨hs.released hu, ?_⟩
      have htail := (hs.released hu).tail
      simpa [Access.Safe] using htail
    · refine ⟨hs.kept rfl, ?_⟩
      simpa [Access.Safe] using hk
    · refine ⟨hs.touched fun c' hc' ↦ ?_, ?_⟩
      · cases hc'
        exact hs.next ⟨hn, hk⟩
      · have harm := vpa_mem hbad
        simp only [List.forall_mem_cons, List.not_mem_nil, false_implies, implies_true, Access.Safe]
        exact ⟨hk, hn, ⟨hn, harm⟩, trivial⟩
  | report resvd => exact ⟨hs.kept rfl, List.forall_mem_nil _⟩
  | reinit force i errors =>
    by_cases hi : i < q.kring.nkrNumSlots
    · rw [step_looks hi]
      refine ⟨hs.kept rfl, ?_⟩
      have hlt : i < N := hi.trans_eq hs.slots
      simpa [Access.Safe] using hlt
    · rw [step_looked hi]
      refine ⟨?_, List.forall_mem_nil _⟩
      by_cases hsync : (errors || force) = true
      · rw [if_pos hsync]
        exact hs.kept rfl
      · rw [if_neg hsync]
        exact hs.kept rfl

theorem Confined.ready (hs : Confined N o s) (h0 : 0 ≤ s.queue.kring.nrHwavail)
    (h : s.queue.kring.nrHwavail ≤ s.queue.numSlots) :
    ∃ a, ReadyToReset N a s.queue := by
  have hN := hs.nonempty
  have hnum := hs.toIndexed.numSlots
  obtain ⟨a, ha⟩ := Int.eq_ofNat_of_zero_le h0
  exact ⟨a, hs.bound, hs.slots, hs.hwcur_lt, ha, by omega, hs.count, hs.numRxDescs⟩

theorem Confined.exec_reset (hs : Confined N o s) (h : s.exec drv m .reset = some s') :
    s' = { s with queue := drv.reset m s.queue } ∧ s.pc.idle = true ∧
      ∃ a, ReadyToReset N a s.queue := by
  simp only [SyncState.exec] at h
  split_ifs at h with hreset
  obtain ⟨hidle, hlo, hhi⟩ := hreset
  exact ⟨(Option.some.inj h).symm, hidle, hs.ready hlo hhi⟩

theorem ReadyToReset.confined (hr : ReadyToReset N a q) {pc : SyncPc} (hpc : pc.idle = true) :
    Confined N (pos N q.kring.nrHwcur a) ⟨drv.reset m q, pc⟩ := by
  have hN : 0 < N := Nat.zero_lt_of_lt hr.room
  obtain ⟨hk, -, hclean, -, hcount, htail, hdescs, -⟩ := hr.reset_fields drv m
  refine ⟨⟨hN, hr.bound, ?_, pos_lt hN, ?_, ?_, ?_⟩, hcount, hdescs, ?_, ?_⟩
  · rw [hk, dpaReset_nkrNumSlots, hr.slots]
  · rw [hk, dpaReset_nkrHwofs]
    exact resetHwofs_eq hr.bound hr.slots hr.hwcur_lt hr.hwavail hr.room
  · rwa [hclean]
  · rw [hk, dpaReset_nrHwcur]
    exact hr.hwcur_lt
  · rw [htail]
    omega
  · intro c hc
    cases pc with
    | returned code => cases hc
    | _ => cases hpc

theorem Confined.exec {e : SyncEvent} (hs : Confined N o s) (h : s.exec drv m e = some s') :
    ∃ o, Confined N o s' := by
  cases e with
  | call carrier u resvd =>
    simp only [SyncState.exec] at h
    split_ifs at h with hidle
    obtain rfl := Option.some.inj h
    exact ⟨o, hs.enters drv.bits m carrier u resvd⟩
  | step =>
    obtain rfl := Option.some.inj h
    exact ⟨o, (hs.step drv.bits m).1⟩
  | user ring =>
    obtain rfl := Option.some.inj h
    exact ⟨o, hs.touched hs.cursors⟩
  | complete d =>
    simp only [SyncState.exec] at h
    split_ifs at h with hd
    obtain rfl := Option.some.inj h
    exact ⟨o, hs.touched hs.cursors⟩
  | reset =>
    obtain ⟨rfl, hidle, a, hr⟩ := hs.exec_reset h
    exact ⟨_, hr.confined hidle⟩

/-- The descriptor waits for a packet, and it has the address of a packet buffer. -/
def Armed (bits : RxBits) (m : DpaModule) (d : AdvRxDesc) : Prop :=
  d.done bits = false ∧ ∃ i < m.bufs.total, d.lower = m.bufs.paddr i

/-- What the NIC owns, with `a` slots pending, `h` packets more completed and the first `x` of the pending
slots given back already. -/
structure Owned (N o a h x : ℕ) (bits : RxBits) (m : DpaModule) (q : RxQueue) : Prop where
  hwavail : q.kring.nrHwavail = a
  room : a + h < N
  given : x ≤ a
  clean : userClean N o q = pos N q.kring.nrHwcur a
  head : q.nic.head = pos N q.nic.nextToClean h
  tail : q.nic.tail = pos N q.nic.nextToClean (N - 1 - a)
  done : ∀ j < h, DoneAt N bits q j
  armed : ∀ j, h ≤ j → j < N - a → Armed bits m (q.nic.desc (pos N q.nic.nextToClean j))
  rearmed : ∀ j < x, Armed bits m (q.nic.desc (pos N (nicCur N o q) j))

theorem rearm_armed {slot : DpaSlot} (d : AdvRxDesc)
    (hgood : (bufVpa m.bufs slot).1 ≠ m.bufs.base) : Armed bits m (d.rearm (bufVpa m.bufs slot).2) := by
  obtain ⟨i, -, hi, hpaddr⟩ := vpa_mem hgood
  exact ⟨Bool.eq_false_iff.2 (rearm_not_done d _), i, hi, hpaddr⟩

section

variable (hi : Indexed N o q) (ho : Owned N o a h x bits m q)

include hi ho

theorem Owned.nicCur_eq : nicCur N o q = pos N q.nic.nextToClean (N - a) := by
  have hroom := ho.room
  exact ahead_of_pos_eq hi.clean_lt hi.hwcur_lt hi.ofs_lt (by omega) ho.clean

theorem Owned.pos_clean (j : ℕ) :
    pos N q.nic.nextToClean j = pos N (nicCur N o q) (a + j) := by
  have hroom := ho.room
  rw [ho.nicCur_eq hi, pos_pos, show N - a + (a + j) = j + N by omega, pos, pos, ← Nat.add_assoc,
    Nat.add_mod_right]

theorem Owned.harvested (v : Harvest) (hvi : v.i = h) (hvn : v.n = pos N q.nic.nextToClean h) :
    Owned N o (a + h) 0 x bits m (q.endHarvest v) := by
  have hb := hi.bound
  have hroom := ho.room
  obtain ⟨hcur, -, -, hclean, hdesc, -, hhead, htail, -⟩ := endHarvest_fields (q := q) v
  have hclean' : (q.endHarvest v).nic.nextToClean = pos N q.nic.nextToClean h := by
    rw [hclean, hvi]
    split_ifs with h0
    · rw [h0, pos_zero hi.clean_lt]
    · exact hvn
  refine ⟨?_, hroom, ?_, ?_, ?_, ?_, ?_, ?_, ?_⟩
  · rw [endHarvest_nrHwavail, hvi, ho.hwavail]
    split_ifs with h0
    · rw [h0, Nat.add_zero]
    · rw [s32_of_mem (by omega) (by omega), Nat.cast_add]
  · exact ho.given.trans (Nat.le_add_right a h)
  · rw [userClean, hclean', hcur, ← pos_pos, ← ho.clean, userClean, pos_pos, pos_pos, Nat.add_comm]
  · rw [hhead, hclean', ho.head, pos_pos]
    rfl
  · rw [htail, hclean', ho.tail, pos_pos]
    congr 1
    omega
  · intro j hj
    omega
  · intro j _ hj
    rw [hdesc, hclean', pos_pos]
    exact ho.armed (h + j) (by omega) (by omega)
  · intro j hj
    rw [hdesc, nicCur, hcur]
    exact ho.rearmed j hj

theorem Owned.rearms (hx : x < a) {d : AdvRxDesc} (hd : Armed bits m d) (given : List ℕ) :
    Owned N o a h (x + 1) bits m (q.withDesc (update q.nic.desc (pos N (nicCur N o q) x) d) given) := by
  have hroom := ho.room
  have hother : ∀ j, x < j → j < N →
      update q.nic.desc (pos N (nicCur N o q) x) d (pos N (nicCur N o q) j) =
        q.nic.desc (pos N (nicCur N o q) j) := by
    intro j hxj hj
    refine update_of_ne (fun heq ↦ ?_) _ _
    have := pos_injective hj (by omega) heq
    omega
  refine ⟨ho.hwavail, hroom, hx, ho.clean, ho.head, ho.tail, ?_, ?_, ?_⟩
  · intro j hj
    have hdone := ho.done j hj
    unfold DoneAt at hdone ⊢
    change (update q.nic.desc _ d (pos N q.nic.nextToClean j)).done bits = true
    rw [ho.pos_clean hi] at hdone ⊢
    rwa [hother _ (by omega) (by omega)]
  · intro j hj hja
    have harmed := ho.armed j hj hja
    change Armed bits m (update q.nic.desc _ d (pos N q.nic.nextToClean j))
    rw [ho.pos_clean hi] at harmed ⊢
    rwa [hother _ (by omega) (by omega)]
  · intro j hj
    change Armed bits m (update q.nic.desc _ d (pos N (nicCur N o q) j))
    rcases Nat.lt_succ_iff_lt_or_eq.1 hj with hlt | rfl
    · rw [update_of_ne]
      · exact ho.rearmed j hlt
      · intro heq
        have := pos_injective (by omega) (by omega) heq
        omega
    · rwa [update_self]

theorem Owned.released (c : Cursors) (hci : c.i = x) (hcn : c.n = pos N (nicCur N o q) x) :
    Owned N o (a - x) h 0 bits m
      (q.endRelease (pos N q.kring.nrHwcur x) ⟨q.nic.desc, c.n, c.k, c.i, q.nic.given⟩) := by
  have hb := hi.bound
  have hroom := ho.room
  have hgiven := ho.given
  refine ⟨?_, by omega, Nat.zero_le _, ?_, ho.head, ?_, ho.done, ?_, fun j hj ↦ by omega⟩
  · change s32 (q.kring.nrHwavail - c.i) = (a - x : ℕ)
    rw [ho.hwavail, hci, s32_of_mem (by omega) (by omega), Nat.cast_sub hgiven]
  · change userClean N o q = pos N (pos N q.kring.nrHwcur x) (a - x)
    rw [pos_pos, Nat.add_sub_cancel' hgiven, ho.clean]
  · change (if c.n = 0 then q.numSlots else u32 (c.n - 1)) = pos N q.nic.nextToClean (N - 1 - (a - x))
    rw [hi.numSlots, prev_pos hb (by rw [hcn]; exact pos_lt hi.nonempty), hcn, pos_pos,
      ho.nicCur_eq hi, pos_pos, show N - a + (x + (N - 1)) = N - 1 - (a - x) + N by omega, pos,
      ← Nat.add_assoc, Nat.add_mod_right]
    rfl
  · intro j hj hja
    by_cases hold : j < N - a
    · exact ho.armed j hj hold
    · have hin : pos N q.nic.nextToClean j = pos N (nicCur N o q) (j - (N - a)) := by
        rw [ho.nicCur_eq hi, pos_pos, Nat.add_sub_cancel' (by omega)]
      change Armed bits m (q.nic.desc (pos N q.nic.nextToClean j))
      rw [hin]
      exact ho.rearmed _ (by omega)

/-- The hardware completes the descriptor at its head, which waits for a packet. -/
theorem Owned.completed (hcount : q.nic.count = N) (hne : q.nic.head ≠ q.nic.tail) {d : AdvRxDesc}
    (hd : d.done bits = true) : Owned N o a (h + 1) x bits m { q with nic := q.nic.complete d } := by
  have hroom := ho.room
  have hgiven := ho.given
  have hlt : a + h + 1 < N := by
    have : h ≠ N - 1 - a := by
      rintro rfl
      exact hne (ho.head.trans ho.tail.symm)
    omega
  have hother : ∀ j, j ≠ a + h → j < N →
      (q.nic.complete d).desc (pos N (nicCur N o q) j) = q.nic.desc (pos N (nicCur N o q) j) := by
    intro j hj hjN
    refine update_of_ne (fun heq ↦ hj ?_) _ _
    rw [ho.head, ho.pos_clean hi] at heq
    exact pos_injective hjN hroom heq
  refine ⟨ho.hwavail, hlt, hgiven, ho.clean, ?_, ho.tail, ?_, ?_, ?_⟩
  · change (if q.nic.head + 1 = q.nic.count then 0 else q.nic.head + 1) = pos N _ (h + 1)
    have hnext := next_eq (pos_lt (a := q.nic.nextToClean) (i := h) hi.nonempty)
    rw [pos_pos] at hnext
    refine Eq.trans ?_ hnext
    rw [hcount, ho.head]
    split_ifs <;> omega
  · intro j hj
    unfold DoneAt
    change ((q.nic.complete d).desc (pos N q.nic.nextToClean j)).done bits = true
    rcases Nat.lt_succ_iff_lt_or_eq.1 hj with hjh | rfl
    · have hdone := ho.done j hjh
      unfold DoneAt at hdone
      rw [ho.pos_clean hi] at hdone ⊢
      rwa [hother _ (by omega) (by omega)]
    · rw [← ho.head, NicRing.complete]
      simpa using hd
  · intro j hj hja
    change Armed bits m ((q.nic.complete d).desc (pos N q.nic.nextToClean j))
    have harmed := ho.armed j (by omega) hja
    rw [ho.pos_clean hi] at harmed ⊢
    rwa [hother _ (by omega) (by omega)]
  · intro j hj
    change Armed bits m ((q.nic.complete d).desc (pos N (nicCur N o q) j))
    rw [hother j (by omega) (by omega)]
    exact ho.rearmed j hj

end

theorem ReadyToReset.owned (hr : ReadyToReset N a q) (htotal : 0 < m.bufs.total) :
    Owned N (pos N q.kring.nrHwcur a) a 0 0 bits m (drv.reset m q) := by
  have hroom := hr.room
  have hN : 0 < N := Nat.zero_lt_of_lt hroom
  obtain ⟨hk, -, hclean, hhead, -, htail, -, hdesc⟩ := hr.reset_fields drv m
  have hofs_lt := pos_lt (a := q.kring.nrHwcur) (i := a) hN
  refine ⟨?_, hroom, Nat.zero_le _, ?_, ?_, ?_, fun j hj ↦ by omega, ?_, fun j hj ↦ by omega⟩
  · rw [hk, dpaReset_nrHwavail, hr.hwavail]
  · rw [userClean, hclean, hk, dpaReset_nrHwcur, pos, Nat.zero_add, Nat.mod_eq_of_lt hofs_lt]
  · rw [hhead, hclean, pos_zero hN]
  · rw [htail, hclean, pos, Nat.zero_add, Nat.mod_eq_of_lt (by omega)]
  · intro j _ hj
    rw [hdesc _ (pos_lt hN)]
    refine ⟨by simp [AdvRxDesc.done], ?_⟩
    exact confAddr_mem htotal _ _ _

/-- The user has no part in what the NIC owns. -/
theorem Owned.withRing (ho : Owned N o a h x bits m q) (ring : DpaRing) :
    Owned N o a h x bits m { q with ring := ring } :=
  ⟨ho.hwavail, ho.room, ho.given, ho.clean, ho.head, ho.tail, ho.done, ho.armed, ho.rearmed⟩

theorem Owned.anew (ho : Owned N o a h x bits m q) : Owned N o a h 0 bits m q :=
  ⟨ho.hwavail, ho.room, Nat.zero_le a, ho.clean, ho.head, ho.tail, ho.done, ho.armed,
    fun j hj ↦ absurd hj (Nat.not_lt_zero j)⟩

def Stands (N o a h x : ℕ) (q : RxQueue) : SyncPc → Prop
  | .harvest _ _ c _ => c.i ≤ h ∧ c.n = pos N q.nic.nextToClean c.i
  | .counts _ _ c _ => c.i < h ∧ c.n = pos N q.nic.nextToClean c.i
  | .release u _ c => c.i = x ∧ c.n = pos N (nicCur N o q) x ∧ c.k = pos N q.kring.nrHwcur x ∧
    ∃ r, x ≤ r ∧ r ≤ a ∧ u = pos N q.kring.nrHwcur r
  | _ => True

def Guarded (N : ℕ) (bits : RxBits) (m : DpaModule) (s : SyncState) : Prop :=
  ∃ o a h x, Confined N o s ∧ Owned N o a h x bits m s.queue ∧ Stands N o a h x s.queue s.pc

theorem Indexed.succ_pos (hi : Indexed N o q) (b i : ℕ) :
    ringSucc q.numSlots (pos N b i) = pos N b (i + 1) := by
  rw [hi.numSlots, ringSucc_pos hi.bound hi.nonempty]

theorem Indexed.next_i (hi : Indexed N o q) {c : Cursors} (hlt : c.i < N) (numSlots : ℕ) :
    (c.next numSlots).i = c.i + 1 := by
  have hb := hi.bound
  rw [Cursors.next, ← Nat.cast_succ, u32_natCast (by omega)]

theorem Guarded.step (hg : Guarded N bits m s) (hC : AsksPending N s .step) :
    Guarded N bits m (s.step bits m).2 := by
  obtain ⟨o, a, h, x, hs, ho, hp⟩ := hg
  have hs' := (hs.step bits m).1
  obtain ⟨q, pc⟩ := s
  have hi : Indexed N o q := hs.toIndexed
  have hroom := ho.room
  cases pc with
  | returned code => exact ⟨o, a, h, x, hs, ho, trivial⟩
  | harvest u resvd c bytes =>
    obtain ⟨hci, hcn⟩ := hp
    by_cases hd : (q.nic.desc c.n).done bits = true
    · have hlt : c.i < h := by
        refine hci.lt_of_ne fun heq ↦ ?_
        have harmed := (ho.armed c.i heq.ge (by omega)).1
        rw [← hcn, hd] at harmed
        cases harmed
      rw [step_fills hd] at hs' ⊢
      exact ⟨o, a, h, x, hs', ho.withRing _, hlt, hcn⟩
    · have heq : c.i = h := by
        refine hci.eq_of_not_lt fun hlt ↦ hd ?_
        rw [hcn]
        exact ho.done c.i hlt
      rw [heq] at hcn
      rw [step_gathers hd] at hs' ⊢
      exact ⟨o, a + h, 0, x, hs', ho.harvested hi _ heq hcn, trivial⟩
  | counts u resvd c bytes =>
    obtain ⟨hci, hcn⟩ := hp
    have hi' := hi.next_i (hci.trans (by omega)) q.numSlots
    refine ⟨o, a, h, x, hs', ho, ?_, ?_⟩
    · exact hi'.trans_le hci
    · change (c.next q.numSlots).n = pos N q.nic.nextToClean (c.next q.numSlots).i
      rw [hi', ← hi.succ_pos]
      exact congrArg (ringSucc q.numSlots) hcn
  | clean u resvd =>
    obtain ⟨hlast, hasks⟩ := hC
    refine ⟨o, a, h, 0, hs', ho.anew.withRing _, ?_⟩
    change Stands N o a h 0 _ (q.turn u (q.checkedResvd resvd))
    rw [RxQueue.turn]
    dsimp only at hlast hasks ⊢
    rw [ho.hwavail] at hasks
    split_ifs
    · trivial
    · obtain ⟨hn, hk⟩ := hs.begins m
      refine ⟨rfl, ?_, ?_, _, Nat.zero_le _, Nat.cast_le.1 hasks, ?_⟩
      · rw [hn]
        exact (pos_zero hi.nicCur_lt).symm
      · rw [hk]
        exact (pos_zero hi.hwcur_lt).symm
      · exact (pos_ahead hi.hwcur_lt hlast).symm
  | release u resvd c =>
    obtain ⟨hci, hcn, hck, r, hxr, hra, hur⟩ := hp
    by_cases hu : c.k = u
    · rw [step_arrives hu] at hs' ⊢
      refine ⟨o, a - x, h, 0, hs', ?_, trivial⟩
      rw [← hu, hck]
      exact ho.released hi c hci hcn
    · have hlt : x < r := by
        refine hxr.lt_of_ne fun heq ↦ hu ?_
        rw [hck, hur, heq]
      by_cases hbad : (bufVpa m.bufs (q.ring.slot c.k)).1 = m.bufs.base
      · rw [step_stops hu hbad] at hs' ⊢
        exact ⟨o, a, h, x, hs', ho, trivial⟩
      · rw [step_rearms hu hbad] at hs' ⊢
        have harmed : Armed bits m ((q.nic.desc c.n).rearm (bufVpa m.bufs (q.ring.slot c.k)).2) :=
          rearm_armed _ hbad
        have hrearms := ho.rearms hi (hlt.trans_le hra) harmed (q.nic.given ++ [c.k])
        rw [← hcn] at hrearms
        refine ⟨o, a, h, x + 1, hs', hrearms, ?_, ?_, ?_, r, hlt, hra, hur⟩
        · rw [hi.next_i (by omega), hci]
        · exact (congrArg (ringSucc q.numSlots) hcn).trans (hi.succ_pos _ x)
        · exact (congrArg (ringSucc q.numSlots) hck).trans (hi.succ_pos _ x)
  | report resvd => exact ⟨o, a, h, x, hs', ho.withRing _, trivial⟩
  | reinit force i errors =>
    by_cases hlt : i < q.kring.nkrNumSlots
    · rw [step_looks hlt] at hs' ⊢
      exact ⟨o, a, h, x, hs', ho.withRing _, trivial⟩
    · rw [step_looked hlt] at hs' ⊢
      refine ⟨o, a, h, x, hs', ?_, trivial⟩
      dsimp only
      split_ifs
      · exact ho.withRing _
      · exact ho

theorem Stands.withRing {pc : SyncPc} (hp : Stands N o a h x q pc) (ring : DpaRing) :
    Stands N o a h x { q with ring := ring } pc := by
  cases pc with
  | _ => exact hp

theorem Stands.completed {pc : SyncPc} (hp : Stands N o a h x q pc) (d : AdvRxDesc) :
    Stands N o a (h + 1) x { q with nic := q.nic.complete d } pc := by
  cases pc with
  | harvest u resvd c bytes => exact ⟨Nat.le_succ_of_le hp.1, hp.2⟩
  | counts u resvd c bytes => exact ⟨Nat.lt_succ_of_lt hp.1, hp.2⟩
  | _ => exact hp

theorem stands_idle {pc : SyncPc} (hpc : pc.idle = true) : Stands N o a h x q pc := by
  cases pc with
  | returned code => exact trivial
  | _ => cases hpc

theorem Confined.stands_enter (hs : Confined N o ⟨q, pc⟩) (bits : RxBits) (m : DpaModule)
    (carrier : Bool) (u resvd : ℕ) : Stands N o a h x q (SyncState.enter carrier u resvd q) := by
  rw [SyncState.enter]
  split_ifs
  · trivial
  · trivial
  · have hbegin : q.beginHarvest = harvestAt N o bits m q 0 := hs.toIndexed.beginHarvest
    exact ⟨Nat.zero_le h, congrArg Harvest.n hbegin⟩

theorem Guarded.exec {e : SyncEvent} (hg : Guarded N drv.bits m s) (htotal : 0 < m.bufs.total)
    (hC : AsksPending N s e) (hexec : s.exec drv m e = some s') : Guarded N drv.bits m s' := by
  obtain ⟨o, a, h, x, hs, ho, hp⟩ := hg
  cases e with
  | call carrier u resvd =>
    simp only [SyncState.exec] at hexec
    split_ifs at hexec with hidle
    obtain rfl := Option.some.inj hexec
    exact ⟨o, a, h, x, hs.enters drv.bits m carrier u resvd, ho,
      hs.stands_enter drv.bits m carrier u resvd⟩
  | step =>
    obtain rfl := Option.some.inj hexec
    exact Guarded.step ⟨o, a, h, x, hs, ho, hp⟩ hC
  | user ring =>
    obtain rfl := Option.some.inj hexec
    exact ⟨o, a, h, x, hs.touched hs.cursors, ho.withRing ring, hp.withRing ring⟩
  | complete d =>
    simp only [SyncState.exec] at hexec
    split_ifs at hexec with hd
    obtain rfl := Option.some.inj hexec
    exact ⟨o, a, h + 1, x, hs.touched hs.cursors, ho.completed hs.toIndexed hs.count hd.1 hd.2,
      hp.completed d⟩
  | reset =>
    obtain ⟨rfl, hidle, a, hr⟩ := hs.exec_reset hexec
    exact ⟨_, a, 0, 0, hr.confined hidle, hr.owned htotal, stands_idle hidle⟩

/-- What a reset has given the NIC: for each descriptor the address of the buffer that its slot names, or
that of the first buffer of the pool where the slot names none. -/
structure Rearmed (N : ℕ) (m : DpaModule) (s : SyncState) : Prop where
  named : ∀ n < N, ∃ k < N, dpaIdxN2k s.queue.kring n = (k : ℤ) ∧
    ∃ i < m.bufs.total, (s.queue.nic.desc n).lower = m.bufs.paddr i ∧
      (i = (s.queue.ring.slot k).bufIdx ∨ m.bufs.total ≤ (s.queue.ring.slot k).bufIdx ∧ i = 0)

theorem Confined.rearmed (hs : Confined N o s) (htotal : 0 < m.bufs.total)
    (h : s.exec drv m .reset = some s') : Rearmed N m s' := by
  obtain ⟨rfl, hidle, a, hr⟩ := hs.exec_reset h
  have hs' : Confined N _ ⟨drv.reset m s.queue, s.pc⟩ := hr.confined hidle
  obtain ⟨hk, hring, -, -, -, -, -, hdesc⟩ := hr.reset_fields drv m
  refine ⟨fun n hn ↦ ?_⟩
  have hidx : dpaIdxN2k (drv.reset m s.queue).kring n = (pos N n (pos N s.queue.kring.nrHwcur a) : ℕ) :=
    hs'.toIndexed.n2k hn
  have haddr : ((drv.reset m s.queue).nic.desc n).lower =
      (bufVpa m.bufs ((drv.reset m s.queue).ring.slot (pos N n (pos N s.queue.kring.nrHwcur a)))).2 := by
    rw [hdesc n hn, RxQueue.confAddr, ← hk, hidx, Int.toNat_natCast, hring]
  refine ⟨_, pos_lt hs.nonempty, hidx, ?_⟩
  dsimp only
  rw [haddr]
  exact bufVpa_named htotal _

theorem Registered.ready (h₀ : Registered N m q) : ReadyToReset N 0 q := h₀.resettable.ready

theorem Registered.total_pos (h₀ : Registered N m q) : 0 < m.bufs.total := by
  obtain ⟨i, -, hi, -⟩ := vpa_mem (h₀.good 0 h₀.nonempty)
  exact Nat.zero_lt_of_lt hi

def FillsBuffer (m : DpaModule) (s : SyncState) : Prop :=
  s.queue.nic.head ≠ s.queue.nic.tail →
    ∃ i < m.bufs.total, (s.queue.nic.desc s.queue.nic.head).lower = m.bufs.paddr i

theorem Guarded.fills (hg : Guarded N bits m s) :
    FillsBuffer m s ∧ 0 ≤ s.queue.kring.nrHwavail ∧ s.queue.kring.nrHwavail < N := by
  obtain ⟨o, a, h, x, hs, ho, -⟩ := hg
  have hroom := ho.room
  refine ⟨fun hne ↦ ?_, ?_⟩
  · have hlt : h < N - a := by
      have : h ≠ N - 1 - a := by
        rintro rfl
        exact hne (ho.head.trans ho.tail.symm)
      omega
    rw [ho.head]
    exact (ho.armed h le_rfl hlt).2
  · rw [ho.hwavail]
    omega

/-- Whatever a client writes into its ring and whenever it does, also in the middle of a call, the kernel
stays inside the rings; a call gives the NIC addresses of packet buffers other than the first only, and a
reset those of the buffers that the slots name, or of the first one. Where no call goes for more slots than
are pending, packet buffers are all that the NIC fills. -/
theorem client_contained {es : List SyncEvent} (h₀ : Registered N m q)
    (hrun : run (SyncState.exec drv m) es ⟨drv.reset m q, .returned 0⟩ = some s) :
    (∀ x ∈ (s.step drv.bits m).1, x.Safe N m) ∧ s.queue.nic.tail < N ∧
      (∀ s', s.exec drv m .reset = some s' → Rearmed N m s') ∧
      (Throughout (SyncState.exec drv m) (AsksPending N) es ⟨drv.reset m q, .returned 0⟩ →
        FillsBuffer m s ∧ 0 ≤ s.queue.kring.nrHwavail ∧ s.queue.kring.nrHwavail < N) := by
  have hstart : Confined N (pos N q.kring.nrHwcur 0) ⟨drv.reset m q, .returned 0⟩ :=
    h₀.ready.confined rfl
  obtain ⟨o, hs⟩ : ∃ o, Confined N o s := by
    refine run_preserves (P := fun s ↦ ∃ o, Confined N o s) ?_ ⟨_, hstart⟩ hrun
    rintro s e s' ⟨o, hs⟩ hexec
    exact hs.exec hexec
  refine ⟨(hs.step drv.bits m).2, hs.tail, fun s' ↦ hs.rearmed h₀.total_pos, fun hasks ↦ ?_⟩
  have hguarded : Guarded N drv.bits m ⟨drv.reset m q, .returned 0⟩ :=
    ⟨_, 0, 0, 0, hstart, h₀.ready.owned h₀.total_pos, trivial⟩
  have hg : Guarded N drv.bits m s :=
    hasks.preserves (fun s e s' hg hC hexec ↦ hg.exec h₀.total_pos hC hexec) hguarded hrun
  exact hg.fills

/-- The slots name a buffer that does not exist, all but one. -/
def hostileRing : DpaRing := ⟨9, 7, 3, 4294967295, 5, 1, fun i ↦ ⟨if i = 0 then 3 else 77, 9000, 1⟩⟩

/-- A packet comes in, and while the kernel takes it the client has given its slot another buffer and
everything else values of its own. -/
def hostileEvents : List SyncEvent :=
  [.complete ⟨99, 1, 60, 0⟩, .call true 1 0, .step, .user hostileRing, .step, .step, .step, .step]

theorem client_contained_fourSlots :
    (∃ s, run (SyncState.exec .igb eightBuffers) hostileEvents
        ⟨Intel.igb.reset eightBuffers fourSlots, .returned 0⟩ = some s ∧
      (∀ x ∈ (s.step Intel.igb.bits eightBuffers).1, x.Safe 4 eightBuffers) ∧ s.queue.nic.tail < 4 ∧
      FillsBuffer eightBuffers s ∧ 0 ≤ s.queue.kring.nrHwavail ∧ s.queue.kring.nrHwavail < 4) ∧
    ∃ s s', run (SyncState.exec .igb eightBuffers) [.user hostileRing]
        ⟨Intel.igb.reset eightBuffers fourSlots, .returned 0⟩ = some s ∧
      s.exec .igb eightBuffers .reset = some s' ∧ Rearmed 4 eightBuffers s' ∧
      (s'.queue.nic.desc 0).lower = eightBuffers.bufs.paddr 3 ∧
      (s'.queue.nic.desc 1).lower = eightBuffers.bufs.paddr 0 := by
  constructor
  · have hsome : (run (SyncState.exec .igb eightBuffers) hostileEvents
        ⟨Intel.igb.reset eightBuffers fourSlots, .returned 0⟩).isSome = true := by decide +kernel
    obtain ⟨s, hs⟩ := Option.isSome_iff_exists.1 hsome
    have hasks : Throughout (SyncState.exec .igb eightBuffers) (AsksPending 4) hostileEvents
        ⟨Intel.igb.reset eightBuffers fourSlots, .returned 0⟩ := by decide +kernel
    obtain ⟨hsafe, htail, -, hfills⟩ := client_contained fourSlots_registered hs
    exact ⟨s, hs, hsafe, htail, hfills hasks⟩
  · obtain ⟨-, -, hreset, -⟩ := @client_contained 4 .igb eightBuffers fourSlots _
      [.user hostileRing] fourSlots_registered rfl
    exact ⟨_, _, rfl, rfl, hreset _ rfl, by decide +kernel, by decide +kernel⟩

end Dpa.Driver
