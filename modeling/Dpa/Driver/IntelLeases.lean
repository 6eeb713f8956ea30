import Dpa.Driver.IntelDelivery

namespace Dpa.Driver

open Kernel MachineWord Cyclic Function Relation Library

variable {β : Type} {N o a h i : ℕ} {bits : RxBits} {m : DpaModule} {s' : RxQueue} {drv : Intel}
  {t t' : Traffic β}

namespace Traffic

/-- The client passes `count` slots, whose packets it has then seen, and keeps `reserved` of the slots
that it has passed. -/
def take (N : ℕ) (m : DpaModule) (t : Traffic β) (count reserved : ℕ) : Traffic β :=
  { t with
    queue := t.queue.consume count reserved
    delivered := t.delivered ++ (t.window N m).take count }

inductive LeaseStep (N : ℕ) (drv : Intel) (m : DpaModule) : Traffic β → Traffic β → Prop
  | receive (t : Traffic β) (d : AdvRxDesc) (contents : β) : t.queue.nic.head ≠ t.queue.nic.tail →
      d.done drv.bits = true → d.length < 2 ^ 16 → LeaseStep N drv m t (t.receive d contents)
  | poll (t : Traffic β) (carrier : Bool) (s' : RxQueue) :
      dpaPoll drv m carrier t.queue = some s' → LeaseStep N drv m t (t.synced s')
  | rxSync (t : Traffic β) (carrier : Bool) (code : ℕ) (s' : RxQueue) :
      drv.rxSync m carrier true t.queue = some (code, s') → LeaseStep N drv m t (t.synced s')
  | take (t : Traffic β) (count reserved : ℕ) : count ≤ t.queue.ring.avail →
      reserved ≤ t.queue.ring.reserved + count → LeaseStep N drv m t (t.take N m count reserved)
  | reset (t : Traffic β) : LeaseStep N drv m t (t.reset drv m)

/-- What the client finds in the slots that it keeps and in those it has yet to pass. -/
def span (N : ℕ) (m : DpaModule) (t : Traffic β) : List (Frame β) :=
  (List.range (t.queue.ring.reserved + t.queue.ring.avail)).map fun j ↦
    frameAt m t.mem t.queue.ring (pos N t.queue.ring.cur (N - t.queue.ring.reserved + j))

def held (N : ℕ) (m : DpaModule) (t : Traffic β) : List (Frame β) :=
  (List.range t.queue.ring.reserved).map fun j ↦
    frameAt m t.mem t.queue.ring (pos N t.queue.ring.cur (N - t.queue.ring.reserved + j))

end Traffic

theorem pos_add_self (x j : ℕ) : pos N x (N + j) = pos N x j := by
  rw [Nat.add_comm, pos, pos, ← Nat.add_assoc, Nat.add_mod_right]

theorem span_eq_append (hle : t.queue.ring.reserved ≤ N) :
    t.span N m = t.held N m ++ t.window N m := by
  rw [Traffic.span, List.range_add, List.map_append, List.map_map]
  congr 1
  apply List.map_congr_left
  intro j _
  simp only [Function.comp]
  rw [show N - t.queue.ring.reserved + (t.queue.ring.reserved + j) = N + j by omega, pos_add_self]

/-- Counted from `hwcur`, the slots that the client keeps come before those it has yet to pass. -/
theorem UserSide.span_eq (hu : UserSide N a t.queue) (ha : a < N) : t.span N m =
    (List.range (t.queue.ring.reserved + t.queue.ring.avail)).map fun j ↦
      frameAt m t.mem t.queue.ring (pos N t.queue.kring.nrHwcur
        (a - t.queue.ring.avail - t.queue.ring.reserved + j)) := by
  have hav := hu.avail
  apply List.map_congr_left
  intro j _
  rw [hu.cur, pos_pos, show a - t.queue.ring.avail + (N - t.queue.ring.reserved + j) =
    N + (a - t.queue.ring.avail - t.queue.ring.reserved + j) by omega, pos_add_self]

/-- A packet is written into the buffer of the slot past those in use. -/
theorem Wired.receive_mem (hw : Wired N a h m t) (hc : Core N o a h bits m t.queue)
    (hroom : a + h + 1 < N) (d : AdvRxDesc) (contents : β) (hi : i < N) (hne : i ≠ a + h) :
    (t.receive d contents).mem (slotAddr N m t.queue i) = t.mem (slotAddr N m t.queue i) := by
  refine update_of_ne ?_ _ _
  rw [hc.head, hw.armed h le_rfl (by omega)]
  exact fun heq ↦ hne (hw.toOwnBuffers.slotAddr_inj hi (by omega) heq)

theorem Wired.span_receive (hw : Wired N a h m t) (hc : Core N o a h bits m t.queue)
    (hu : UserSide N a t.queue) (hroom : a + h + 1 < N) (d : AdvRxDesc) (contents : β) :
    (t.receive d contents).span N m = t.span N m := by
  have hav := hu.avail
  have hu' : UserSide N a (t.receive d contents).queue := ⟨hu.avail, hu.cur⟩
  rw [hu'.span_eq (by omega), hu.span_eq (by omega),
    show (t.receive d contents).queue.ring = t.queue.ring from rfl]
  apply List.map_congr_left
  intro j hj
  have hlt : j < t.queue.ring.reserved + t.queue.ring.avail := List.mem_range.1 hj
  exact frameAt_congr rfl (hw.receive_mem hc hroom d contents (by omega) (by omega))

theorem Wired.span_synced {s₁ : RxQueue} (hw : Wired N a h m t) (hc : Core N o a h bits m t.queue)
    (hu : UserSide N a t.queue) (hv : Harvested N o bits m h t.queue s₁)
    (hr : Released N o m (a - t.queue.ring.avail - t.queue.ring.reserved) t.queue.ring.reserved
      s₁ s')
    (hchk : s₁.checkedResvd t.queue.ring.reserved = t.queue.ring.reserved) :
    (t.synced s').span N m = t.span N m ++ Driver.newlyHarvested t.filled t.queue s' := by
  have hroom := hc.room
  have hav := hu.avail
  obtain ⟨h1, h2, _, hu'⟩ := hc.userSide hu hv hr hchk
  have hs : (t.synced s').span N m =
      (List.range (t.queue.ring.reserved + t.queue.ring.avail + h)).map fun j ↦
        frameAt m t.mem s'.ring (pos N t.queue.kring.nrHwcur
          (a - t.queue.ring.avail - t.queue.ring.reserved + j)) := by
    refine (UserSide.span_eq (t := t.synced s') hu' (by omega)).trans ?_
    change (List.range (s'.ring.reserved + s'.ring.avail)).map (fun j ↦ frameAt m t.mem s'.ring
      (pos N s'.kring.nrHwcur (t.queue.ring.avail + t.queue.ring.reserved + h - s'.ring.avail -
        s'.ring.reserved + j))) = _
    rw [h1, h2, ← Nat.add_assoc]
    apply List.map_congr_left
    intro j _
    rw [hr.hwcur, hv.hwcur, pos_pos]
    congr 2
    omega
  rw [hs, hu.span_eq (by omega), hw.newlyHarvested hc hv hr, List.range_add, List.map_append,
    List.map_map]
  congr 1
  · apply List.map_congr_left
    intro j hj
    have hjlt := List.mem_range.1 hj
    exact frameAt_congr (hc.slot_old hv hr (by omega)) rfl
  · apply List.map_congr_left
    intro j _
    simp only [Function.comp]
    rw [show a - t.queue.ring.avail - t.queue.ring.reserved +
      (t.queue.ring.reserved + t.queue.ring.avail + j) = a + j by omega]

/-- The queue in order, and what its client finds in its slots: the last packets harvested. -/
structure Leases (N : ℕ) (drv : Intel) (m : DpaModule) (t : Traffic β) : Prop where
  wired : ∃ o a h, Core N o a h drv.bits m t.queue ∧ UserSide N a t.queue ∧ Wired N a h m t
  split : t.harvested = t.delivered ++ t.window N m
  span : t.span N m <:+ t.harvested

theorem Leases.receive (ht : Leases N drv m t) {d : AdvRxDesc} (contents : β)
    (hne : t.queue.nic.head ≠ t.queue.nic.tail) (hd : d.done drv.bits = true) :
    Leases N drv m (t.receive d contents) := by
  obtain ⟨o, a, h, hc, hu, hw⟩ := ht.wired
  obtain ⟨hc', hroom⟩ := hc.completed hne hd
  obtain ⟨hw', hwin⟩ := hw.receive hc hu hroom d contents
  refine ⟨⟨o, a, h + 1, hc', ⟨hu.avail, hu.cur⟩, hw'⟩, ?_, ?_⟩
  · rw [hwin]
    exact ht.split
  · rw [hw.span_receive hc hu hroom]
    exact ht.span

theorem append_suffix_append {l l' : List β} (hl : l <:+ l') (x : List β) : l ++ x <:+ l' ++ x := by
  obtain ⟨y, rfl⟩ := hl
  exact ⟨y, (List.append_assoc y l x).symm⟩

theorem Leases.rxSync (ht : Leases N drv m t) {carrier doLock : Bool} {code : ℕ}
    (hs : drv.rxSync m carrier doLock t.queue = some (code, s')) :
    Leases N drv m (t.synced s') := by
  obtain ⟨o, a, h, hc, hu, hw⟩ := ht.wired
  rw [rxSync_eq] at hs
  cases carrier with
  | false =>
    obtain rfl : t.queue = s' := congrArg Prod.snd (Option.some.inj hs)
    rw [hc.synced_self]
    exact ht
  | true =>
    obtain ⟨s₁, s'', heq, hv, hr, hchk⟩ := hc.rxSync hu doLock
    rw [hs, Option.some.injEq, Prod.mk.injEq] at heq
    obtain ⟨_, rfl⟩ := heq
    refine ⟨hw.after hc hu hv hr hchk, ?_, ?_⟩
    · rw [hw.window_synced hc hu hv hr hchk, ← List.append_assoc]
      exact congrArg (· ++ _) ht.split
    · rw [hw.span_synced hc hu hv hr hchk]
      exact append_suffix_append ht.span _

theorem Leases.poll (ht : Leases N drv m t) {carrier : Bool}
    (hpoll : dpaPoll drv m carrier t.queue = some s') : Leases N drv m (t.synced s') := by
  obtain ⟨_, _, hs⟩ := rxSync_of_poll hpoll
  exact ht.rxSync hs

theorem Leases.reset (ht : Leases N drv m t) : Leases N drv m (t.reset drv m) := by
  obtain ⟨o, a, h, hc, hu, hw⟩ := ht.wired
  have hr := hc.resettable
  obtain ⟨_, hring, _⟩ := hr.reset_fields drv
  refine ⟨⟨_, a, 0, hr.reset drv drv.bits, hr.userSide hu, hr.wired hw.toOwnBuffers hw.numSlots⟩,
    ?_, ?_⟩
  · rw [Traffic.window]
    change t.harvested = t.delivered ++ (List.range (drv.reset m t.queue).ring.avail).map fun j ↦
      frameAt m t.mem (drv.reset m t.queue).ring (pos N (drv.reset m t.queue).ring.cur j)
    rw [hring]
    exact ht.split
  · rw [Traffic.span]
    change (List.range ((drv.reset m t.queue).ring.reserved +
      (drv.reset m t.queue).ring.avail)).map (fun j ↦ frameAt m t.mem (drv.reset m t.queue).ring
        (pos N (drv.reset m t.queue).ring.cur (N - (drv.reset m t.queue).ring.reserved + j))) <:+ _
    rw [hring]
    exact ht.span

section

variable {count reserved : ℕ} (hcount : count ≤ t.queue.ring.avail)

include hcount

theorem window_take (hslots : t.queue.kring.nkrNumSlots = N) :
    (t.take N m count reserved).window N m = (t.window N m).drop count := by
  obtain ⟨k, hk⟩ := Nat.exists_eq_add_of_le hcount
  change (List.range (t.queue.ring.avail - count)).map (fun j ↦ frameAt m t.mem t.queue.ring
    (pos N ((t.queue.ring.cur + count) % t.queue.kring.nkrNumSlots) j)) = _
  rw [Traffic.window, hslots, hk, List.range_add, List.map_append, List.drop_left' (by simp),
    List.map_map, Nat.add_sub_cancel_left]
  apply List.map_congr_left
  intro j _
  simp only [Function.comp]
  rw [← pos, pos_pos]

theorem span_take (hslots : t.queue.kring.nkrNumSlots = N)
    (hres : reserved ≤ t.queue.ring.reserved + count)
    (hle : t.queue.ring.reserved + t.queue.ring.avail ≤ N) :
    (t.take N m count reserved).span N m =
      (t.span N m).drop (t.queue.ring.reserved + count - reserved) := by
  obtain ⟨k, hk⟩ : ∃ k, t.queue.ring.reserved + t.queue.ring.avail =
      (t.queue.ring.reserved + count - reserved) + k := Nat.exists_eq_add_of_le (by omega)
  have hdrop : (t.span N m).drop (t.queue.ring.reserved + count - reserved) =
      (List.range k).map fun j ↦ frameAt m t.mem t.queue.ring (pos N t.queue.ring.cur
        (N - t.queue.ring.reserved + (t.queue.ring.reserved + count - reserved + j))) := by
    rw [Traffic.span, hk, List.range_add, List.map_append, List.drop_left' (by simp), List.map_map]
    rfl
  rw [hdrop]
  change (List.range (reserved + (t.queue.ring.avail - count))).map (fun j ↦
    frameAt m t.mem t.queue.ring (pos N ((t.queue.ring.cur + count) % t.queue.kring.nkrNumSlots)
      (N - reserved + j))) = _
  rw [hslots, show reserved + (t.queue.ring.avail - count) = k by omega]
  apply List.map_congr_left
  intro j _
  rw [← pos, pos_pos]
  congr 2
  omega

end

theorem Leases.take (ht : Leases N drv m t) {count reserved : ℕ}
    (hcount : count ≤ t.queue.ring.avail) (hres : reserved ≤ t.queue.ring.reserved + count) :
    Leases N drv m (t.take N m count reserved) := by
  obtain ⟨o, a, h, hc, hu, hw⟩ := ht.wired
  have hroom := hc.room
  have hav := hu.avail
  refine ⟨⟨o, a, h, hc.withRing rfl, hu.consume hcount rfl hres ?_,
    ⟨⟨hw.valid, hw.distinct⟩, hw.numSlots, hw.armed, hw.filled⟩⟩, ?_, ?_⟩
  · rw [hc.slots]
    rfl
  · rw [window_take hcount hc.slots]
    change t.harvested = t.delivered ++ (t.window N m).take count ++ (t.window N m).drop count
    rw [List.append_assoc, List.take_append_drop]
    exact ht.split
  · rw [span_take hcount hc.slots hres (by omega)]
    exact (List.drop_suffix _ _).trans ht.span

theorem Leases.step (ht : Leases N drv m t) (hs : Traffic.LeaseStep N drv m t t') :
    Leases N drv m t' := by
  cases hs with
  | receive d contents hne hd _ => exact ht.receive contents hne hd
  | poll carrier s' hpoll => exact ht.poll hpoll
  | rxSync carrier code s' hs => exact ht.rxSync hs
  | take count reserved hcount hres => exact ht.take hcount hres
  | reset => exact ht.reset

theorem Leases.run (ht : Leases N drv m t) (hr : ReflTransGen (Traffic.LeaseStep N drv m) t t') :
    Leases N drv m t' := by
  induction hr with
  | refl => exact ht
  | tail _ hs ih => exact ih.step hs

theorem Registered.leases {s : RxQueue} (hs : Registered N m s) (hb : OwnBuffers N m s)
    (hnum : s.ring.numSlots = N) (mem filled : ℕ → β) :
    Leases N drv m ((Traffic.start s mem filled).reset drv m) := by
  have hr := hs.resettable
  obtain ⟨_, hring, _⟩ := hr.reset_fields drv
  have havail : (drv.reset m s).ring.avail = 0 := by
    rw [hring]
    exact hs.avail
  have hres : (drv.reset m s).ring.reserved = 0 := by
    rw [hring]
    exact hs.reserved
  refine ⟨⟨_, 0, 0, hr.reset drv drv.bits, hr.userSide hs.userSide,
    hr.wired (t := Traffic.start s mem filled) hb hnum⟩, ?_, ?_⟩
  · change [] = [] ++ (List.range (drv.reset m s).ring.avail).map _
    rw [havail]
    rfl
  · change (List.range ((drv.reset m s).ring.reserved + (drv.reset m s).ring.avail)).map _ <:+ []
    rw [havail, hres]
    exact List.suffix_refl []

/-- A client that keeps slots goes on finding in them the packets it saw there, whatever arrives and
however often the driver resets the ring, and loses none of those it has yet to pass. -/
theorem kept_slots_keep_packets {s₀ : RxQueue} (h₀ : Registered N m s₀) (hb : OwnBuffers N m s₀)
    (hnum : s₀.ring.numSlots = N) (mem filled : ℕ → β)
    (hr : ReflTransGen (Traffic.LeaseStep N drv m) ((Traffic.start s₀ mem filled).reset drv m) t) :
    t.harvested = t.delivered ++ t.window N m ∧
      t.queue.ring.reserved ≤ t.delivered.length ∧
      t.held N m = t.delivered.drop (t.delivered.length - t.queue.ring.reserved) := by
  have ht := (h₀.leases hb hnum mem filled).run hr
  obtain ⟨o, a, h, hc, hu, hw⟩ := ht.wired
  have hroom := hc.room
  have hav := hu.avail
  have hsuf := ht.span
  rw [span_eq_append (by omega), ht.split] at hsuf
  have hlen : (t.held N m).length = t.queue.ring.reserved := by
    rw [Traffic.held, List.length_map, List.length_range]
  have hheld : t.held N m <:+ t.delivered := (List.suffix_append_inj_of_length_eq rfl).1 hsuf |>.1
  refine ⟨ht.split, ?_, ?_⟩
  · rw [← hlen]
    exact hheld.length_le
  · rw [← hlen]
    exact List.suffix_iff_eq_drop.1 hheld

/-- The client keeps the slot of its only packet while the hardware receives another. -/
def fourSlotsKept : Traffic ℕ :=
  (((((Traffic.start fourSlots (fun _ ↦ 0) (fun _ ↦ 0)).reset .igb eightBuffers).receive
    ⟨0, 1, 60, 0⟩ 7).synced fourSlotsSynced).take 4 eightBuffers 1 1).receive ⟨0, 1, 70, 0⟩ 8

theorem fourSlots_kept : ReflTransGen (Traffic.LeaseStep 4 .igb eightBuffers)
    ((Traffic.start fourSlots (fun _ ↦ 0) (fun _ ↦ 0)).reset .igb eightBuffers) fourSlotsKept :=
  (((ReflTransGen.single
    (.receive _ ⟨0, 1, 60, 0⟩ 7 (by decide +kernel) (by decide) (by decide))).tail
      (.rxSync _ true 0 fourSlotsSynced fourSlots_sync)).tail
        (.take _ 1 1 (by decide +kernel) (by decide +kernel))).tail
          (.receive _ ⟨0, 1, 70, 0⟩ 8 (by decide +kernel) (by decide) (by decide))

theorem kept_slots_keep_packets_fourSlots :
    ((fourSlotsKept.held 4 eightBuffers).map fun f ↦ (f.len, f.info, f.contents)) = [(60, 0, 7)] ∧
    fourSlotsKept.harvested = fourSlotsKept.delivered ++ fourSlotsKept.window 4 eightBuffers ∧
      fourSlotsKept.queue.ring.reserved ≤ fourSlotsKept.delivered.length ∧
      fourSlotsKept.held 4 eightBuffers = fourSlotsKept.delivered.drop
        (fourSlotsKept.delivered.length - fourSlotsKept.queue.ring.reserved) :=
  ⟨by decide +kernel, kept_slots_keep_packets fourSlots_registered fourSlots_ownBuffers rfl _ _
    fourSlots_kept⟩

end Dpa.Driver
