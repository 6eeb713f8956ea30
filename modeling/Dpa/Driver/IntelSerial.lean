import Dpa.Library.Snapshot
import Dpa.Driver.IntelRuns

namespace Dpa.Driver

open Kernel MachineWord Cyclic Function Relation Library Snapshots

variable {N o a h u : ℕ} {bits : RxBits} {m : DpaModule} {s s' s₀ : RxQueue} {drv : Intel}

/-- What happens to a shared queue apart from its `DIOCRXSYNC` calls. A poll holds the lock
from before `rx_sync` begins, and the consumer keeps nothing of what it has passed. -/
inductive Act
  | poll (carrier : Bool)
  | complete (d : AdvRxDesc)
  | consume (count : ℕ)

def Act.apply (drv : Intel) (m : DpaModule) (s : RxQueue) : Act → Option RxQueue
  | poll carrier => (drv.rxSync m carrier false s).map Prod.snd
  | complete d =>
    if s.nic.head ≠ s.nic.tail ∧ d.done drv.bits = true then
      some { s with nic := s.nic.complete d }
    else none
  | consume count => if count ≤ s.ring.avail then some (s.consume count 0) else none

/-- A queue that several file descriptors share. A `DIOCRXSYNC` call that finds a carrier reads
`cur` and `reserved` on entry and does the rest once it has the lock. -/
def sharedQueue (drv : Intel) (m : DpaModule) : Snapshots RxQueue (ℕ × ℕ) Act where
  read s := (s.ring.cur, s.ring.reserved)
  body w s := (s.rxSyncBody drv.bits m true true w.1 w.2).map Prod.snd
  act a s := a.apply drv m s

/-- What goes back to the NIC between `s` and `s'` are slots that the consumer had passed. -/
def ReleasesPassed (N : ℕ) (s s' : RxQueue) : Prop :=
  ∃ given, s'.nic.given = s.nic.given ++ given ∧
    ∀ x ∈ given, ∃ j < ahead N s.kring.nrHwcur s.ring.cur, x = (s.kring.nrHwcur + j) % N

/-- What the callers expect at one point of a run from `s`, after the events `es`. -/
structure InSeries (N : ℕ) (drv : Intel) (m : DpaModule) (s : RxQueue) (es : List (Event Act))
    (t : Shared RxQueue (ℕ × ℕ)) : Prop where
  hwavail : 0 ≤ t.object.kring.nrHwavail ∧ t.object.kring.nrHwavail ≤ N - 1
  serialisable : (sharedQueue drv m).Serialisable s es t.object
  poll : ∀ carrier, ∃ t', (sharedQueue drv m).exec t (.act (.poll carrier)) = some t'
  body : ∀ c, (t.entered c).isSome → ∃ t', (sharedQueue drv m).exec t (.body c) = some t'

structure SerialCalls (N : ℕ) (drv : Intel) (m : DpaModule) (s : RxQueue)
    (es : List (Event Act)) : Prop where
  states : ∀ es₁ es₂ t, es = es₁ ++ es₂ → run (sharedQueue drv m).exec es₁ (start s) = some t →
    InSeries N drv m s es₁ t
  releases : ∀ es₁ e es₂ t t', es = es₁ ++ e :: es₂ →
    run (sharedQueue drv m).exec es₁ (start s) = some t → (sharedQueue drv m).exec t e = some t' →
    ReleasesPassed N t.object t'.object

def NothingKept (N : ℕ) (drv : Intel) (m : DpaModule) (s : RxQueue) : Prop :=
  Ordered N drv m s ∧ s.ring.reserved = 0

theorem checkedResvd_zero (s : RxQueue) : s.checkedResvd 0 = 0 := by 
  simp [RxQueue.checkedResvd, Kernel.checkedResvd]

theorem Core.call (hc : Core N o a h bits m s) (hu : u < N) (doLock : Bool) :
    ∃ s₁ s', s.rxSyncBody bits m true doLock u 0 = some (0, s') ∧
      Harvested N o bits m h s s₁ ∧ Released N o m (ahead N s.kring.nrHwcur u) 0 s₁ s' := by
  have hb := hc.bound
  have hroom := hc.room
  have hwavail := hc.hwavail
  have hlt := ahead_lt (a := s.kring.nrHwcur) (b := u) hc.nonempty
  have hv := hc.endHarvest bits m h (by omega) (by omega)
  have hc₁ := hc.harvested hv
  have hbody := hc.rxSyncBody (m := m) hu (by omega) hc.done (hc.clear h le_rfl (by omega))
    doLock 0
  generalize s.endHarvest (harvestAt N o bits m s h) = s₁ at hv hc₁ hbody
  have hwavail₁ := hc₁.hwavail
  have hlast : s₁.releaseEnd u (s₁.checkedResvd 0) =
      pos N s₁.kring.nrHwcur (ahead N s.kring.nrHwcur u) := by
    rw [checkedResvd_zero, hv.hwcur, pos_ahead hc.hwcur_lt hu]
    rfl
  obtain ⟨s', heq, hr⟩ := hc₁.toIndexed.released hlt hlast
    (fun j _ ↦ hc₁.good _ (pos_lt hc.nonempty)) (by omega) (by omega)
  exact ⟨s₁, s', hbody.trans heq, hv, hr⟩

theorem UserSide.passed (hu : UserSide N a s) (hc : Core N o a h bits m s) :
    ahead N s.kring.nrHwcur s.ring.cur = a - s.ring.avail := by
  have hroom := hc.room
  rw [hu.cur]
  exact ahead_pos hc.hwcur_lt (by omega)

theorem NothingKept.cur_lt (hs : NothingKept N drv m s) : s.ring.cur < N := by
  obtain ⟨⟨o, a, h, hc, hu⟩, _⟩ := hs
  rw [hu.cur]
  exact pos_lt hc.nonempty

theorem NothingKept.hwavail (hs : NothingKept N drv m s) :
    0 ≤ s.kring.nrHwavail ∧ s.kring.nrHwavail ≤ N - 1 := by
  obtain ⟨⟨o, a, h, hc, _⟩, _⟩ := hs
  have hroom := hc.room
  have hwavail := hc.hwavail
  omega

theorem NothingKept.rxSync (hs : NothingKept N drv m s) (doLock : Bool) :
    ∃ s', drv.rxSync m true doLock s = some (0, s') ∧ NothingKept N drv m s' ∧
      ReleasesPassed N s s' := by
  obtain ⟨s', heq, hord, _⟩ := hs.1.rxSync doLock
  have hlt := hs.cur_lt
  obtain ⟨⟨o, a, h, hc, hu⟩, hres⟩ := hs
  obtain ⟨s₁, s'', hbody, hv, hr⟩ := hc.call hlt doLock
  obtain rfl : s' = s'' := by
    have heq' : some (0, s') = some (0, s'') := by
      rw [← heq, ← hbody, rxSync_eq, RxQueue.rxSync, hres]
    exact congrArg Prod.snd (Option.some.inj heq')
  refine ⟨s', heq, ⟨hord, ?_⟩, ?_⟩
  · rw [hr.reserved, if_pos (checkedResvd_zero s₁), hv.ring]
    exact hres
  · refine ⟨_, hr.given.trans (congrArg (· ++ _) hv.given), ?_⟩
    intro x hx
    obtain ⟨j, hj, rfl⟩ := List.mem_map.1 hx
    refine ⟨j, List.mem_range.1 hj, ?_⟩
    rw [hv.hwcur]
    rfl

theorem ReleasesPassed.of_given (h : s'.nic.given = s.nic.given) : ReleasesPassed N s s' := by
  refine ⟨[], ?_, ?_⟩
  · rw [h, List.append_nil]
  · intro x hx
    cases hx

theorem sharedQueue_fresh :
    (sharedQueue drv m).body ((sharedQueue drv m).read s) s =
      (drv.rxSync m true true s).map Prod.snd := by
  rw [rxSync_eq]
  rfl

/-- What an event does to a queue in order if its call reads its words as it does its work. -/
theorem NothingKept.serial (hs : NothingKept N drv m s) {e : Event Act}
    (he : (sharedQueue drv m).serial s e = some s') :
    NothingKept N drv m s' ∧ ReleasesPassed N s s' := by
  have hcall (doLock : Bool) (h : (drv.rxSync m true doLock s).map Prod.snd = some s') :
      NothingKept N drv m s' ∧ ReleasesPassed N s s' := by
    obtain ⟨s'', heq, hs'', hrel⟩ := hs.rxSync doLock
    rw [heq] at h
    obtain rfl : s'' = s' := Option.some.inj h
    exact ⟨hs'', hrel⟩
  cases e with
  | enter c =>
    obtain rfl : s = s' := Option.some.inj he
    exact ⟨hs, .of_given rfl⟩
  | body c => exact hcall true (sharedQueue_fresh.symm.trans he)
  | act e =>
    cases e with
    | poll carrier =>
      cases carrier with
      | true => exact hcall false he
      | false =>
        obtain rfl : s = s' := by
          change (drv.rxSync m false false s).map Prod.snd = some s' at he
          rw [rxSync_eq] at he
          exact Option.some.inj he
        exact ⟨hs, .of_given rfl⟩
    | complete d =>
      change (if _ then _ else _) = _ at he
      split_ifs at he with hd
      obtain rfl := Option.some.inj he
      exact ⟨⟨hs.1.step (.complete s d hd.1 hd.2), hs.2⟩, .of_given rfl⟩
    | consume count =>
      change (if _ then _ else _) = _ at he
      split_ifs at he with hcount
      obtain rfl := Option.some.inj he
      exact ⟨⟨hs.1.step (.consume s count 0 hcount (Nat.zero_le _)), rfl⟩, .of_given rfl⟩

/-- A call with an index that is no longer `cur` leaves a queue out of order. -/
theorem NothingKept.stale (hs : NothingKept N drv m s) (hu : u < N) (hne : u ≠ s.ring.cur)
    (heq : (s.rxSyncBody drv.bits m true true u 0).map Prod.snd = some s') :
    ¬NothingKept N drv m s' := by
  obtain ⟨⟨o, a, h, hc, _⟩, _⟩ := hs
  obtain ⟨s₁, s'', hbody, hv, hr⟩ := hc.call hu true
  rw [hbody] at heq
  obtain rfl : s'' = s' := Option.some.inj heq
  rintro ⟨⟨o', a', h', hc', hu'⟩, hres'⟩
  have hb := hc.bound
  have hroom := hc.room
  have hroom' := hc'.room
  have hwavail' := hc'.hwavail
  have hav : s''.ring.avail = a' := by
    rw [hr.avail, checkedResvd_zero, ← hr.hwavail, hwavail', Nat.cast_zero, sub_zero,
      u32_natCast (by omega)]
  refine hne ?_
  calc u = pos N s₁.kring.nrHwcur (ahead N s.kring.nrHwcur u) := by
        rw [hv.hwcur, pos_ahead hc.hwcur_lt hu]
    _ = s''.kring.nrHwcur := hr.hwcur.symm
    _ = s''.ring.cur := by rw [hu'.cur, hav, Nat.sub_self, pos_zero hc'.hwcur_lt]
    _ = s.ring.cur := by rw [hr.cur, hv.ring]

theorem NothingKept.fresh (hs : NothingKept N drv m s) {es : List (Event Act)}
    {t : Shared RxQueue (ℕ × ℕ)} (hst : Throughout (sharedQueue drv m).exec (sharedQueue drv m).Fresh es (start s))
    (hr : run (sharedQueue drv m).exec es (start s) = some t) :
    NothingKept N drv m t.object ∧ ∀ c w, t.entered c = some w → w.1 < N ∧ w.2 = 0 :=
  fresh_preserves (Q := fun w ↦ w.1 < N ∧ w.2 = 0) (fun _ _ _ hs he ↦ (hs.serial he).1)
    (fun _ hs ↦ ⟨hs.cur_lt, hs.2⟩) hst hs (fun c w hw ↦ by cases hw) hr

theorem NothingKept.inSeries (hs : NothingKept N drv m s) {es : List (Event Act)}
    {t : Shared RxQueue (ℕ × ℕ)} (hst : Throughout (sharedQueue drv m).exec (sharedQueue drv m).Fresh es (start s))
    (hr : run (sharedQueue drv m).exec es (start s) = some t) : InSeries N drv m s es t := by
  obtain ⟨ht, hent⟩ := hs.fresh hst hr
  refine ⟨ht.hwavail, fresh_serialisable hst hr, ?_, ?_⟩
  · intro carrier
    cases carrier with
    | true =>
      obtain ⟨s', heq, _⟩ := ht.rxSync false
      refine ⟨{ t with object := s' }, ?_⟩
      change ((drv.rxSync m true false t.object).map Prod.snd).map _ = _
      rw [heq]
      rfl
    | false =>
      refine ⟨t, ?_⟩
      change ((drv.rxSync m false false t.object).map Prod.snd).map _ = _
      rw [rxSync_eq]
      rfl
  · intro c hc
    obtain ⟨w, hw⟩ := Option.isSome_iff_exists.1 hc
    obtain ⟨hlt, hzero⟩ := hent c w hw
    obtain ⟨⟨o, a, h, hcore, _⟩, _⟩ := ht
    obtain ⟨s₁, s', hbody, _⟩ := hcore.call hlt true
    refine ⟨⟨s', update t.entered c none⟩, ?_⟩
    change (t.entered c).bind _ = _
    rw [hw, Option.bind_some]
    change ((t.object.rxSyncBody drv.bits m true true w.1 w.2).map Prod.snd).map _ = _
    rw [hzero, hbody]
    rfl

/-- The calls on a queue are as good as serial ones exactly if none of them does its work after
`cur` has moved away from what it read on entry. -/
theorem rx_sync_serial_iff {es : List (Event Act)} {t : Shared RxQueue (ℕ × ℕ)}
    (h₀ : Registered N m s₀) (hr : ReflTransGen (Step drv m) (drv.reset m s₀) s)
    (hres : s.ring.reserved = 0) (hrun : run (sharedQueue drv m).exec es (start s) = some t) :
    SerialCalls N drv m s es ↔ Throughout (sharedQueue drv m).exec (sharedQueue drv m).Fresh es (start s) := by
  have hs : NothingKept N drv m s := ⟨h₀.ordered.run hr, hres⟩
  refine ⟨?_, ?_⟩
  · intro hser
    by_contra hst
    obtain ⟨es₁, c, es₂, t₁, w, rfl, hst₁, hrun₁, hw, hne⟩ := exists_stale hst hrun
    obtain ⟨ht₁, hent⟩ := hs.fresh hst₁ hrun₁
    obtain ⟨hlt, hzero⟩ := hent c w hw
    have hcur : w.1 ≠ t₁.object.ring.cur := by
      intro heq
      exact hne (Prod.ext heq (hzero.trans ht₁.2.symm))
    obtain ⟨t₂, hexec⟩ := (hser.states es₁ _ t₁ rfl hrun₁).body c (by rw [hw]; rfl)
    have hrun₂ := (run_snoc hrun₁).trans hexec
    obtain ⟨es', _, hserial⟩ :=
      (hser.states (es₁ ++ [.body c]) es₂ t₂ (by simp) hrun₂).serialisable
    have ht₂ : NothingKept N drv m t₂.object :=
      run_preserves (fun _ _ _ hs he ↦ (hs.serial he).1) hs hserial
    obtain ⟨_, h, _⟩ | ⟨d, w', s', hd, hw', hbody, rfl⟩ | ⟨_, _, h, _⟩ := exec_cases hexec
    · cases h
    · cases hd
      obtain rfl : w = w' := Option.some.inj (hw.symm.trans hw')
      change (t₁.object.rxSyncBody drv.bits m true true w.1 w.2).map Prod.snd = some s' at hbody
      rw [hzero] at hbody
      exact ht₁.stale hlt hcur hbody ht₂
    · cases h
  · intro hst
    refine ⟨?_, ?_⟩
    · rintro es₁ es₂ t₁ rfl hrun₁
      exact hs.inSeries hst.left hrun₁
    · rintro es₁ e es₂ t₁ t₂ rfl hrun₁ hexec
      have ht₁ := (hs.fresh hst.left hrun₁).1
      exact (ht₁.serial ((hst.next hrun₁).serial hexec)).2

/-- A call that reads `cur` before the consumer takes three packets, and does its work after a
poll has given their slots back. -/
def overtaken : List (Event Act) :=
  [.act (.complete ⟨0, 1, 60, 0⟩), .act (.complete ⟨0, 1, 60, 0⟩), .act (.complete ⟨0, 1, 60, 0⟩),
    .act (.poll true), .enter 0, .act (.consume 3), .act (.poll true), .body 0]

theorem overtaken_end :
    (run (sharedQueue .igb eightBuffers).exec overtaken
      (start (Intel.igb.reset eightBuffers fourSlots))).map
        (fun t ↦ (t.object.kring.nrHwcur, t.object.kring.nrHwavail, t.object.nic.given)) =
      some (0, -1, [0, 1, 2, 3]) := by
  decide +kernel

theorem rx_sync_serial_iff_overtaken : ∃ t,
    run (sharedQueue .igb eightBuffers).exec overtaken
      (start (Intel.igb.reset eightBuffers fourSlots)) = some t ∧
    (SerialCalls 4 .igb eightBuffers (Intel.igb.reset eightBuffers fourSlots) overtaken ↔
      Throughout (sharedQueue .igb eightBuffers).exec (sharedQueue .igb eightBuffers).Fresh
        overtaken (start (Intel.igb.reset eightBuffers fourSlots))) := by
  obtain ⟨t, ht, _⟩ := Option.map_eq_some_iff.1 overtaken_end
  refine ⟨t, ht, rx_sync_serial_iff fourSlots_registered .refl ?_ ht⟩
  decide +kernel

/-- The overtaken call gives slot 3 back, which holds no packet, and leaves `nr_hwavail` at
-1. -/
theorem rx_sync_overtaken : ∃ t,
    run (sharedQueue .igb eightBuffers).exec overtaken
      (start (Intel.igb.reset eightBuffers fourSlots)) = some t ∧
    t.object.kring.nrHwavail = -1 ∧ t.object.nic.given = [0, 1, 2, 3] ∧
    ¬SerialCalls 4 .igb eightBuffers (Intel.igb.reset eightBuffers fourSlots) overtaken := by
  obtain ⟨t, ht, hend⟩ := Option.map_eq_some_iff.1 overtaken_end
  simp only [Prod.mk.injEq] at hend
  obtain ⟨_, hwavail, hgiven⟩ := hend
  refine ⟨t, ht, hwavail, hgiven, ?_⟩
  intro hser
  have hbounds := (hser.states overtaken [] t (List.append_nil _).symm ht).hwavail
  rw [hwavail] at hbounds
  omega

end Dpa.Driver
