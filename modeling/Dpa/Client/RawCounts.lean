import Dpa.Client.RawStats
import Dpa.Driver.IntelCounters

namespace Dpa.Client

open Dpa.Driver Kernel MachineWord Relation

variable {β : Type} {n : ℕ} {nic : NicStats} {dev : StatsDevice} {dpaInfo : RawDpa}
  {opCode queueId : BitVec 32} {stats s : DpaStats}

def requested (n : ℕ) (queueId : BitVec 32) : List ℕ :=
  if isSet queueId dpaQueueFlagAll then List.range n else [(queueId &&& dpaRingIdMask).toNat]

theorem ioctl_of_ok {ioctl : DpaRxStats → Option DpaRxStats}
    (hok : rawGetRxStats ioctl dpaInfo opCode queueId stats = (.ok, s)) :
    ∃ r, ioctl (request opCode queueId) = some r ∧ reply r = s := by
  unfold rawGetRxStats at hok
  by_cases hfd : dpaInfo.fd = -1
  · rw [if_pos hfd] at hok
    cases congrArg Prod.fst hok
  rw [if_neg hfd] at hok
  by_cases hid : queueId &&& (if dpaRingIdMask ≥ dpaInfo.numQueues then 1 else 0) ≠ 0
  · rw [if_pos hid] at hok
    cases congrArg Prod.fst hok
  rw [if_neg hid] at hok
  cases hio : ioctl (request opCode queueId) with
  | none =>
    rw [hio] at hok
    cases congrArg Prod.fst hok
  | some r =>
    rw [hio] at hok
    exact ⟨r, rfl, congrArg Prod.snd hok⟩

theorem queueRange_requested {rxStats : DpaRxStats} {qbegin qend : ℕ}
    (hrange : queueRange dev rxStats = some (qbegin, qend)) :
    List.range' qbegin (qend - qbegin) = requested dev.numRxRings rxStats.queueId ∧
      ∀ i ∈ requested dev.numRxRings rxStats.queueId, i < dev.numRxRings := by
  unfold queueRange at hrange
  unfold requested
  by_cases hall : isSet rxStats.queueId dpaQueueFlagAll = true
  · rw [if_pos hall, Option.some.injEq, Prod.mk.injEq] at hrange
    obtain ⟨rfl, rfl⟩ := hrange
    rw [if_pos hall, Nat.sub_zero, ← List.range_eq_range']
    exact ⟨rfl, fun i hi ↦ List.mem_range.1 hi⟩
  · rw [if_neg hall] at hrange
    rw [if_neg hall]
    dsimp only at hrange
    split_ifs at hrange with hop hge
    · rw [Option.some.injEq, Prod.mk.injEq] at hrange
      obtain ⟨rfl, rfl⟩ := hrange
      rw [Nat.add_sub_cancel_left, List.range'_one]
      refine ⟨rfl, ?_⟩
      intro i hi
      rw [List.mem_singleton.1 hi]
      omega

theorem answer_of_some {rxStats r : DpaRxStats} (hr : nic.getRxStats dev rxStats = some r) :
    (∀ i ∈ requested dev.numRxRings rxStats.queueId, i < dev.numRxRings) ∧
      r.packets = (if isSet rxStats.opCode dpaRxStatsOpPackets then rxStats.packets +
        ((requested dev.numRxRings rxStats.queueId).map fun i ↦ (dev.rxRings i).totalPackets).sum
        else rxStats.packets) ∧
      r.bytes = (if isSet rxStats.opCode dpaRxStatsOpBytes then rxStats.bytes +
        ((requested dev.numRxRings rxStats.queueId).map fun i ↦ (dev.rxRings i).totalBytes).sum
        else rxStats.bytes) := by
  obtain ⟨dropped, erroneous, heq⟩ := nic.getRxStats_eq
  have hr' := hr
  rw [heq, getRxStats] at hr'
  cases hrange : queueRange dev rxStats with
  | none =>
    rw [hrange] at hr'
    cases hr'
  | some range =>
    obtain ⟨qbegin, qend⟩ := range
    cases hcarrier : dev.carrierOk with
    | false =>
      simp only [hrange, hcarrier, bind, Option.bind, Bool.false_eq_true, if_false] at hr'
      cases hr'
    | true =>
      obtain ⟨r', hr', -, hp, hb⟩ := nic.getRxStats_of_range hcarrier hrange
      cases hr.symm.trans hr'
      obtain ⟨hlist, hlt⟩ := queueRange_requested hrange
      rw [hlist] at hp hb
      exact ⟨hlt, hp, hb⟩

theorem ofNat_u64 (x : ℕ) : UInt64.ofNat (u64 (x : ℤ)) = UInt64.ofNat x := by
  have hx : u64 (x : ℤ) = x % 2 ^ 64 := by
    unfold u64
    omega
  rw [hx]
  exact UInt64.ofNat_mod_size

theorem sum_ofNat (l : List ℕ) (f : ℕ → ℕ) :
    (l.map fun i ↦ UInt64.ofNat (f i)).sum = UInt64.ofNat (l.map f).sum := by
  induction l with
  | nil => rfl
  | cons i l ih => rw [List.map_cons, List.sum_cons, ih, List.map_cons, List.sum_cons, UInt64.ofNat_add]

/-- An Intel device of `n` queues as the loop of a request reads it: the packets of queue `i` when the
queue is in the state `packets i`, its bytes when it is in the state `bytes i`. -/
def statsDevice (n : ℕ) (packets bytes : ℕ → Traffic β) (carrierOk enabled : Bool) (now : ℕ) :
    StatsDevice where
  numRxRings := n
  rxRings i := ⟨UInt64.ofNat (packets i).queue.kring.totalPackets,
    UInt64.ofNat (bytes i).queue.kring.totalBytes⟩
  carrierOk := carrierOk
  enabled := enabled
  now := now

/-- The runs of the queues of a device up to the states in which a request reads them. -/
structure Reads (n : ℕ) (slots : ℕ → ℕ) (drv : Intel) (m : DpaModule) (packets bytes : ℕ → Traffic β) :
    Prop where
  run : ∀ i < n, ∃ s₀ mem filled, Fresh (slots i) m s₀ ∧
    ReflTransGen (Traffic.LeaseStep (slots i) drv m) ((Traffic.start s₀ mem filled).reset drv m)
      (packets i)
  goesOn : ∀ i < n, ReflTransGen (Traffic.LeaseStep (slots i) drv m) (packets i) (bytes i)

section

variable {slots : ℕ → ℕ} {drv : Intel} {m : DpaModule} {packets bytes : ℕ → Traffic β}

theorem Reads.counted (hreads : Reads n slots drv m packets bytes) {i : ℕ} (hi : i < n) :
    (packets i).queue.kring.totalPackets = u64 (packets i).harvested.length ∧
      (bytes i).queue.kring.totalBytes = u64 ((bytes i).harvested.map Frame.len).sum := by
  obtain ⟨s₀, mem, filled, hf, hr⟩ := hreads.run i hi
  exact ⟨(hf.counted mem filled hr).2.packets,
    (hf.counted mem filled (hr.trans (hreads.goesOn i hi))).2.bytes⟩

/-- What the library reports are the packets, and their bytes, that the queues had taken from the
hardware when their counters were read. -/
theorem reports_harvested (hreads : Reads n slots drv m packets bytes) {carrierOk enabled : Bool}
    {now : ℕ} (hok : rawGetRxStats (dpaIoctlGetRxStats nic
      (statsDevice n packets bytes carrierOk enabled now)) dpaInfo opCode queueId stats = (.ok, s)) :
    (∀ i ∈ requested n queueId, i < n) ∧
      s.packets = (if isSet opCode dpaRxStatsOpPackets then
        UInt64.ofNat ((requested n queueId).map fun i ↦ (packets i).harvested.length).sum else 0) ∧
      s.bytes = if isSet opCode dpaRxStatsOpBytes then
        UInt64.ofNat ((requested n queueId).map fun i ↦ ((bytes i).harvested.map Frame.len).sum).sum
        else 0 := by
  obtain ⟨r, hr, rfl⟩ := ioctl_of_ok hok
  obtain ⟨hlt, hp, hb⟩ := answer_of_some hr
  refine ⟨hlt, hp.trans ?_, hb.trans ?_⟩
  · rw [← sum_ofNat]
    refine if_congr Iff.rfl ((UInt64.zero_add _).trans (congrArg List.sum ?_)) rfl
    apply List.map_congr_left
    intro i hi
    exact (congrArg UInt64.ofNat (hreads.counted (hlt i hi)).1).trans (ofNat_u64 _)
  · rw [← sum_ofNat]
    refine if_congr Iff.rfl ((UInt64.zero_add _).trans (congrArg List.sum ?_)) rfl
    apply List.map_congr_left
    intro i hi
    exact (congrArg UInt64.ofNat (hreads.counted (hlt i hi)).2).trans (ofNat_u64 _)

end

theorem fourSlots_fresh : Fresh 4 eightBuffers fourSlots where
  toRegistered := fourSlots_registered
  toOwnBuffers := fourSlots_ownBuffers
  small := by decide
  numSlots := rfl
  packets := rfl
  bytes := rfl

theorem reports_harvested_fourSlots : ∃ s,
    rawGetRxStats (dpaIoctlGetRxStats (.igb ⟨3, 4⟩) (statsDevice 1 (fun _ ↦ fourSlotsKept)
      (fun _ ↦ fourSlotsKept) true true 7)) ⟨5, 1⟩ (dpaRxStatsOpPackets ||| dpaRxStatsOpBytes)
      dpaQueueFlagAll ⟨false, 0, 0, 0, 0, 0⟩ = (.ok, s) ∧
    s.packets = 1 ∧ s.bytes = 60 := by
  have hreads : Reads 1 (fun _ ↦ 4) .igb eightBuffers (fun _ ↦ fourSlotsKept)
      (fun _ ↦ fourSlotsKept) :=
    ⟨fun _ _ ↦ ⟨fourSlots, fun _ ↦ 0, fun _ ↦ 0, fourSlots_fresh, fourSlots_kept⟩, fun _ _ ↦ .refl⟩
  obtain ⟨s, hs⟩ : ∃ s, rawGetRxStats (dpaIoctlGetRxStats (.igb ⟨3, 4⟩)
      (statsDevice 1 (fun _ ↦ fourSlotsKept) (fun _ ↦ fourSlotsKept) true true 7)) ⟨5, 1⟩
        (dpaRxStatsOpPackets ||| dpaRxStatsOpBytes) dpaQueueFlagAll ⟨false, 0, 0, 0, 0, 0⟩ =
          (.ok, s) := ⟨_, rfl⟩
  obtain ⟨-, hp, hb⟩ := reports_harvested hreads hs
  exact ⟨s, hs, hp.trans (by decide +kernel), hb.trans (by decide +kernel)⟩

end Dpa.Client
