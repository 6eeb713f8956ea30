import Dpa.Driver.RxStats
import Mathlib.Data.Nat.Bitwise

namespace Dpa.Client

open Dpa.Driver

structure DpaStats where
  enabled : Bool
  packets : UInt64
  bytes : UInt64
  drops : UInt64
  errors : UInt64
  ts : ℕ

inductive DpaError
  | ok
  | notSupport
  | badMode
  | badQueueId
  | badArgument
  | badFileDesc
  | badMmapAddr
  | badFileContent
  | getStatsFail
  deriving DecidableEq

/-- What `raw_get_rx_stats` reads of `dpa_t`, whose name is that of the device. -/
structure RawDpa where
  fd : ℤ
  numQueues : BitVec 32

def request (opCode queueId : BitVec 32) : DpaRxStats := ⟨queueId, opCode, false, 0, 0, 0, 0, 0⟩

def reply (s : DpaRxStats) : DpaStats := ⟨s.enabled, s.packets, s.bytes, s.drops, s.errors, s.ts⟩

def rawGetRxStats (ioctl : DpaRxStats → Option DpaRxStats) (dpaInfo : RawDpa)
    (opCode queueId : BitVec 32) (stats : DpaStats) : DpaError × DpaStats :=
  if dpaInfo.fd = -1 then (.badFileDesc, stats)
  -- `>=` binds more tightly than `&`, so the number of the queue is masked with 0 or 1
  else if queueId &&& (if dpaRingIdMask ≥ dpaInfo.numQueues then 1 else 0) ≠ 0 then
    (.badQueueId, stats)
  else
    match ioctl (request opCode queueId) with
    | none => (.getStatsFail, stats)
    | some s => (.ok, reply s)

variable {nic : NicStats} {dev : StatsDevice} {opCode queueId : BitVec 32} {stats : DpaStats}
  {fd : ℤ} {i n : ℕ}

/-- The library and the driver of a device agree on a request. -/
structure Agrees (nic : NicStats) (dev : StatsDevice) (fd : ℤ) (opCode queueId : BitVec 32)
    (stats : DpaStats) : Prop where
  rejects : (rawGetRxStats (dpaIoctlGetRxStats nic dev) ⟨fd, BitVec.ofNat 32 dev.numRxRings⟩ opCode
      queueId stats).1 = .badQueueId ↔ OutOfRange dev.numRxRings queueId
  reaches : ¬OutOfRange dev.numRxRings queueId →
    rawGetRxStats (dpaIoctlGetRxStats nic dev) ⟨fd, BitVec.ofNat 32 dev.numRxRings⟩ opCode queueId
        stats =
      match dpaIoctlGetRxStats nic dev (request opCode queueId) with
      | none => (.getStatsFail, stats)
      | some s => (.ok, reply s)
  accepts : ¬OutOfRange dev.numRxRings queueId →
    ((dpaIoctlGetRxStats nic dev (request opCode queueId)).isSome = true ↔
      isSet queueId dpaQueueFlagAll = true ∨ perQueue opCode = true)
  sums : ∀ s, isSet queueId dpaQueueFlagAll = true →
    rawGetRxStats (dpaIoctlGetRxStats nic dev) ⟨fd, BitVec.ofNat 32 dev.numRxRings⟩ opCode queueId
      stats = (.ok, s) →
    ∃ answer : ℕ → DpaRxStats,
      (∀ i < dev.numRxRings, dpaIoctlGetRxStats nic dev
        (request (opCode &&& (dpaRxStatsOpPackets ||| dpaRxStatsOpBytes)) (BitVec.ofNat 32 i)) =
          some (answer i)) ∧
      s.packets = ((List.range dev.numRxRings).map fun i ↦ (answer i).packets).sum ∧
      s.bytes = ((List.range dev.numRxRings).map fun i ↦ (answer i).bytes).sum

theorem rejected_iff (hn : n ≤ 0xfff) :
    queueId &&& (if dpaRingIdMask ≥ BitVec.ofNat 32 n then 1 else 0) ≠ 0 ↔
      queueId.toNat % 2 = 1 := by
  have hle : dpaRingIdMask ≥ BitVec.ofNat 32 n := by
    show (BitVec.ofNat 32 n).toNat ≤ dpaRingIdMask.toNat
    rw [BitVec.toNat_ofNat, Nat.mod_eq_of_lt (by omega)]
    exact hn
  rw [if_pos hle, ne_eq, ← BitVec.toNat_inj, BitVec.toNat_and]
  show ¬queueId.toNat &&& 1 = 0 ↔ _
  rw [Nat.and_one_is_mod]
  omega

theorem rawGetRxStats_eq (ioctl : DpaRxStats → Option DpaRxStats) (hfd : fd ≠ -1)
    (hn : n ≤ 0xfff) :
    rawGetRxStats ioctl ⟨fd, BitVec.ofNat 32 n⟩ opCode queueId stats =
      if queueId.toNat % 2 = 1 then (.badQueueId, stats)
      else
        match ioctl (request opCode queueId) with
        | none => (.getStatsFail, stats)
        | some s => (.ok, reply s) := by
  rw [rawGetRxStats, if_neg hfd]
  exact if_congr (rejected_iff hn) rfl rfl

theorem queue_number (hi : i < 0x1000) : isSet (BitVec.ofNat 32 i) dpaQueueFlagAll = false ∧
    (BitVec.ofNat 32 i &&& dpaRingIdMask).toNat = i := by
  have hand : i &&& 2 ^ 12 - 1 = i := by
    rw [Nat.and_two_pow_sub_one_eq_mod]
    exact Nat.mod_eq_of_lt hi
  have hflag : i &&& 2 ^ 12 = 0 := by
    rw [Nat.and_two_pow, Nat.testBit_lt_two_pow hi]
    simp
  constructor
  · rw [isSet, bne_eq_false_iff_eq, ← BitVec.toNat_inj, BitVec.toNat_and, BitVec.toNat_ofNat,
      Nat.mod_eq_of_lt (by omega)]
    exact hflag
  · rw [BitVec.toNat_and, BitVec.toNat_ofNat, Nat.mod_eq_of_lt (by omega)]
    exact hand

theorem queueRange_ofNat (rxStats : DpaRxStats) (hi : i < dev.numRxRings)
    (hn : dev.numRxRings ≤ 0xfff) (hid : rxStats.queueId = BitVec.ofNat 32 i)
    (hop : perQueue rxStats.opCode = true) : queueRange dev rxStats = some (i, i + 1) := by
  obtain ⟨hall, hmask⟩ := queue_number (by omega : i < 0x1000)
  rw [perQueue, Bool.and_eq_true, Bool.not_eq_true', Bool.not_eq_true'] at hop
  rw [queueRange, hid, hall, hmask, hop.1, hop.2]
  simp [hi]

theorem isSet_and (opCode mask flag : BitVec 32) :
    isSet (opCode &&& mask) flag = isSet opCode (mask &&& flag) := by
  rw [isSet, isSet, BitVec.and_assoc]

theorem answer_of_queue (nic : NicStats) (hcarrier : dev.carrierOk = true)
    (hn : dev.numRxRings ≤ 0xfff) (opCode : BitVec 32) (hi : i < dev.numRxRings) :
    ∃ s, dpaIoctlGetRxStats nic dev
        (request (opCode &&& (dpaRxStatsOpPackets ||| dpaRxStatsOpBytes)) (BitVec.ofNat 32 i)) =
          some s ∧
      s.packets = (if isSet opCode dpaRxStatsOpPackets then (dev.rxRings i).totalPackets else 0) ∧
      s.bytes = if isSet opCode dpaRxStatsOpBytes then (dev.rxRings i).totalBytes else 0 := by
  have hdrops : isSet (opCode &&& (dpaRxStatsOpPackets ||| dpaRxStatsOpBytes)) dpaRxStatsOpDrops =
      false := by
    rw [isSet_and]
    simp [isSet, dpaRxStatsOpPackets, dpaRxStatsOpBytes, dpaRxStatsOpDrops]
  have herrors : isSet (opCode &&& (dpaRxStatsOpPackets ||| dpaRxStatsOpBytes))
      dpaRxStatsOpErrors = false := by
    rw [isSet_and]
    simp [isSet, dpaRxStatsOpPackets, dpaRxStatsOpBytes, dpaRxStatsOpErrors]
  have hop : perQueue (opCode &&& (dpaRxStatsOpPackets ||| dpaRxStatsOpBytes)) = true := by
    rw [perQueue, hdrops, herrors]
    rfl
  obtain ⟨s, hs, -, hpackets, hbytes⟩ := nic.getRxStats_of_range hcarrier
    (queueRange_ofNat { request (opCode &&& (dpaRxStatsOpPackets ||| dpaRxStatsOpBytes))
      (BitVec.ofNat 32 i) with enabled := dev.enabled } hi hn rfl hop)
  have hmask : isSet (opCode &&& (dpaRxStatsOpPackets ||| dpaRxStatsOpBytes))
      dpaRxStatsOpPackets = isSet opCode dpaRxStatsOpPackets := by
    rw [isSet_and]
    rfl
  have hmask' : isSet (opCode &&& (dpaRxStatsOpPackets ||| dpaRxStatsOpBytes))
      dpaRxStatsOpBytes = isSet opCode dpaRxStatsOpBytes := by
    rw [isSet_and]
    rfl
  refine ⟨s, hs, hpackets.trans ?_, hbytes.trans ?_⟩
  · simp only [request, hmask, Nat.add_sub_cancel_left, List.range'_one, List.map_cons,
      List.map_nil, List.sum_cons, List.sum_nil, UInt64.add_zero, UInt64.zero_add]
  · simp only [request, hmask', Nat.add_sub_cancel_left, List.range'_one, List.map_cons,
      List.map_nil, List.sum_cons, List.sum_nil, UInt64.add_zero, UInt64.zero_add]

theorem sum_ite (c : Bool) (f : ℕ → UInt64) (l : List ℕ) :
    (l.map fun i ↦ if c then f i else 0).sum = if c then (l.map f).sum else 0 := by
  cases c with
  | true => rfl
  | false =>
    induction l with
    | nil => rfl
    | cons i l ih =>
      rw [List.map_cons, List.sum_cons, ih]
      rfl

/-- The answer for all queues is the sum of the answers for each. -/
theorem answer_of_all (nic : NicStats) (opCode : BitVec 32) (hcarrier : dev.carrierOk = true)
    (hn : dev.numRxRings ≤ 0xfff) (hall : isSet queueId dpaQueueFlagAll = true) :
    ∃ (s : DpaRxStats) (answer : ℕ → DpaRxStats),
      dpaIoctlGetRxStats nic dev (request opCode queueId) = some s ∧
      (∀ i < dev.numRxRings, dpaIoctlGetRxStats nic dev
        (request (opCode &&& (dpaRxStatsOpPackets ||| dpaRxStatsOpBytes)) (BitVec.ofNat 32 i)) =
          some (answer i)) ∧
      s.packets = ((List.range dev.numRxRings).map fun i ↦ (answer i).packets).sum ∧
      s.bytes = ((List.range dev.numRxRings).map fun i ↦ (answer i).bytes).sum := by
  have hqueue := fun i (hi : i < dev.numRxRings) ↦ answer_of_queue nic hcarrier hn opCode hi
  choose! answer hanswer hpackets hbytes using hqueue
  have hrange : queueRange dev { request opCode queueId with enabled := dev.enabled } =
      some (0, dev.numRxRings) := by
    rw [queueRange]
    exact if_pos hall
  obtain ⟨s, hs, -, hp, hb⟩ := nic.getRxStats_of_range hcarrier hrange
  refine ⟨s, answer, hs, hanswer, hp.trans ?_, hb.trans ?_⟩
  · have hmap : (List.range dev.numRxRings).map (fun i ↦ (answer i).packets) =
        (List.range dev.numRxRings).map fun i ↦
          if isSet opCode dpaRxStatsOpPackets then (dev.rxRings i).totalPackets else 0 :=
      List.map_congr_left fun i hi ↦ hpackets i (List.mem_range.1 hi)
    rw [hmap, sum_ite, Nat.sub_zero, ← List.range_eq_range']
    simp [request]
  · have hmap : (List.range dev.numRxRings).map (fun i ↦ (answer i).bytes) =
        (List.range dev.numRxRings).map fun i ↦
          if isSet opCode dpaRxStatsOpBytes then (dev.rxRings i).totalBytes else 0 :=
      List.map_congr_left fun i hi ↦ hbytes i (List.mem_range.1 hi)
    rw [hmap, sum_ite, Nat.sub_zero, ← List.range_eq_range']
    simp [request]

theorem not_outOfRange_of_all (hall : isSet queueId dpaQueueFlagAll = true) :
    ¬OutOfRange n queueId := by
  rintro ⟨hnone, -⟩
  rw [hall] at hnone
  cases hnone

/-- The library and the drivers agree on the requests whose number is odd exactly where the device
does not have the queue. -/
theorem agrees_iff (hcarrier : dev.carrierOk = true) (hn : dev.numRxRings ≤ 0xfff)
    (hfd : fd ≠ -1) :
    Agrees nic dev fd opCode queueId stats ↔
      (queueId.toNat % 2 = 1 ↔ OutOfRange dev.numRxRings queueId) := by
  have hrejects : (rawGetRxStats (dpaIoctlGetRxStats nic dev)
      ⟨fd, BitVec.ofNat 32 dev.numRxRings⟩ opCode queueId stats).1 = .badQueueId ↔
        queueId.toNat % 2 = 1 := by
    rw [rawGetRxStats_eq _ hfd hn]
    by_cases hodd : queueId.toNat % 2 = 1
    · rw [if_pos hodd]
      exact iff_of_true rfl hodd
    · rw [if_neg hodd]
      refine iff_of_false ?_ hodd
      cases dpaIoctlGetRxStats nic dev (request opCode queueId) with
      | none => exact fun h ↦ by cases h
      | some s => exact fun h ↦ by cases h
  constructor
  · exact fun h ↦ hrejects.symm.trans h.rejects
  · intro hiff
    have hreaches : ¬OutOfRange dev.numRxRings queueId →
        rawGetRxStats (dpaIoctlGetRxStats nic dev) ⟨fd, BitVec.ofNat 32 dev.numRxRings⟩ opCode
            queueId stats =
          match dpaIoctlGetRxStats nic dev (request opCode queueId) with
          | none => (.getStatsFail, stats)
          | some s => (.ok, reply s) := by
      intro hin
      rw [rawGetRxStats_eq _ hfd hn, if_neg fun hodd ↦ hin (hiff.1 hodd)]
    constructor
    case rejects => exact hrejects.trans hiff
    case reaches => exact hreaches
    case accepts => exact fun hin ↦ nic.accepts hcarrier hin
    case sums =>
      intro s hall hok
      obtain ⟨s', answer, hs', hanswer, hpackets, hbytes⟩ :=
        answer_of_all nic opCode hcarrier hn hall
      rw [hreaches (not_outOfRange_of_all hall), hs'] at hok
      obtain rfl : reply s' = s := congrArg Prod.snd hok
      exact ⟨answer, hanswer, hpackets, hbytes⟩

def twoQueues : StatsDevice := ⟨2, fun i ↦ ⟨10 + i.toUInt64, 640⟩, true, true, 7⟩

theorem agrees_iff_all :
    Agrees (.igb ⟨3, 4⟩) twoQueues 5 (dpaRxStatsOpPackets ||| dpaRxStatsOpDrops) dpaQueueFlagAll
      ⟨false, 0, 0, 0, 0, 0⟩ :=
  (agrees_iff rfl (by decide) (by decide)).2
    (iff_of_false (by decide) fun h ↦ nomatch h.1)

/-- The library rejects the second queue. -/
theorem secondQueue_not_agrees :
    ¬∀ (nic : NicStats) (dev : StatsDevice) (fd : ℤ) (opCode queueId : BitVec 32)
      (stats : DpaStats), dev.carrierOk = true → 1 ≤ dev.numRxRings → dev.numRxRings ≤ 0xfff →
        fd ≠ -1 → Agrees nic dev fd opCode queueId stats := by
  intro hall
  have hagrees := hall (.igb ⟨3, 4⟩) twoQueues 5 dpaRxStatsOpPackets 1 ⟨false, 0, 0, 0, 0, 0⟩ rfl
    (by decide) (by decide) (by decide)
  have hrejected : (rawGetRxStats (dpaIoctlGetRxStats (.igb ⟨3, 4⟩) twoQueues)
      ⟨5, BitVec.ofNat 32 2⟩ dpaRxStatsOpPackets 1 ⟨false, 0, 0, 0, 0, 0⟩).1 = .badQueueId := by
    decide
  have hout := (hagrees.rejects.1 hrejected).2
  exact absurd hout (by decide)

end Dpa.Client
