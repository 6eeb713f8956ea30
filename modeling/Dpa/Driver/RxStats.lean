import Mathlib.Data.UInt
import Mathlib.Tactic

namespace Dpa.Driver

def dpaRingIdMask : BitVec 32 := 0xfff
def dpaQueueFlagAll : BitVec 32 := 0x1000

def dpaRxStatsOpPackets : BitVec 32 := 1
def dpaRxStatsOpBytes : BitVec 32 := 2
def dpaRxStatsOpDrops : BitVec 32 := 4
def dpaRxStatsOpErrors : BitVec 32 := 8

structure DpaRxStats where
  queueId : BitVec 32
  opCode : BitVec 32
  enabled : Bool
  packets : UInt64
  bytes : UInt64
  drops : UInt64
  errors : UInt64
  ts : ℕ
  deriving Inhabited

def isSet (x flag : BitVec 32) : Bool := x &&& flag != 0

structure RxTotals where
  totalPackets : UInt64
  totalBytes : UInt64

structure StatsDevice where
  numRxRings : ℕ
  rxRings : ℕ → RxTotals
  carrierOk : Bool
  enabled : Bool
  now : ℕ

def addTotals (dev : StatsDevice) (rxStats : DpaRxStats) (i : ℕ) : DpaRxStats :=
  { rxStats with
    packets :=
      if isSet rxStats.opCode dpaRxStatsOpPackets then
        rxStats.packets + (dev.rxRings i).totalPackets
      else rxStats.packets
    bytes :=
      if isSet rxStats.opCode dpaRxStatsOpBytes then rxStats.bytes + (dev.rxRings i).totalBytes
      else rxStats.bytes }

/-- The queues that a request is about: the first, and the one behind the last. -/
def queueRange (dev : StatsDevice) (rxStats : DpaRxStats) : Option (ℕ × ℕ) :=
  if isSet rxStats.queueId dpaQueueFlagAll then some (0, dev.numRxRings)
  else if isSet rxStats.opCode dpaRxStatsOpDrops ∨ isSet rxStats.opCode dpaRxStatsOpErrors then
    none
  else
    let queueId := (rxStats.queueId &&& dpaRingIdMask).toNat
    if queueId ≥ dev.numRxRings then none else some (queueId, queueId + 1)

/-- What the three drivers do for a request, with the counters of their hardware. -/
def getRxStats (dropped erroneous : UInt64) (dev : StatsDevice) (rxStats : DpaRxStats) :
    Option DpaRxStats := do
  let (qbegin, qend) ← queueRange dev rxStats
  if dev.carrierOk then
    let rxStats := (List.range' qbegin (qend - qbegin)).foldl (addTotals dev) rxStats
    some
      { rxStats with
        drops := if isSet rxStats.opCode dpaRxStatsOpDrops then dropped else rxStats.drops
        errors := if isSet rxStats.opCode dpaRxStatsOpErrors then erroneous else rxStats.errors
        ts := dev.now }
  else none

structure NetDeviceStats where
  rxMissedErrors : UInt64
  rxErrors : UInt64

def igbDpaGetRxStats (stats : NetDeviceStats) : StatsDevice → DpaRxStats → Option DpaRxStats :=
  getRxStats stats.rxMissedErrors stats.rxErrors

def ixgbeDpaGetRxStats (stats : NetDeviceStats) : StatsDevice → DpaRxStats → Option DpaRxStats :=
  getRxStats stats.rxMissedErrors stats.rxErrors

structure BlockCounter where
  statsBlk : UInt32
  tempStatsBlk : UInt32

def get32BitNetStats (ctr : BlockCounter) : UInt64 := (ctr.statsBlk + ctr.tempStatsBlk).toUInt64

structure Bnx2Stats where
  statIfInFTQDiscards : BlockCounter
  statIfInMBUFDiscards : BlockCounter
  statFwRxDrop : BlockCounter
  statDot3StatsAlignmentErrors : BlockCounter
  statDot3StatsFCSErrors : BlockCounter

def bnx2DpaGetRxStats (stats : Bnx2Stats) : StatsDevice → DpaRxStats → Option DpaRxStats :=
  getRxStats
    (get32BitNetStats stats.statIfInFTQDiscards + get32BitNetStats stats.statIfInMBUFDiscards +
      get32BitNetStats stats.statFwRxDrop)
    (get32BitNetStats stats.statDot3StatsAlignmentErrors +
      get32BitNetStats stats.statDot3StatsFCSErrors)

inductive NicStats
  | igb (stats : NetDeviceStats)
  | ixgbe (stats : NetDeviceStats)
  | bnx2 (stats : Bnx2Stats)

def NicStats.getRxStats : NicStats → StatsDevice → DpaRxStats → Option DpaRxStats
  | igb stats => igbDpaGetRxStats stats
  | ixgbe stats => ixgbeDpaGetRxStats stats
  | bnx2 stats => bnx2DpaGetRxStats stats

def dpaIoctlGetRxStats (nic : NicStats) (dev : StatsDevice) (rxStats : DpaRxStats) :
    Option DpaRxStats :=
  nic.getRxStats dev
    { rxStats with packets := 0, bytes := 0, drops := 0, ts := 0, enabled := dev.enabled }

variable {dev : StatsDevice} {rxStats : DpaRxStats} {n : ℕ}

/-- All three drivers answer alike but for the counters of their hardware. -/
theorem NicStats.getRxStats_eq (nic : NicStats) :
    ∃ dropped erroneous, nic.getRxStats = Driver.getRxStats dropped erroneous := by
  cases nic with
  | igb stats => exact ⟨_, _, rfl⟩
  | ixgbe stats => exact ⟨_, _, rfl⟩
  | bnx2 stats => exact ⟨_, _, rfl⟩

theorem foldl_addTotals (l : List ℕ) (rxStats : DpaRxStats) :
    l.foldl (addTotals dev) rxStats =
      { rxStats with
        packets :=
          if isSet rxStats.opCode dpaRxStatsOpPackets then
            rxStats.packets + (l.map fun i ↦ (dev.rxRings i).totalPackets).sum
          else rxStats.packets
        bytes :=
          if isSet rxStats.opCode dpaRxStatsOpBytes then
            rxStats.bytes + (l.map fun i ↦ (dev.rxRings i).totalBytes).sum
          else rxStats.bytes } := by
  induction l generalizing rxStats with
  | nil => simp
  | cons i l ih =>
    rw [List.foldl_cons, ih]
    unfold addTotals
    cases isSet rxStats.opCode dpaRxStatsOpPackets with
    | false =>
      cases isSet rxStats.opCode dpaRxStatsOpBytes with
      | false => simp
      | true => simp [UInt64.add_assoc]
    | true =>
      cases isSet rxStats.opCode dpaRxStatsOpBytes with
      | false => simp [UInt64.add_assoc]
      | true => simp [UInt64.add_assoc]

def OutOfRange (n : ℕ) (queueId : BitVec 32) : Prop :=
  isSet queueId dpaQueueFlagAll = false ∧ n ≤ (queueId &&& dpaRingIdMask).toNat

def perQueue (opCode : BitVec 32) : Bool :=
  !isSet opCode dpaRxStatsOpDrops && !isSet opCode dpaRxStatsOpErrors

section

variable (hcarrier : dev.carrierOk = true)

include hcarrier

theorem getRxStats_isSome (dropped erroneous : UInt64) (rxStats : DpaRxStats) :
    (getRxStats dropped erroneous dev rxStats).isSome = (queueRange dev rxStats).isSome := by
  rw [getRxStats]
  cases queueRange dev rxStats with
  | none => rfl
  | some range => simp [hcarrier]

/-- Of the requests for queues that the device has, a driver takes those for all of them and those
that it can carry out for one. -/
theorem NicStats.accepts (nic : NicStats) (hrange : ¬OutOfRange dev.numRxRings rxStats.queueId) :
    (nic.getRxStats dev rxStats).isSome = true ↔
      isSet rxStats.queueId dpaQueueFlagAll = true ∨ perQueue rxStats.opCode = true := by
  obtain ⟨dropped, erroneous, heq⟩ := nic.getRxStats_eq
  rw [heq, getRxStats_isSome hcarrier, queueRange, perQueue]
  cases hall : isSet rxStats.queueId dpaQueueFlagAll with
  | true => simp
  | false =>
    have hlt : ¬(rxStats.queueId &&& dpaRingIdMask).toNat ≥ dev.numRxRings :=
      fun hge ↦ hrange ⟨hall, hge⟩
    simp only [if_neg hlt]
    cases isSet rxStats.opCode dpaRxStatsOpDrops with
    | true => simp
    | false => cases isSet rxStats.opCode dpaRxStatsOpErrors <;> simp

theorem NicStats.getRxStats_of_range (nic : NicStats) {qbegin qend : ℕ}
    (hrange : queueRange dev rxStats = some (qbegin, qend)) :
    ∃ s, nic.getRxStats dev rxStats = some s ∧ s.enabled = rxStats.enabled ∧
      s.packets = (if isSet rxStats.opCode dpaRxStatsOpPackets then rxStats.packets +
        ((List.range' qbegin (qend - qbegin)).map fun i ↦ (dev.rxRings i).totalPackets).sum
        else rxStats.packets) ∧
      s.bytes = (if isSet rxStats.opCode dpaRxStatsOpBytes then rxStats.bytes +
        ((List.range' qbegin (qend - qbegin)).map fun i ↦ (dev.rxRings i).totalBytes).sum
        else rxStats.bytes) := by
  obtain ⟨dropped, erroneous, heq⟩ := nic.getRxStats_eq
  rw [heq, Driver.getRxStats, hrange]
  simp only [bind, Option.bind, hcarrier, if_true, foldl_addTotals]
  exact ⟨_, rfl, rfl, rfl, rfl⟩

end

end Dpa.Driver
