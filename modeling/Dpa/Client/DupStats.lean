import Dpa.Client.RawStats

namespace Dpa.Client

open Dpa.Driver

structure DupMem where
  magic : BitVec 32
  numQueues : BitVec 32
  dropPackets : ℕ → UInt64

def dpaMagic : BitVec 32 := 0xFBB854F0

def dpaStatsOpDrops : BitVec 32 := 4
def dupQueueIdMask : BitVec 32 := 0xfff
def dupQueueFlagAll : BitVec 32 := 0x1000

/-- The queues that the loop of `dup_get_rx_stats` goes over. -/
def dupQueues (mem : DupMem) (queueId : BitVec 32) : Option (List ℕ) :=
  if isSet queueId dupQueueFlagAll then some (List.range mem.numQueues.toNat)
  else
    let queueId := queueId &&& dupQueueIdMask
    if queueId.toInt ≥ mem.numQueues.toInt then none else some [queueId.toNat]

def dupGetRxStats (addr : Option DupMem) (now : ℕ) (opCode queueId : BitVec 32)
    (stats : DpaStats) : DpaError × DpaStats :=
  match addr with
  | none => (.badMmapAddr, stats)
  | some mem =>
    if mem.magic ≠ dpaMagic then (.badFileContent, stats)
    else if opCode ≠ dpaStatsOpDrops then (.notSupport, stats)
    else
      match dupQueues mem queueId with
      | none => (.badQueueId, stats)
      | some queues =>
        let drops := queues.foldl (fun drops i ↦ drops + mem.dropPackets i) stats.drops
        (.ok, { stats with enabled := true, drops := drops, ts := now })

/-- What `dpa_get_rx_stats` reads of `dpa_t`. -/
structure DpaT where
  mode : ℕ
  raw : RawDpa
  addr : Option DupMem

def dpaModeDirect : ℕ := 0
def dpaModeDuplicator : ℕ := 1

def dpaGetRxStats (ioctl : DpaRxStats → Option DpaRxStats) (dpaInfo : Option DpaT) (now : ℕ)
    (opCode queueId : BitVec 32) (stats : DpaStats) : DpaError × DpaStats :=
  match dpaInfo with
  | none => (.badArgument, stats)
  | some dpaInfo =>
    if dpaInfo.mode = dpaModeDirect then rawGetRxStats ioctl dpaInfo.raw opCode queueId stats
    else if dpaInfo.mode = dpaModeDuplicator then
      dupGetRxStats dpaInfo.addr now opCode queueId stats
    else (.badMode, stats)

variable {mem : DupMem} {addr : Option DupMem} {opCode queueId : BitVec 32} {stats : DpaStats}
  {queues : List ℕ} {now i : ℕ}

def dropSum (mem : DupMem) (queues : List ℕ) : UInt64 := (queues.map mem.dropPackets).sum

def Accepted (addr : Option DupMem) (opCode queueId : BitVec 32) (mem : DupMem)
    (queues : List ℕ) : Prop :=
  addr = some mem ∧ mem.magic = dpaMagic ∧ opCode = dpaStatsOpDrops ∧
    dupQueues mem queueId = some queues

/-- A successful request says what was dropped by now, says so again when it is repeated, and for all
queues says as much as for each of them together, as far as their numbers go. -/
structure ReportsDrops (get : ℕ → BitVec 32 → BitVec 32 → DpaStats → DpaError × DpaStats)
    (addr : Option DupMem) (now : ℕ) (opCode queueId : BitVec 32) (stats : DpaStats) : Prop where
  current : ∀ mem queues s, addr = some mem → dupQueues mem queueId = some queues →
    get now opCode queueId stats = (.ok, s) → s.drops = dropSum mem queues
  again : ∀ s, get now opCode queueId stats = (.ok, s) →
    ∀ now', ∃ s', get now' opCode queueId s = (.ok, s') ∧ s'.drops = s.drops
  all : ∀ mem s, addr = some mem → isSet queueId dupQueueFlagAll = true →
    mem.numQueues.toNat ≤ 0x1000 → get now opCode queueId stats = (.ok, s) →
    ∃ answer : ℕ → DpaStats,
      (∀ i < mem.numQueues.toNat, get now opCode (BitVec.ofNat 32 i) stats = (.ok, answer i)) ∧
      s.drops = ((List.range mem.numQueues.toNat).map fun i ↦ (answer i).drops).sum

theorem foldl_add (f : ℕ → UInt64) (l : List ℕ) (a : UInt64) :
    l.foldl (fun a i ↦ a + f i) a = a + (l.map f).sum := by
  induction l generalizing a with
  | nil => simp
  | cons i l ih => rw [List.foldl_cons, ih, List.map_cons, List.sum_cons, UInt64.add_assoc]

theorem dupGetRxStats_accepted (h : Accepted addr opCode queueId mem queues) (now : ℕ)
    (stats : DpaStats) :
    dupGetRxStats addr now opCode queueId stats =
      (.ok, { stats with enabled := true, drops := stats.drops + dropSum mem queues, ts := now }) := by
  obtain ⟨haddr, hmagic, hop, hqueues⟩ := h
  subst haddr
  rw [dupGetRxStats, if_neg (not_not.2 hmagic), if_neg (not_not.2 hop), hqueues]
  simp only [foldl_add, dropSum]

theorem accepted_of_ok {s : DpaStats}
    (h : dupGetRxStats addr now opCode queueId stats = (.ok, s)) :
    ∃ mem queues, Accepted addr opCode queueId mem queues := by
  cases addr with
  | none => exact absurd (congrArg Prod.fst h) (by simp [dupGetRxStats])
  | some mem =>
    rw [dupGetRxStats] at h
    by_cases hmagic : mem.magic = dpaMagic
    · by_cases hop : opCode = dpaStatsOpDrops
      · rw [if_neg (not_not.2 hmagic), if_neg (not_not.2 hop)] at h
        cases hqueues : dupQueues mem queueId with
        | none =>
          rw [hqueues] at h
          exact absurd (congrArg Prod.fst h) (by simp)
        | some queues => exact ⟨mem, queues, rfl, hmagic, hop, hqueues⟩
      · rw [if_neg (not_not.2 hmagic), if_pos hop] at h
        exact absurd (congrArg Prod.fst h) (by simp)
    · rw [if_pos hmagic] at h
      exact absurd (congrArg Prod.fst h) (by simp)

theorem dupQueues_ofNat (hn : mem.numQueues.toNat ≤ 0x1000) (hi : i < mem.numQueues.toNat) :
    dupQueues mem (BitVec.ofNat 32 i) = some [i] := by
  obtain ⟨hall, hmask⟩ := queue_number (hi.trans_le hn)
  have hmask' : (BitVec.ofNat 32 i &&& dupQueueIdMask).toNat = i := hmask
  have hlt : ¬(BitVec.ofNat 32 i &&& dupQueueIdMask).toInt ≥ mem.numQueues.toInt := by
    rw [BitVec.toInt_eq_toNat_of_lt (by omega), BitVec.toInt_eq_toNat_of_lt (by omega), hmask']
    omega
  rw [dupQueues, if_neg (by rw [show dupQueueFlagAll = dpaQueueFlagAll from rfl, hall]; decide)]
  simp only [if_neg hlt, hmask']

/-- The drops reported are the current ones only where the caller's structure held none before, and
stay so for another request only where there are none. -/
theorem reportsDrops_iff (ioctl : DpaRxStats → Option DpaRxStats) (raw : RawDpa)
    (addr : Option DupMem) (now : ℕ) (opCode queueId : BitVec 32) (stats : DpaStats) :
    ReportsDrops (dpaGetRxStats ioctl (some ⟨dpaModeDuplicator, raw, addr⟩)) addr now opCode
        queueId stats ↔
      ∀ mem queues, Accepted addr opCode queueId mem queues →
        stats.drops = 0 ∧ dropSum mem queues = 0 := by
  have hget : dpaGetRxStats ioctl (some ⟨dpaModeDuplicator, raw, addr⟩) = dupGetRxStats addr := rfl
  rw [hget]
  constructor
  · intro hreports mem queues haccepted
    have hfirst := dupGetRxStats_accepted haccepted now stats
    have hcurrent := hreports.current mem queues _ haccepted.1 haccepted.2.2.2 hfirst
    obtain ⟨s', hs', hsame⟩ := hreports.again _ hfirst now
    rw [dupGetRxStats_accepted haccepted] at hs'
    obtain rfl := congrArg Prod.snd hs'
    dsimp only at hcurrent hsame
    rw [hcurrent] at hsame
    exact ⟨UInt64.add_eq_right.1 hcurrent, UInt64.add_eq_left.1 hsame⟩
  · intro hcond
    constructor
    case current =>
      intro mem queues s haddr hqueues hok
      obtain ⟨mem', queues', haccepted⟩ := accepted_of_ok hok
      obtain rfl : mem' = mem := Option.some.inj (haccepted.1.symm.trans haddr)
      obtain rfl : queues' = queues := Option.some.inj (haccepted.2.2.2.symm.trans hqueues)
      rw [dupGetRxStats_accepted haccepted] at hok
      obtain rfl := congrArg Prod.snd hok
      dsimp only
      rw [(hcond mem' queues' haccepted).1, UInt64.zero_add]
    case again =>
      intro s hok now'
      obtain ⟨mem, queues, haccepted⟩ := accepted_of_ok hok
      rw [dupGetRxStats_accepted haccepted] at hok
      obtain rfl := congrArg Prod.snd hok
      refine ⟨_, dupGetRxStats_accepted haccepted _ _, ?_⟩
      dsimp only
      rw [(hcond mem queues haccepted).2, UInt64.add_zero, UInt64.add_zero]
    case all =>
      intro mem s haddr hall hn hok
      obtain ⟨mem', queues, haccepted⟩ := accepted_of_ok hok
      obtain rfl : mem' = mem := Option.some.inj (haccepted.1.symm.trans haddr)
      have hzero := (hcond mem' queues haccepted).1
      have hqueues : queues = List.range mem'.numQueues.toNat := by
        have h := haccepted.2.2.2
        rw [dupQueues, if_pos hall] at h
        exact (Option.some.inj h).symm
      rw [dupGetRxStats_accepted haccepted] at hok
      obtain rfl := congrArg Prod.snd hok
      refine ⟨fun i ↦ { stats with
        enabled := true, drops := stats.drops + dropSum mem' [i], ts := now }, ?_, ?_⟩
      · intro i hi
        exact dupGetRxStats_accepted
          ⟨haddr, haccepted.2.1, haccepted.2.2.1, dupQueues_ofNat hn hi⟩ now stats
      · simp only [hzero, UInt64.zero_add, hqueues, dropSum, List.map_cons, List.map_nil,
          List.sum_cons, List.sum_nil, UInt64.add_zero]

/-- One queue that has dropped five packets, asked for twice. -/
theorem fiveDrops_not_reported :
    ¬∀ (ioctl : DpaRxStats → Option DpaRxStats) (raw : RawDpa) (addr : Option DupMem) (now : ℕ)
      (opCode queueId : BitVec 32) (stats : DpaStats),
      ReportsDrops (dpaGetRxStats ioctl (some ⟨dpaModeDuplicator, raw, addr⟩)) addr now opCode
        queueId stats := by
  intro hall
  have hreports := hall (fun _ ↦ none) ⟨3, 1⟩ (some ⟨dpaMagic, 1, fun _ ↦ 5⟩) 0 dpaStatsOpDrops 0
    ⟨true, 0, 0, 0, 0, 0⟩
  obtain ⟨s, hs, hsame⟩ := hreports.again _ rfl 1
  obtain rfl := congrArg Prod.snd hs
  exact absurd hsame (by decide)

end Dpa.Client
