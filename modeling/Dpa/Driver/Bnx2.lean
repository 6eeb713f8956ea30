import Dpa.Library.Loop
import Dpa.Kernel.Ring

namespace Dpa.Driver

open Kernel MachineWord Function Loop

variable {β : Type}

/-- What the chip puts into a buffer: `struct l2_fhdr`, as far as it is read, and the packet. -/
structure L2Frame (β : Type) where
  status : ℕ
  vlanTag : ℕ
  pktLen : ℕ
  contents : β

/-- `struct bnx2_rx_ring_info`, with the consumer index of the status block and the producer
index that the chip was last told. `rxBufRing` is the `mapping` of each `sw_bd`, the device
address of its buffer, which is also what its descriptor holds. -/
structure Bnx2RxRing where
  rxProdBseq : ℕ
  rxProd : ℕ
  rxCons : ℕ
  rxBufRing : ℕ → ℕ
  hwRxCons : ℕ
  bidx : ℕ

/-- One receive queue of a `struct bnx2`, with the packet memory by device address.
`harvested` are the packets that `rx_sync` has moved into the user ring; no step reads it. -/
structure Bnx2Queue (β : Type) where
  kring : DpaKring
  ring : DpaRing
  nic : Bnx2RxRing
  rxRingSize : ℕ
  rxMaxRingIdx : ℕ
  rxMode : ℕ
  rxBufUseSize : ℕ
  mem : ℕ → L2Frame β
  harvested : List (Frame β)

def rxDescCnt : ℕ := 256

def maxRxDescCnt : ℕ := rxDescCnt - 1

def maxRxRings : ℕ := 4

def maxTotalRxDescCnt : ℕ := maxRxDescCnt * maxRxRings

def l2FhdrStatusL2VlanTag : ℕ := 1 <<< 6

def bnx2EmacRxModeKeepVlanTag : ℕ := 1 <<< 10

/-- `NEXT_RX_BD`, stored in a `u16`. -/
def nextRxBd (x : ℕ) : ℕ :=
  u16 (if x &&& (maxRxDescCnt - 1) = maxRxDescCnt - 1 then x + 2 else x + 1)

def rxRing (x : ℕ) : ℕ := (x &&& (0xFFFFFFFF ^^^ maxRxDescCnt)) >>> 8

def bnx2FindMaxRing (ringSize maxSize : ℕ) : ℕ :=
  let numRings := (loop (fun r ↦ r.1 > maxRxDescCnt) (fun r ↦ (r.1 - maxRxDescCnt, r.2 + 1))
    ringSize (ringSize, 1)).2
  let max := loop (fun max ↦ max &&& numRings = 0) (fun max ↦ max >>> 1) 32 maxSize
  if numRings ≠ max then max <<< 1 else max

def dpaRxRingCount (dpaNumRxDescs : ℕ) : ℕ :=
  let count := min dpaNumRxDescs maxTotalRxDescCnt
  if count % maxRxDescCnt = 0 then count else (count / maxRxDescCnt + 1) * maxRxDescCnt

def bnx2GetHwRxCons (cons : ℕ) : ℕ :=
  if cons &&& maxRxDescCnt = maxRxDescCnt then u16 (cons + 1) else cons

namespace L2Frame

def len (f : L2Frame β) : ℕ := u16 (f.pktLen - 4)

def info (rxMode : ℕ) (f : L2Frame β) : ℕ :=
  if f.status &&& l2FhdrStatusL2VlanTag ≠ 0 ∧ rxMode &&& bnx2EmacRxModeKeepVlanTag = 0 then
    f.vlanTag &&& dpaSlotInfoVid
  else f.vlanTag &&& 0

end L2Frame

structure Bnx2Harvest (β : Type) where
  slot : ℕ → DpaSlot
  swCons : ℕ
  k : ℕ
  i : ℕ
  bytes : ℕ
  taken : List (Frame β)

/-- The pages from `ibefore` to `iend` where `passCycle` pages are a round. -/
def pagesBetween (passCycle : ℤ) (ibefore iend : ℕ) : ℤ :=
  if iend < ibefore then passCycle + iend - ibefore else iend - ibefore

structure Bnx2Release where
  k : ℕ
  j : ℕ
  swProd : ℕ

structure Bnx2Conf where
  prod : ℕ
  ringProd : ℕ
  rxBufRing : ℕ → ℕ
  rxProdBseq : ℕ

namespace Bnx2Queue

variable (m : DpaModule) (s : Bnx2Queue β)

def numSlots : ℕ := u32 (s.kring.nkrNumSlots - 1)

def rxRingIdx (x : ℕ) : ℕ := x &&& s.rxMaxRingIdx

def slotOf (x : ℕ) : ℕ := u32 (dpaIdxN2k s.kring (s.rxRingIdx x))

def beginHarvest : Bnx2Harvest β :=
  ⟨s.ring.slot, s.nic.rxCons, s.slotOf s.nic.rxCons, 0, 0, []⟩

/-- Whether the harvest loop takes another packet. The status block stands still while it
runs, so that a second look finds what the first one found. -/
def moreToHarvest (h : Bnx2Harvest β) : Bool :=
  ¬u32 (h.i + s.kring.nrHwavail) ≥ u32 (s.rxRingSize - 1) ∧
    h.swCons ≠ bnx2GetHwRxCons s.nic.hwRxCons

def frameOf (x : ℕ) : L2Frame β := s.mem (s.nic.rxBufRing (s.rxRingIdx x))

def harvestRound (h : Bnx2Harvest β) : Bnx2Harvest β :=
  let frame := s.frameOf h.swCons
  let slot := { h.slot h.k with len := frame.len, info := frame.info s.rxMode }
  let swCons := nextRxBd h.swCons
  { slot := update h.slot h.k slot
    swCons := swCons
    k := s.slotOf swCons
    i := u32 (h.i + 1)
    bytes := u32 (h.bytes + slot.len)
    taken := h.taken ++ [⟨slot.len, slot.info, frame.contents⟩] }

/-- What the harvest adds to `nr_hwavail` for the page links it has passed: `ibefore` and
`iend` are the pages of the user ring where it began and ended, and `i` is its packets. -/
def addLinks (ibefore iend i : ℕ) (hwavail : ℤ) : ℤ :=
  let passCycle : ℤ := rxRing s.rxRingSize + 1
  let hwavail := s32 (hwavail + pagesBetween passCycle ibefore iend)
  if iend = ibefore ∧ i > maxRxDescCnt then s32 (hwavail + passCycle) else hwavail

def endHarvest (h : Bnx2Harvest β) : Bnx2Queue β :=
  let ibefore := rxRing (s.slotOf s.nic.rxCons)
  let s := { s with
    ring := { s.ring with slot := h.slot }
    harvested := s.harvested ++ h.taken }
  let s := if h.i ≠ 0 then
      { s with
        kring := { s.kring with
          totalPackets := u64 (s.kring.totalPackets + h.i)
          totalBytes := u64 (s.kring.totalBytes + h.bytes)
          nrHwavail := s.addLinks ibefore (rxRing h.k) h.i (s32 (s.kring.nrHwavail + h.i)) }
        nic := { s.nic with rxCons := h.swCons } }
    else s
  { s with kring := { s.kring with nrKflags := s.kring.nrKflags &&& (0xFFFFFFFF ^^^ dpaKrPendIntr) } }

def afterHarvest : Bnx2Queue β :=
  s.endHarvest (loop s.moreToHarvest s.harvestRound s.rxRingSize s.beginHarvest)

def beginRelease : Bnx2Release := ⟨s.kring.nrHwcur, 0, s.nic.rxProd⟩

def releaseRound (r : Bnx2Release) : Bnx2Release :=
  let k := ringSucc s.rxMaxRingIdx r.k
  { k := k
    j := u32 (r.j + 1)
    swProd := if u32 (dpaIdxK2n s.kring (s32 k)) &&& maxRxDescCnt ≠ maxRxDescCnt then
        nextRxBd r.swProd
      else r.swProd }

/-- The release loop, up to slot `u`, and whether it stopped at a slot with a bad buffer. -/
def release (u : ℕ) : ℕ → Bnx2Release → Option (Bnx2Release × Bool)
  | 0, _ => none
  | fuel + 1, r =>
    if r.k = u then some (r, false)
    else if (bufVpa m.bufs (s.ring.slot r.k)).1 = m.bufs.base then some (r, true)
    else release u fuel (s.releaseRound r)

def endRelease (u : ℕ) (r : Bnx2Release) : Bnx2Queue β :=
  { s with
    kring := { s.kring with
      nrHwavail := s32 (s.kring.nrHwavail - r.j)
      nrHwcur := u }
    nic := { s.nic with
      rxProd := r.swProd
      bidx := r.swProd } }

def reinit (forceSync : Bool) : ℕ × Bnx2Queue β :=
  let r := dpaRingReinit m.bufs m.bufSize s.kring s.ring forceSync
  (r.1, { s with ring := r.2 })

def releaseAndReport (u resvd : ℕ) : Option (ℕ × Bnx2Queue β) :=
  let checked := checkedResvd s.numSlots s.ring resvd
  let last := releaseEnd s.numSlots u checked
  let s := if checked = resvd then s else { s with ring := { s.ring with reserved := 0 } }
  let report (s : Bnx2Queue β) : ℕ × Bnx2Queue β :=
    (0, { s with ring := { s.ring with avail := u32 (s.kring.nrHwavail - checked) } })
  if s.kring.nrHwcur = last then some (report s)
  else
    match s.release m last s.kring.nkrNumSlots s.beginRelease with
    | none => none
    | some (_, true) => some (s.reinit m false)
    | some (r, false) => some (report (s.endRelease last r))

def bnx2DpaRxSync (carrier doLock : Bool) : Option (ℕ × Bnx2Queue β) :=
  let u := s.ring.cur
  let resvd := s.ring.reserved
  let forceUpdate := doLock || s.kring.nrKflags &&& dpaKrPendIntr ≠ 0
  if !carrier then some (0, s)
  else if u > s.numSlots then some (s.reinit m true)
  else
    let s := { s with ring := { s.ring with hwOfs := s.kring.nkrHwofs } }
    let s := if dpaPendIntr = 0 ∨ forceUpdate then s.afterHarvest else s
    s.releaseAndReport m u resvd

def confRound (c : Bnx2Conf) : Bnx2Conf :=
  let si := s.slotOf c.ringProd
  let prod := nextRxBd c.prod
  { prod := prod
    ringProd := s.rxRingIdx prod
    rxBufRing := update c.rxBufRing c.ringProd (bufVpa m.bufs (s.ring.slot si)).2
    rxProdBseq := u32 (c.rxProdBseq + s.rxBufUseSize) }

def withKring (kring : DpaKring) : Bnx2Queue β := { s with kring := kring }

/-- `bnx2_dpa_conf_rx_ring` once it has called `dpa_reset`. -/
def confSlots : Bnx2Queue β :=
  let c := (s.confRound m)^[s.rxRingSize]
    ⟨s.nic.rxProd, s.nic.rxProd, s.nic.rxBufRing, s.nic.rxProdBseq⟩
  { s with nic := { s.nic with
      rxProd := c.prod
      rxBufRing := c.rxBufRing
      rxProdBseq := c.rxProdBseq } }

def bnx2DpaConfRxRing : Bnx2Queue β := (s.withKring (dpaReset s.kring 0)).confSlots m

def clearRingStates : Bnx2Queue β :=
  { s with nic := { s.nic with rxProdBseq := 0, rxProd := 0, rxCons := 0, hwRxCons := 0 } }

def tellProd : Bnx2Queue β := { s with nic := { s.nic with bidx := s.nic.rxProd } }

def reset : Bnx2Queue β := (s.clearRingStates.bnx2DpaConfRxRing m).tellProd

def receive (frame : L2Frame β) : Bnx2Queue β :=
  let n := bnx2GetHwRxCons s.nic.hwRxCons
  { s with
    mem := update s.mem (s.nic.rxBufRing (s.rxRingIdx n)) frame
    nic := { s.nic with hwRxCons := u16 (n + 1) } }

def consume (count reserved : ℕ) : Bnx2Queue β :=
  { s with ring := s.ring.consume s.kring.nkrNumSlots count reserved }

def dpaPoll (carrier : Bool) : Option (Bnx2Queue β) :=
  if s.ring.avail > 0 then some s else (s.bnx2DpaRxSync m carrier false).map Prod.snd

end Bnx2Queue

/-- Whether `raw_recv_proc_bnx2` takes a slot for a page link. -/
def skipsSlot (ring : DpaRing) (cur : ℕ) : Bool :=
  let hwCur := s32 (u32 (cur - ring.hwOfs))
  let hwCur :=
    if hwCur < 0 then s32 (hwCur + ring.numSlots)
    else if hwCur ≥ s32 ring.numSlots then s32 (hwCur - ring.numSlots)
    else hwCur
  u32 hwCur &&& (rxDescCnt - 1) = rxDescCnt - 1

/-- The loop of `raw_recv_proc_bnx2` over a batch: the frames passed to the callback and the
index it ends at. -/
def recvLoopBnx2 (m : DpaModule) (mem : ℕ → β) (ring : DpaRing) : ℕ → ℕ → List (Frame β) × ℕ
  | 0, cur => ([], cur)
  | n + 1, cur =>
    let r := recvLoopBnx2 m mem ring n (dpaRingNext ring cur)
    if skipsSlot ring cur then r else (frameAt m mem ring cur :: r.1, r.2)

def rawRecvProcBnx2 (m : DpaModule) (mem : ℕ → β) (ring : DpaRing) : DpaRing × List (Frame β) :=
  if ring.avail = 0 then (ring, [])
  else
    let numProc := min ring.avail pktPerProcess
    let r := recvLoopBnx2 m mem ring numProc ring.cur
    ({ ring with avail := ring.avail - numProc, cur := r.2 }, r.1)

end Dpa.Driver
