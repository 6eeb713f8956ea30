import Dpa.Kernel.Ring

namespace Dpa.Driver

open Kernel MachineWord Function

/-- An advanced receive descriptor of igb or ixgbe. `lower` is `pkt_addr` in the read format
and begins with `pkt_info` in the write-back format; the other fields are `wb.upper`, which
lies over `hdr_addr`. -/
structure AdvRxDesc where
  lower : ℕ
  statusError : ℕ
  length : ℕ
  vlan : ℕ
  deriving DecidableEq, Inhabited

/-- `struct igb_ring` or `struct ixgbe_ring`, as far as the adaptation layer uses it, with the
head and tail registers of the hardware. `given` records the user slots whose descriptors were
given back; no step reads it. -/
structure NicRing where
  desc : ℕ → AdvRxDesc
  count : ℕ
  nextToClean : ℕ
  nextToUse : ℕ
  head : ℕ
  tail : ℕ
  totalPackets : ℕ
  totalBytes : ℕ
  statsPackets : ℕ
  statsBytes : ℕ
  given : List ℕ

/-- One receive queue: the kernel ring, the user ring, the ring of the NIC, and `num_rx_descs`
of its adapter. -/
structure RxQueue where
  kring : DpaKring
  ring : DpaRing
  nic : NicRing
  numRxDescs : ℕ

/-- The status bits and packet types of a family of NICs. -/
structure RxBits where
  dd : ℕ
  vp : ℕ
  ipv4 : ℕ
  ipv4Ex : ℕ
  ipv6 : ℕ
  ipv6Ex : ℕ
  tcp : ℕ
  udp : ℕ

def e1000RxBits : RxBits := ⟨0x01, 0x08, 0x10, 0x20, 0x40, 0x80, 0x100, 0x200⟩

def ixgbeRxBits : RxBits := ⟨0x01, 0x08, 0x10, 0x20, 0x40, 0x80, 0x100, 0x200⟩

namespace AdvRxDesc

def pktInfo (d : AdvRxDesc) : ℕ := d.lower % 65536

def done (bits : RxBits) (d : AdvRxDesc) : Bool := d.statusError &&& bits.dd ≠ 0

def info (bits : RxBits) (typeUpdate : Bool) (d : AdvRxDesc) : ℕ :=
  let vid := if d.statusError &&& bits.vp ≠ 0 then d.vlan &&& dpaSlotInfoVid else 0
  if typeUpdate then
    let net :=
      if d.pktInfo &&& bits.ipv4 ≠ 0 ∨ d.pktInfo &&& bits.ipv4Ex ≠ 0 then vid ||| dpaSlotInfoIpv4
      else if d.pktInfo &&& bits.ipv6 ≠ 0 ∨ d.pktInfo &&& bits.ipv6Ex ≠ 0 then
        vid ||| dpaSlotInfoIpv6
      else vid
    if d.pktInfo &&& bits.tcp ≠ 0 then net ||| dpaSlotInfoTcp
    else if d.pktInfo &&& bits.udp ≠ 0 then net ||| dpaSlotInfoUdp
    else net
  else vid

def harvestInto (bits : RxBits) (typeUpdate : Bool) (d : AdvRxDesc) (slot : DpaSlot) : DpaSlot :=
  { slot with len := d.length, info := d.info bits typeUpdate }

def rearm (d : AdvRxDesc) (paddr : ℕ) : AdvRxDesc := { d with statusError := 0, lower := paddr }

end AdvRxDesc

structure Harvest where
  slot : ℕ → DpaSlot
  n : ℕ
  k : ℕ
  i : ℕ
  bytes : ℕ

/-- The harvest loop. A ring of `N` descriptors is back where it began after `N` rounds, so
`none` is a loop that never ends. -/
def harvest (bits : RxBits) (m : DpaModule) (desc : ℕ → AdvRxDesc) (numSlots : ℕ) :
    ℕ → Harvest → Option Harvest
  | 0, _ => none
  | fuel + 1, h =>
    if (desc h.n).done bits then
      harvest bits m desc numSlots fuel
        { slot := update h.slot h.k ((desc h.n).harvestInto bits m.typeUpdate (h.slot h.k))
          n := ringSucc numSlots h.n
          k := ringSucc numSlots h.k
          i := u32 (h.i + 1)
          bytes := u32 (h.bytes + (desc h.n).length) }
    else some h

structure Release where
  desc : ℕ → AdvRxDesc
  n : ℕ
  k : ℕ
  i : ℕ
  given : List ℕ

/-- The release loop, up to slot `u`, and whether it stopped at a slot with a bad buffer. -/
def release (m : DpaModule) (slot : ℕ → DpaSlot) (numSlots u : ℕ) :
    ℕ → Release → Option (Release × Bool)
  | 0, _ => none
  | fuel + 1, r =>
    if r.k = u then some (r, false)
    else if (bufVpa m.bufs (slot r.k)).1 = m.bufs.base then some (r, true)
    else release m slot numSlots u fuel
      { desc := update r.desc r.n ((r.desc r.n).rearm (bufVpa m.bufs (slot r.k)).2)
        n := ringSucc numSlots r.n
        k := ringSucc numSlots r.k
        i := u32 (r.i + 1)
        given := r.given ++ [r.k] }

namespace RxQueue

def numSlots (s : RxQueue) : ℕ := u32 (s.kring.nkrNumSlots - 1)

def beginHarvest (s : RxQueue) : Harvest :=
  ⟨s.ring.slot, s.nic.nextToClean, u32 (dpaIdxN2k s.kring (s32 s.nic.nextToClean)), 0, 0⟩

def endHarvest (s : RxQueue) (h : Harvest) : RxQueue :=
  let s := { s with ring := { s.ring with slot := h.slot } }
  let s := if h.i ≠ 0 then
      { s with
        kring := { s.kring with
          totalPackets := u64 (s.kring.totalPackets + h.i)
          totalBytes := u64 (s.kring.totalBytes + h.bytes)
          nrHwavail := s32 (s.kring.nrHwavail + h.i) }
        nic := { s.nic with
          totalPackets := u64 (s.nic.totalPackets + h.i)
          statsPackets := u64 (s.nic.statsPackets + h.i)
          totalBytes := u64 (s.nic.totalBytes + h.bytes)
          statsBytes := u64 (s.nic.statsBytes + h.bytes)
          nextToClean := h.n } }
    else s
  { s with kring := { s.kring with nrKflags := s.kring.nrKflags &&& (0xFFFFFFFF ^^^ dpaKrPendIntr) } }

/-- The harvest of a call, or `none` if its loop never ends. -/
def afterHarvest (bits : RxBits) (m : DpaModule) (s : RxQueue) : Option RxQueue :=
  (harvest bits m s.nic.desc s.numSlots s.kring.nkrNumSlots s.beginHarvest).map s.endHarvest

def checkedResvd (s : RxQueue) (resvd : ℕ) : ℕ := Kernel.checkedResvd s.numSlots s.ring resvd

def releaseEnd (s : RxQueue) (u resvd : ℕ) : ℕ := Kernel.releaseEnd s.numSlots u resvd

def beginRelease (s : RxQueue) : Release :=
  ⟨s.nic.desc, u32 (dpaIdxK2n s.kring (s32 s.kring.nrHwcur)), s.kring.nrHwcur, 0, s.nic.given⟩

def endRelease (s : RxQueue) (u : ℕ) (r : Release) : RxQueue :=
  { s with
    kring := { s.kring with
      nrHwavail := s32 (s.kring.nrHwavail - r.i)
      nrHwcur := u }
    nic := { s.nic with
      desc := r.desc
      nextToUse := r.n
      tail := if r.n = 0 then s.numSlots else u32 (r.n - 1)
      given := r.given } }

def reinit (m : DpaModule) (s : RxQueue) (forceSync : Bool) : ℕ × RxQueue :=
  let r := dpaRingReinit m.bufs m.bufSize s.kring s.ring forceSync
  (r.1, { s with ring := r.2 })

def releaseAndReport (m : DpaModule) (u resvd : ℕ) (s : RxQueue) : Option (ℕ × RxQueue) :=
  let checked := s.checkedResvd resvd
  let last := s.releaseEnd u checked
  let s := if checked = resvd then s else { s with ring := { s.ring with reserved := 0 } }
  let report (s : RxQueue) : ℕ × RxQueue :=
    (0, { s with ring := { s.ring with avail := u32 (s.kring.nrHwavail - checked) } })
  if s.kring.nrHwcur = last then some (report s)
  else
    match release m s.ring.slot s.numSlots last s.kring.nkrNumSlots s.beginRelease with
    | none => none
    | some (r, true) =>
      some (reinit m { s with nic := { s.nic with desc := r.desc, given := r.given } } false)
    | some (r, false) => some (report (s.endRelease last r))

/-- What `rx_sync` does once it has read `cur` and `reserved`: its result and the queue it
leaves, or `none` where one of its loops never ends. -/
def rxSyncBody (bits : RxBits) (m : DpaModule) (carrier doLock : Bool) (u resvd : ℕ) (s : RxQueue) :
    Option (ℕ × RxQueue) :=
  let forceUpdate := doLock || s.kring.nrKflags &&& dpaKrPendIntr ≠ 0
  if !carrier then some (0, s)
  else if u > s.numSlots then some (s.reinit m true)
  else if dpaPendIntr = 0 ∨ forceUpdate then
    (s.afterHarvest bits m).bind (releaseAndReport m u resvd)
  else s.releaseAndReport m u resvd

def rxSync (bits : RxBits) (m : DpaModule) (carrier doLock : Bool) (s : RxQueue) :
    Option (ℕ × RxQueue) :=
  s.rxSyncBody bits m carrier doLock s.ring.cur s.ring.reserved

def igbDpaRxSync : DpaModule → Bool → Bool → RxQueue → Option (ℕ × RxQueue) := rxSync e1000RxBits

def ixgbeDpaRxSync : DpaModule → Bool → Bool → RxQueue → Option (ℕ × RxQueue) := rxSync ixgbeRxBits

def confAddr (m : DpaModule) (kring : DpaKring) (slot : ℕ → DpaSlot) (i : ℕ) : ℕ :=
  (bufVpa m.bufs (slot (dpaIdxN2k kring i).toNat)).2

def igbDpaConfRxRing (m : DpaModule) (s : RxQueue) : RxQueue :=
  let s := { s with kring := dpaReset s.kring 0 }
  { s with nic := { s.nic with
      desc := fun i ↦
        if i < s.nic.count then ⟨confAddr m s.kring s.ring.slot i, 0, 0, 0⟩ else s.nic.desc i
      nextToUse := 0
      tail := u32 (s.nic.count - 1 - s.kring.nrHwavail) } }

def ixgbeDpaConfRxRing (m : DpaModule) (s : RxQueue) : RxQueue :=
  let s := { s with kring := dpaReset s.kring 0 }
  let numSlots := s32 (s.numRxDescs - 1 - s.kring.nrHwavail)
  { s with nic := { s.nic with
      desc := fun i ↦
        if i < s.numRxDescs then
          { s.nic.desc i with lower := confAddr m s.kring s.ring.slot i }
        else s.nic.desc i
      tail := u32 numSlots } }

/-- What the driver does to the ring before it configures it: the descriptors are zeroed and
both ends start from index 0. -/
def clearRing (s : RxQueue) : RxQueue :=
  { s with nic := { s.nic with desc := fun _ ↦ ⟨0, 0, 0, 0⟩, nextToClean := 0, head := 0 } }

end RxQueue

inductive Intel
  | igb
  | ixgbe
  deriving DecidableEq

namespace Intel

def bits : Intel → RxBits
  | igb => e1000RxBits
  | ixgbe => ixgbeRxBits

def rxSync : Intel → DpaModule → Bool → Bool → RxQueue → Option (ℕ × RxQueue)
  | igb => RxQueue.igbDpaRxSync
  | ixgbe => RxQueue.ixgbeDpaRxSync

def confRxRing : Intel → DpaModule → RxQueue → RxQueue
  | igb => RxQueue.igbDpaConfRxRing
  | ixgbe => RxQueue.ixgbeDpaConfRxRing

def reset (drv : Intel) (m : DpaModule) (s : RxQueue) : RxQueue := drv.confRxRing m s.clearRing

end Intel

def NicRing.complete (nic : NicRing) (d : AdvRxDesc) : NicRing :=
  { nic with
    desc := update nic.desc nic.head d
    head := if nic.head + 1 = nic.count then 0 else nic.head + 1 }

def RxQueue.consume (s : RxQueue) (count reserved : ℕ) : RxQueue :=
  { s with ring := s.ring.consume s.kring.nkrNumSlots count reserved }

end Dpa.Driver
