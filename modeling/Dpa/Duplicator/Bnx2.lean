import Dpa.Duplicator.Invariant
import Dpa.Duplicator.Shm
import Dpa.Library.Stutter

namespace Dpa.Duplicator

open Kernel Function MachineWord Library

variable {cfg : Config} {ring : DpaRing} {buf : ℕ → ℕ → UInt8} {cur n i : ℕ} {s : System}

/-- The NIC index that `dup_proc_bnx2` computes for `cur`. -/
def hwCur (ring : DpaRing) (cur : ℕ) : ℤ :=
  let hwCur := s32 (cur - ring.hwOfs)
  if hwCur < 0 then s32 (hwCur + ring.numSlots)
  else if hwCur ≥ s32 ring.numSlots then s32 (hwCur - ring.numSlots)
  else hwCur

/-- Whether the slot at `cur` is passed over; `& 255` leaves the remainder by 256. -/
def isLink (ring : DpaRing) (cur : ℕ) : Bool := hwCur ring cur % 256 = 255

/-- `dup_proc_bnx2` between two polls: it stands where `dup_proc_intel` does, and counts the slots
that it passes. -/
structure Bnx2System extends System where
  ipass : ℕ

namespace Bnx2System

variable (cfg : Config) (s : Bnx2System)

def take : Bnx2System :=
  if s.producer.rx < s.producer.numProc then
    if isLink s.ring s.producer.cur then
      { s with
        producer := { s.producer with
          cur := dpaRingNext s.ring s.producer.cur
          rx := s.producer.rx + 1 }
        ipass := s.ipass + 1 }
    else if s.inSlot.len > cfg.maxPktSizeBnx2 ∨ s.inSlot.len = 0 then
      { s with producer := { s.producer with
          errPkt := s.producer.errPkt + 1
          errBytes := s.producer.errBytes + s.inSlot.len
          cur := dpaRingNext s.ring s.producer.cur
          rx := s.producer.rx + 1 } }
    else
      { s with producer := { s.producer with
          pc := .copy 0
          bytes := s.producer.bytes + s.inSlot.len } }
  else { s with toSystem := s.goto (.flush 0) }

/-- Nothing is recorded of the copies that are full. -/
def refill (i : ℕ) : Bnx2System :=
  { s with toSystem := { s.toSystem.refill i with record := s.record } }

def store (i : ℕ) : Bnx2System :=
  let old := s.slots i (s.producer.widx i)
  let new : DupSlot :=
    { len := s.inSlot.len
      info := s.inSlot.info
      packet := memcpy old.packet (fun j ↦ s.buf s.inSlot.bufIdx (j + bnx2RxOffset)) s.inSlot.len }
  let w := dupSlotIdxNext (s.queue i) (s.producer.widx i)
  { s with
    slots := update s.slots i (update (s.slots i) (s.producer.widx i) new)
    producer := { s.producer with
      widx := update s.producer.widx i w
      pc :=
        if dupQueueWidxOffset (s.queue i) w = s.producer.wavali i then .publish i
        else .copy (i + 1) } }

def finish : Bnx2System :=
  let p := s.producer
  { s with
    ring := { s.ring with avail := s.ring.avail - p.rx, cur := p.cur }
    targs :=
      { packets := s.targs.packets + (p.rx - s.ipass - p.errPkt)
        bytes := s.targs.bytes + p.bytes
        errPackets := s.targs.errPackets + p.errPkt
        errBytes := s.targs.errBytes + p.errBytes }
    producer := { p with pc := .poll, errPkt := 0, errBytes := 0, bytes := 0 } }

/-- One step of `dup_proc_bnx2`; what it does to the queues but for `store` it does as
`dup_proc_intel`. -/
def produce : Bnx2System :=
  match s.producer.pc with
  | .poll => s
  | .take => s.take cfg
  | .copy i => { s with toSystem := s.toSystem.copy cfg i }
  | .refill i => s.refill i
  | .store i => s.store i
  | .publish i => { s with toSystem := s.toSystem.publish i }
  | .refresh i => { s with toSystem := s.toSystem.refresh i }
  | .flush i => { s with toSystem := s.toSystem.flush cfg i }
  | .flushed i => { s with toSystem := s.toSystem.flushed i }
  | .finish => s.finish

def consume (s : Bnx2System) (i : ℕ) : Bnx2System := { s with toSystem := s.toSystem.consume i }

end Bnx2System

def System.begin (s : System) (ring : DpaRing) (buf : ℕ → ℕ → UInt8) : System :=
  { s with
    ring := ring
    buf := buf
    producer := { s.producer with
      pc := .take
      cur := ring.cur
      rx := 0
      numProc := min ring.avail dupPktPerProcess } }

def examined (ring : DpaRing) : ℕ → ℕ → List ℕ
  | _, 0 => []
  | cur, n + 1 => cur :: examined ring (dpaRingNext ring cur) n

def nicIndex (ring : DpaRing) (cur : ℕ) : ℕ :=
  (cur + ring.numSlots - ring.hwOfs.toNat) % ring.numSlots

/-- The slots of a batch whose NIC index is not the last of its page. -/
def packetSlots (ring : DpaRing) : List ℕ :=
  (examined ring ring.cur (min ring.avail dupPktPerProcess)).filter fun cur ↦
    nicIndex ring cur % 256 ≠ 255

def onlySlots (ring : DpaRing) (l : List ℕ) : DpaRing :=
  { ring with
    numSlots := l.length
    avail := l.length
    cur := 0
    slot := fun i ↦ ring.slot (l.getD i 0) }

end Dpa.Duplicator
