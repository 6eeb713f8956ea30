import Dpa.Duplicator.Queue
import Dpa.Kernel.Ring

namespace Dpa.Duplicator

open Kernel Function MachineWord

structure Packet where
  len : ℕ
  info : ℕ
  bytes : List UInt8
  deriving DecidableEq

structure DupSlot where
  len : ℕ
  info : ℕ
  packet : ℕ → UInt8

def memcpy (dst src : ℕ → UInt8) (n : ℕ) : ℕ → UInt8 := fun j ↦ if j < n then src j else dst j

def DupSlot.view (slot : DupSlot) : Packet :=
  ⟨slot.len, slot.info, (List.range slot.len).map slot.packet⟩

def dupQueueWidxOffset (q : DupQueue) (w : Int32) : Int32 := (w - q.widx) &&& q.mask

def dupSlotIdxNext (q : DupQueue) (i : Int32) : Int32 := (i + 1) &&& q.mask

def dupPktPerProcess : ℕ := 2048

/-- `offsetof(dup_slot_t, packet)` on a 64-bit machine. -/
def dupSlotPacketOffset : ℕ := 8

/-- The packet at index `cur` of the input ring: its slot fields and the first bytes of its
buffer. -/
def packetAt (ring : DpaRing) (buf : ℕ → ℕ → UInt8) (cur : ℕ) : Packet :=
  ⟨(ring.slot cur).len, (ring.slot cur).info,
    (List.range (ring.slot cur).len).map (buf (ring.slot cur).bufIdx)⟩

def batch (ring : DpaRing) (buf : ℕ → ℕ → UInt8) : ℕ → ℕ → List Packet
  | _, 0 => []
  | cur, n + 1 => packetAt ring buf cur :: batch ring buf (dpaRingNext ring cur) n

/-- The copies a thread of the duplicator feeds, and the buffer size of its input ring. -/
structure Config where
  copies : ℕ
  bufSize : ℕ

def Config.maxPktSize (cfg : Config) : ℕ := u16 (cfg.bufSize - dupSlotPacketOffset)

/-- Where `dup_proc_intel` stands. `refill`, `publish`, `refresh`, `flush` and `flushed` each
make one call of a queue operation; the argument is the loop variable over the copies. -/
inductive ProducerPc
  | poll
  | take
  | copy (i : ℕ)
  | refill (i : ℕ)
  | store (i : ℕ)
  | publish (i : ℕ)
  | refresh (i : ℕ)
  | flush (i : ℕ)
  | flushed (i : ℕ)
  | finish
  deriving DecidableEq

structure Producer where
  pc : ProducerPc
  cur : ℕ
  rx : ℕ
  numProc : ℕ
  errPkt : ℕ
  errBytes : ℕ
  bytes : ℕ
  widx : ℕ → Int32
  wavali : ℕ → Int32

/-- Where `dup_loop` stands: waiting for packets, or in its callback loop. -/
inductive ConsumerPc
  | wait
  | call (i ravali : Int32)
  deriving DecidableEq

structure Consumer where
  pc : ConsumerPc
  ridx : Int32

/-- The counters of `dup_targs_t`, taken as unbounded. -/
structure Targs where
  packets : ℕ
  bytes : ℕ
  errPackets : ℕ
  errBytes : ℕ

/-- What has happened so far; no step reads it. -/
structure Record where
  input : List Packet
  log : ℕ → List (Packet × Bool)
  delivered : ℕ → List Packet

structure System where
  queue : ℕ → DupQueue
  slots : ℕ → Int32 → DupSlot
  ring : DpaRing
  buf : ℕ → ℕ → UInt8
  producer : Producer
  consumer : ℕ → Consumer
  targs : Targs
  record : Record

namespace System

def inSlot (s : System) : DpaSlot := s.ring.slot s.producer.cur

def current (s : System) : Packet := packetAt s.ring s.buf s.producer.cur

def goto (s : System) (pc : ProducerPc) : System := { s with producer := { s.producer with pc := pc } }

/-- A batch begins with whatever the kernel has put into the input ring. -/
def startBatch (s : System) (ring : DpaRing) (buf : ℕ → ℕ → UInt8) : System :=
  let s := { s with ring := ring, buf := buf }
  if ring.avail = 0 then s
  else
    { s with
      producer := { s.producer with
        pc := .take
        cur := ring.cur
        rx := 0
        numProc := min ring.avail dupPktPerProcess }
      record := { s.record with
        input := s.record.input ++ batch ring buf ring.cur (min ring.avail dupPktPerProcess) } }

def take (cfg : Config) (s : System) : System :=
  if s.producer.rx < s.producer.numProc then
    if s.inSlot.len > cfg.maxPktSize ∨ s.inSlot.len = 0 then
      { s with producer := { s.producer with
          errPkt := s.producer.errPkt + 1
          errBytes := s.producer.errBytes + s.inSlot.len
          cur := dpaRingNext s.ring s.producer.cur
          rx := s.producer.rx + 1 } }
    else
      { s with producer := { s.producer with
          pc := .copy 0
          bytes := s.producer.bytes + s.inSlot.len } }
  else s.goto (.flush 0)

def copy (cfg : Config) (s : System) (i : ℕ) : System :=
  if i < cfg.copies then
    if s.producer.wavali i = 0 then s.goto (.refill i) else s.goto (.store i)
  else
    { s with producer := { s.producer with
        pc := .take
        cur := dpaRingNext s.ring s.producer.cur
        rx := s.producer.rx + 1 } }

def setWavali (s : System) (i : ℕ) (v : Int32) : System :=
  { s with producer := { s.producer with wavali := update s.producer.wavali i v } }

def setQueue (s : System) (i : ℕ) (q : DupQueue) : System := { s with queue := update s.queue i q }

def logVerdict (s : System) (i : ℕ) (accepted : Bool) : System :=
  { s with record := { s.record with
      log := update s.record.log i (s.record.log i ++ [(s.current, accepted)]) } }

def refill (s : System) (i : ℕ) : System :=
  let v := dupQueueWriteAvali.atomically (s.queue i)
  if v = 0 then
    (((s.setWavali i v).setQueue i
      { s.queue i with
        dropPackets := (s.queue i).dropPackets + 1
        dropBytes := (s.queue i).dropBytes + s.inSlot.len }).logVerdict i false).goto (.copy (i + 1))
  else (s.setWavali i v).goto (.store i)

def store (s : System) (i : ℕ) : System :=
  let old := s.slots i (s.producer.widx i)
  let new : DupSlot :=
    { len := s.inSlot.len
      info := s.inSlot.info
      packet := memcpy old.packet (s.buf s.inSlot.bufIdx) s.inSlot.len }
  let w := dupSlotIdxNext (s.queue i) (s.producer.widx i)
  let s := { s with slots := update s.slots i (update (s.slots i) (s.producer.widx i) new) }
  let s := { s with producer := { s.producer with widx := update s.producer.widx i w } }
  (s.logVerdict i true).goto
    (if dupQueueWidxOffset (s.queue i) w = s.producer.wavali i then .publish i else .copy (i + 1))

def publish (s : System) (i : ℕ) : System :=
  (s.setQueue i (dupQueueWriteAdv (s.queue i) (s.producer.wavali i))).goto (.refresh i)

def refresh (s : System) (i : ℕ) : System :=
  (s.setWavali i (dupQueueWriteAvali.atomically (s.queue i))).goto (.copy (i + 1))

def flush (cfg : Config) (s : System) (i : ℕ) : System :=
  if i < cfg.copies then
    if dupQueueWidxOffset (s.queue i) (s.producer.widx i) ≠ 0 then
      (s.setQueue i (dupQueueWriteAdv (s.queue i)
        (dupQueueWidxOffset (s.queue i) (s.producer.widx i)))).goto (.flushed i)
    else s.goto (.flushed i)
  else s.goto .finish

def flushed (s : System) (i : ℕ) : System :=
  (s.setWavali i (dupQueueWriteAvali.atomically (s.queue i))).goto (.flush (i + 1))

def finish (s : System) : System :=
  let p := s.producer
  { s with
    ring := { s.ring with avail := s.ring.avail - p.rx, cur := p.cur }
    targs :=
      { packets := s.targs.packets + (p.rx - p.errPkt)
        bytes := s.targs.bytes + p.bytes
        errPackets := s.targs.errPackets + p.errPkt
        errBytes := s.targs.errBytes + p.errBytes }
    producer := { p with pc := .poll, errPkt := 0, errBytes := 0, bytes := 0 } }

/-- One step of `dup_proc_intel` between two polls. -/
def produce (cfg : Config) (s : System) : System :=
  match s.producer.pc with
  | .poll => s
  | .take => s.take cfg
  | .copy i => s.copy cfg i
  | .refill i => s.refill i
  | .store i => s.store i
  | .publish i => s.publish i
  | .refresh i => s.refresh i
  | .flush i => s.flush cfg i
  | .flushed i => s.flushed i
  | .finish => s.finish

/-- One step of the `dup_loop` that reads copy `i`. -/
def consume (s : System) (i : ℕ) : System :=
  let c := s.consumer i
  match c.pc with
  | .wait =>
    let v := dupQueueReadAvali.atomically (s.queue i)
    if v = 0 then s else { s with consumer := update s.consumer i { c with pc := .call 0 v } }
  | .call j v =>
    if j < v then
      { s with
        record := { s.record with
          delivered := update s.record.delivered i
            (s.record.delivered i ++ [(s.slots i c.ridx).view]) }
        consumer := update s.consumer i ⟨.call (j + 1) v, dupSlotIdxNext (s.queue i) c.ridx⟩ }
    else
      { s.setQueue i (dupQueueReadAdv (s.queue i) v) with
        consumer := update s.consumer i { c with pc := .wait } }

end System

inductive Step (cfg : Config) : System → System → Prop
  | poll (s : System) (ring : DpaRing) (buf : ℕ → ℕ → UInt8) :
      s.producer.pc = .poll → Step cfg s (s.startBatch ring buf)
  | produce (s : System) : Step cfg s (s.produce cfg)
  | consume (s : System) (i : ℕ) : i < cfg.copies → Step cfg s (s.consume i)

/-- Freshly initialised queues of `2 ^ k` slots, the producer before its first poll and every
consumer at the top of its loop. -/
structure Initial (cfg : Config) (k : ℕ) (s : System) : Prop where
  queue : ∀ i < cfg.copies, ∃ q queueId slotSize slotOffs,
    s.queue i = dupQueueInit q queueId (Int32.ofNat (2 ^ k)) slotSize slotOffs
  pc : s.producer.pc = .poll
  errPkt : s.producer.errPkt = 0
  errBytes : s.producer.errBytes = 0
  bytes : s.producer.bytes = 0
  widx : ∀ i < cfg.copies, s.producer.widx i = (s.queue i).widx
  wavali : ∀ i < cfg.copies, s.producer.wavali i = dupQueueWriteAvali.atomically (s.queue i)
  consumer : ∀ i < cfg.copies, s.consumer i = ⟨.wait, (s.queue i).ridx⟩
  targs : s.targs = ⟨0, 0, 0, 0⟩
  record : s.record = ⟨[], fun _ ↦ [], fun _ ↦ []⟩

end Dpa.Duplicator
