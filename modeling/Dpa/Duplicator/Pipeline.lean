import Dpa.Driver.IntelDelivery
import Dpa.Duplicator.Delivery
import Dpa.Duplicator.Progress

namespace Dpa.Duplicator

open Driver Kernel Library Relation Function Cyclic

variable {cfg : Config} {N k n i : ℕ} {drv : Intel} {m : DpaModule} {seen : List Packet} {s : System}

/-- What a callback is given of a frame: as many bytes of its buffer as it is long. -/
def packetOf (f : Frame (ℕ → UInt8)) : Packet :=
  ⟨f.len, f.info, (List.range f.len).map f.contents⟩

/-- A thread of the duplicator on its receive queue. The ring and the packet memory are the
kernel's and the hardware's too: what the thread last saw of them is in `dup`. -/
structure Pipeline where
  traffic : Traffic (ℕ → UInt8)
  dup : System

namespace Pipeline

variable (cfg : Config) (drv : Intel) (m : DpaModule) (p : Pipeline)

def buf (b : ℕ) : ℕ → UInt8 := p.traffic.mem (m.bufs.paddr b)

def system : System := { p.dup with ring := p.traffic.queue.ring, buf := p.buf m }

def begin : Pipeline := { p with dup := (p.system m).startBatch p.traffic.queue.ring (p.buf m) }

/-- The ring is written back; the frames of a batch count as delivered once its slots are handed
back. -/
def produce : Pipeline :=
  let d := (p.system m).produce cfg
  { traffic := { p.traffic with
      queue := { p.traffic.queue with ring := d.ring }
      delivered :=
        if p.dup.producer.pc = .finish then
          p.traffic.delivered ++ (recvLoop m p.traffic.mem p.traffic.queue.ring p.dup.producer.rx
            p.traffic.queue.ring.cur).1
        else p.traffic.delivered }
    dup := d }

def consume (i : ℕ) : Pipeline := { p with dup := p.dup.consume i }

end Pipeline

/-- The hardware and the driver go on whatever the thread does; it is the thread itself that asks
the kernel for packets. -/
inductive Pipeline.Step (cfg : Config) (drv : Intel) (m : DpaModule) : Pipeline → Pipeline → Prop
  | receive (p : Pipeline) (d : AdvRxDesc) (contents : ℕ → UInt8) :
      p.traffic.queue.nic.head ≠ p.traffic.queue.nic.tail → d.done drv.bits = true →
      Step cfg drv m p { p with traffic := p.traffic.receive d contents }
  | reset (p : Pipeline) : Step cfg drv m p { p with traffic := p.traffic.reset drv m }
  | poll (p : Pipeline) (carrier : Bool) (s' : RxQueue) : p.dup.producer.pc = .poll →
      dpaPoll drv m carrier p.traffic.queue = some s' →
      Step cfg drv m p { p with traffic := p.traffic.synced s' }
  | rxSync (p : Pipeline) (carrier : Bool) (code : ℕ) (s' : RxQueue) : p.dup.producer.pc = .poll →
      drv.rxSync m carrier true p.traffic.queue = some (code, s') →
      Step cfg drv m p { p with traffic := p.traffic.synced s' }
  | begin (p : Pipeline) : p.dup.producer.pc = .poll → Step cfg drv m p (p.begin m)
  | produce (p : Pipeline) : Step cfg drv m p (p.produce cfg m)
  | consume (p : Pipeline) (i : ℕ) : i < cfg.copies → Step cfg drv m p (p.consume i)

theorem batch_eq {ring : DpaRing} (buf : ℕ → ℕ → UInt8) (hb : N ≤ 2 ^ 30) (hN : 0 < N)
    (hring : ring.numSlots = N) (c : ℕ) (n : ℕ) :
    batch ring buf (pos N c i) n =
      (List.range n).map fun j ↦ packetAt ring buf (pos N c (i + j)) := by
  induction n generalizing i with
  | zero => rfl
  | succ n ih =>
    have hshift (j : ℕ) : i + 1 + j = i + (j + 1) := by omega
    simp only [batch, dpaRingNext_pos hb hN hring, ih, List.range_succ_eq_map, List.map_cons,
      List.map_map, Function.comp_def, hshift, Nat.add_zero, Nat.succ_eq_add_one]

theorem current_of_batch {ring : DpaRing} {buf : ℕ → ℕ → UInt8}
    (hlt : s.producer.rx < s.producer.numProc)
    (hrest : batch ring buf s.producer.cur (s.producer.numProc - s.producer.rx) =
      batch s.ring s.buf s.producer.cur (s.producer.numProc - s.producer.rx)) :
    packetAt ring buf s.producer.cur = s.current := by
  rw [show s.producer.numProc - s.producer.rx =
    s.producer.numProc - (s.producer.rx + 1) + 1 by omega, batch, batch, List.cons.injEq] at hrest
  exact hrest.1

theorem copying_of_done (hd : s.producer.pc.Done i) : s.stage = .copying := by
  unfold System.stage
  cases hpc : s.producer.pc with
  | copy | refill | store | publish | refresh => rfl
  | poll | take | flush | flushed | finish =>
    rw [hpc] at hd
    exact hd.elim

/-- What the kernel and the hardware write outside the rest of the batch is not noticed. -/
theorem Inv.withInput {ring : DpaRing} {buf : ℕ → ℕ → UInt8} (h : Inv cfg k seen s)
    (hrest : s.stage ≠ .poll →
      batch ring buf s.producer.cur (s.producer.numProc - s.producer.rx) =
        batch s.ring s.buf s.producer.cur (s.producer.numProc - s.producer.rx)) :
    Inv cfg k seen { s with ring := ring, buf := buf } := by
  have hcurrent (hstage : s.stage = .copying) :
      packetAt ring buf s.producer.cur = s.current := by
    have hne : s.stage ≠ .poll := by
      rw [hstage]
      exact fun h ↦ by cases h
    exact current_of_batch (h.front.current hstage).1 (hrest hne)
  have hf := h.front
  refine ⟨⟨?_, ?_, hf.flushing, hf.idle, hf.errPkt, hf.packets, ?_, hf.errPackets, hf.errBytes⟩,
    h.copies, ?_⟩
  · have hin : s.record.input = seen ++ s.front.remaining s.stage := hf.input
    change s.record.input = seen ++ (Front.remaining _ s.stage)
    rw [hin]
    cases hstage : s.stage with
    | poll => rfl
    | take | copying | flushing =>
      exact congrArg _ (hrest (by rw [hstage]; exact fun h ↦ by cases h)).symm
  · intro hstage
    refine ⟨(hf.current hstage).1, ?_⟩
    change cfg.valid (packetAt ring buf s.producer.cur) = true
    rw [hcurrent hstage]
    exact (hf.current hstage).2
  · refine Eq.trans (congrArg _ ?_) hf.bytes
    exact if_ctx_congr Iff.rfl (fun hstage ↦ congrArg Packet.len (hcurrent hstage)) fun _ ↦ rfl
  · intro i hi
    refine (h.log i hi).trans (congrArg _ ?_)
    by_cases hd : s.producer.pc.Done i
    · rw [if_pos hd, if_pos hd]
      exact congrArg (fun q ↦ [q]) (hcurrent (copying_of_done hd)).symm
    · rw [if_neg hd, if_neg hd]

section

variable {t : Traffic (ℕ → UInt8)} {q : Fifo (Frame (ℕ → UInt8))} {rx : ℕ}

theorem iterate_next {ring : DpaRing} (hb : N ≤ 2 ^ 30) (hring : ring.numSlots = N)
    (hcur : ring.cur < N) (rx : ℕ) :
    (dpaRingNext ring)^[rx] ring.cur = pos N ring.cur rx := by
  induction rx with
  | zero => exact (pos_zero hcur).symm
  | succ rx ih =>
    rw [iterate_succ_apply', ih]
    exact dpaRingNext_pos hb (Nat.zero_lt_of_lt hcur) hring _

theorem cur_lt_of_carries (hq : Carries N drv m t q) : t.queue.ring.cur < N := by
  obtain ⟨o, a, h, hc, hu, -⟩ := hq.wired
  rw [hu.cur]
  exact pos_lt hc.nonempty

theorem iterate_of_carries (hq : Carries N drv m t q) (rx : ℕ) :
    (dpaRingNext t.queue.ring)^[rx] t.queue.ring.cur = pos N t.queue.ring.cur rx := by
  obtain ⟨o, a, h, hc, -, hw⟩ := hq.wired
  exact iterate_next hc.bound hw.numSlots (cur_lt_of_carries hq) rx

theorem batch_of_carries (hq : Carries N drv m t q) (hrx : rx ≤ n) (hn : n ≤ t.queue.ring.avail) :
    batch t.queue.ring (fun b ↦ t.mem (m.bufs.paddr b)) (pos N t.queue.ring.cur rx) (n - rx) =
      ((q.pending.take n).drop rx).map packetOf := by
  obtain ⟨o, a, h, hc, -, hw⟩ := hq.wired
  obtain ⟨d, rfl⟩ := Nat.exists_eq_add_of_le hrx
  rw [batch_eq _ hc.bound hc.nonempty hw.numSlots, hq.pending, Traffic.window, ← List.map_take,
    List.take_range, min_eq_left hn, List.range_add, List.map_append, List.drop_left' (by simp),
    Nat.add_sub_cancel_left, List.map_map, List.map_map]
  rfl

end

theorem produce_same_input (h : s.producer.pc ≠ .finish) : (s.produce cfg).ring = s.ring := by
  unfold System.produce
  cases hpc : s.producer.pc with
  | poll => rfl
  | take =>
    simp only [System.take]
    split_ifs <;> rfl
  | copy j =>
    simp only [System.copy]
    split_ifs <;> rfl
  | refill j =>
    simp only [System.refill]
    split_ifs <;> rfl
  | store j => rfl
  | publish j => rfl
  | refresh j => rfl
  | flush j =>
    simp only [System.flush]
    split_ifs <;> rfl
  | flushed j => rfl
  | finish => exact absurd hpc h

theorem produce_keeps : (s.produce cfg).buf = s.buf ∧
    (s.produce cfg).record.input = s.record.input := by
  unfold System.produce
  cases hpc : s.producer.pc with
  | poll => exact ⟨rfl, rfl⟩
  | take =>
    simp only [System.take]
    split_ifs <;> exact ⟨rfl, rfl⟩
  | copy j =>
    simp only [System.copy]
    split_ifs <;> exact ⟨rfl, rfl⟩
  | refill j =>
    simp only [System.refill]
    split_ifs <;> exact ⟨rfl, rfl⟩
  | store j => exact ⟨rfl, rfl⟩
  | publish j => exact ⟨rfl, rfl⟩
  | refresh j => exact ⟨rfl, rfl⟩
  | flush j =>
    simp only [System.flush]
    split_ifs <;> exact ⟨rfl, rfl⟩
  | flushed j => exact ⟨rfl, rfl⟩
  | finish => exact ⟨rfl, rfl⟩

theorem rest_of_advances {p : Pipeline} {q : Fifo (Frame (ℕ → UInt8))}
    (hq : Carries N drv m p.traffic q) (hrun : p.dup.stage ≠ .poll)
    (hadv : Advances p.traffic.queue.ring (min p.traffic.queue.ring.avail dupPktPerProcess)
      (p.system m)) :
    batch p.traffic.queue.ring (p.buf m) p.dup.producer.cur
        (p.dup.producer.numProc - p.dup.producer.rx) =
      ((q.pending.take (min p.traffic.queue.ring.avail dupPktPerProcess)).drop
        p.dup.producer.rx).map packetOf := by
  obtain ⟨-, hnum, hrx, hcur⟩ := hadv.running hrun
  have hcur' : p.dup.producer.cur = pos N p.traffic.queue.ring.cur p.dup.producer.rx :=
    hcur.trans (iterate_of_carries hq _)
  rw [hcur', show p.dup.producer.numProc = _ from hnum]
  exact batch_of_carries hq hrx (min_le_left _ _)

theorem startBatch_reads (s : System) (ring : DpaRing) (buf : ℕ → ℕ → UInt8) :
    { s.startBatch ring buf with ring := ring, buf := buf } = s.startBatch ring buf := by
  unfold System.startBatch
  split_ifs <;> rfl

theorem startBatch_empty (s : System) (buf : ℕ → ℕ → UInt8) {ring : DpaRing}
    (h : ring.avail = 0) : s.startBatch ring buf = { s with ring := ring, buf := buf } :=
  if_pos h

theorem startBatch_some (s : System) (buf : ℕ → ℕ → UInt8) {ring : DpaRing}
    (h : ring.avail ≠ 0) :
    (s.startBatch ring buf).producer = (s.begin ring buf).producer ∧
      (s.startBatch ring buf).record.input = s.record.input ++
        batch ring buf ring.cur (min ring.avail dupPktPerProcess) := by
  unfold System.startBatch
  dsimp only
  rw [if_neg h]
  exact ⟨rfl, rfl⟩

theorem produce_system (p : Pipeline) :
    (p.produce cfg m).system m = (p.system m).produce cfg := by
  have hbuf : ((p.system m).produce cfg).buf = p.buf m := produce_keeps.1
  exact congrArg (fun b ↦ { (p.system m).produce cfg with buf := b }) hbuf.symm

theorem stage_produce (hpc : s.producer.pc ≠ .finish) :
    (s.produce cfg).stage = .poll ↔ s.stage = .poll := by
  unfold System.stage System.produce
  cases h : s.producer.pc with
  | poll => rw [h]
  | take =>
    simp only [System.take]
    split_ifs <;> simp [System.goto, ProducerPc.stage, h]
  | copy j =>
    simp only [System.copy]
    split_ifs <;> simp [System.goto, ProducerPc.stage]
  | refill j =>
    simp only [System.refill]
    split_ifs <;> simp [System.goto, ProducerPc.stage]
  | store j =>
    rw [store_pc]
    split_ifs <;> simp [ProducerPc.stage]
  | publish j => simp [publish_pc, ProducerPc.stage]
  | refresh j => simp [refresh_pc, ProducerPc.stage]
  | flush j =>
    simp only [System.flush]
    split_ifs <;> simp [System.goto, ProducerPc.stage]
  | flushed j => simp [flushed_pc, ProducerPc.stage]
  | finish => exact absurd h hpc

theorem consume_input (s : System) (ring : DpaRing) (buf : ℕ → ℕ → UInt8) (i : ℕ) :
    ({ s with ring := ring, buf := buf } : System).consume i =
      { s.consume i with ring := ring, buf := buf } := by
  unfold System.consume
  dsimp only
  cases h : (s.consumer i).pc with
  | wait =>
    dsimp only
    split_ifs
    · rfl
    · rfl
  | call j v =>
    dsimp only
    split_ifs
    · rfl
    · rfl

theorem recvLoop_snd (mem : ℕ → ℕ → UInt8) (ring : DpaRing) (cur n : ℕ) :
    (recvLoop m mem ring n cur).2 = (dpaRingNext ring)^[n] cur := by
  induction n generalizing cur with
  | zero => rfl
  | succ n ih => exact ih _

theorem rawRecvProcIntel_loop (mem : ℕ → ℕ → UInt8) (ring : DpaRing) :
    rawRecvProcIntel m mem ring =
      ({ ring with
          avail := ring.avail - min ring.avail pktPerProcess
          cur := (dpaRingNext ring)^[min ring.avail pktPerProcess] ring.cur },
        (recvLoop m mem ring (min ring.avail pktPerProcess) ring.cur).1) := by
  unfold rawRecvProcIntel
  by_cases h0 : ring.avail = 0
  · have hmin : min ring.avail pktPerProcess = 0 := by
      rw [h0]
      exact Nat.zero_min _
    rw [if_pos h0, hmin]
    rfl
  · rw [if_neg h0, ← recvLoop_snd (m := m) mem]

/-- What the thread has been given is what the ring has handed it: all that was delivered, and the
batch in hand. -/
structure PipelineInv (cfg : Config) (N k : ℕ) (drv : Intel) (m : DpaModule) (seen : List Packet)
    (q : Fifo (Frame (ℕ → UInt8))) (p : Pipeline) : Prop where
  carries : Carries N drv m p.traffic q
  inv : Inv cfg k seen (p.system m)
  advances : p.dup.stage ≠ .poll → Advances p.traffic.queue.ring
    (min p.traffic.queue.ring.avail dupPktPerProcess) (p.system m)
  input : p.dup.record.input = (q.received ++ if p.dup.stage = .poll then [] else
    q.pending.take (min p.traffic.queue.ring.avail dupPktPerProcess)).map packetOf

namespace PipelineInv

variable {p p' : Pipeline} {q : Fifo (Frame (ℕ → UInt8))}

/-- Whatever goes on behind the back of the thread, its ring is the one it knows. -/
theorem background {t' : Traffic (ℕ → UInt8)} (h : PipelineInv cfg N k drv m seen q p)
    (hring : t'.queue.ring = p.traffic.queue.ring) (hq : Carries N drv m t' q) :
    PipelineInv cfg N k drv m seen q { p with traffic := t' } := by
  have hsys : ({ p with traffic := t' } : Pipeline).system m =
      { p.system m with buf := fun b ↦ t'.mem (m.bufs.paddr b) } := by
    unfold Pipeline.system Pipeline.buf
    rw [hring]
  have hadv (hrun : p.dup.stage ≠ .poll) : Advances t'.queue.ring
      (min t'.queue.ring.avail dupPktPerProcess) (({ p with traffic := t' } : Pipeline).system m) := by
    rw [hsys, hring]
    exact (h.advances hrun).of_stage rfl rfl rfl rfl rfl
  refine ⟨hq, ?_, hadv, ?_⟩
  · refine h.inv.withInput fun hrun ↦ ?_
    have hrest := rest_of_advances (p := { p with traffic := t' }) hq hrun (hadv hrun)
    refine hrest.trans (Eq.trans ?_ (rest_of_advances h.carries hrun (h.advances hrun)).symm)
    rw [hring]
  · rw [hring]
    exact h.input

theorem idle {t' : Traffic (ℕ → UInt8)} {q' : Fifo (Frame (ℕ → UInt8))}
    (h : PipelineInv cfg N k drv m seen q p) (hpc : p.dup.producer.pc = .poll)
    (hq : Carries N drv m t' q') (hdel : t'.delivered = p.traffic.delivered) :
    PipelineInv cfg N k drv m seen q' { p with traffic := t' } := by
  have hstage : p.dup.stage = .poll := by
    rw [System.stage, hpc]
    rfl
  refine ⟨hq, h.inv.withInput fun hrun ↦ absurd hstage hrun, fun hrun ↦ absurd hstage hrun, ?_⟩
  have hin := h.input
  rw [if_pos hstage] at hin
  change p.dup.record.input = (q'.received ++ if p.dup.stage = Stage.poll then [] else _).map packetOf
  rw [if_pos hstage, hin, hq.received, hdel, h.carries.received]

theorem begin (h : PipelineInv cfg N k drv m seen q p) (hpc : p.dup.producer.pc = .poll) :
    PipelineInv cfg N k drv m seen q (p.begin m) := by
  have hstage : p.dup.stage = .poll := by
    rw [System.stage, hpc]
    rfl
  have hin := h.input
  rw [if_pos hstage, List.append_nil] at hin
  have hinv := h.inv.startBatch hpc p.traffic.queue.ring (p.buf m)
  have hsys : (p.begin m).system m = (p.system m).startBatch p.traffic.queue.ring (p.buf m) :=
    startBatch_reads _ _ _
  by_cases havail : p.traffic.queue.ring.avail = 0
  · have hdup : (p.begin m).dup = p.system m := startBatch_empty _ _ havail
    refine ⟨h.carries, hsys ▸ hinv, ?_, ?_⟩
    · rw [hdup]
      exact fun hrun ↦ absurd hstage hrun
    · rw [hdup, if_pos (show (p.system m).stage = .poll from hstage), List.append_nil]
      exact hin
  · obtain ⟨hproducer, hinput⟩ := startBatch_some (p.system m) (p.buf m) havail
    have hstage' : (p.begin m).dup.stage = .take := congrArg (fun c ↦ c.pc.stage) hproducer
    have hadv := advances_begin (p.system m) p.traffic.queue.ring (p.buf m)
    have hall := batch_of_carries (m := m) (n := min p.traffic.queue.ring.avail dupPktPerProcess)
      h.carries (Nat.zero_le _) (min_le_left _ _)
    rw [pos_zero (cur_lt_of_carries h.carries), Nat.sub_zero, List.drop_zero] at hall
    refine ⟨h.carries, hsys ▸ hinv, fun _ ↦ ?_, ?_⟩
    · exact hadv.of_stage rfl (congrArg Producer.cur hproducer) (congrArg Producer.rx hproducer)
        (congrArg Producer.numProc hproducer) (congrArg (fun c ↦ c.pc.stage) hproducer)
    · rw [hstage', if_neg (fun hne ↦ by cases hne), List.map_append, ← hin]
      exact hinput.trans (congrArg _ hall)

theorem inside (h : PipelineInv cfg N k drv m seen q p) (hpc : p.dup.producer.pc ≠ .finish) :
    ∃ seen', PipelineInv cfg N k drv m seen' q (p.produce cfg m) := by
  obtain ⟨seen', hinv⟩ := h.inv.produce
  have hring : ((p.system m).produce cfg).ring = p.traffic.queue.ring :=
    produce_same_input (s := p.system m) hpc
  have htraffic : (p.produce cfg m).traffic = p.traffic := by
    unfold Pipeline.produce
    simp only [hring, hpc, if_false]
  have hinput : (p.produce cfg m).dup.record.input = p.dup.record.input := produce_keeps.2
  have hsys : (p.produce cfg m).system m = (p.system m).produce cfg := produce_system p
  refine ⟨seen', ?_, hsys ▸ hinv, ?_, ?_⟩
  · rw [htraffic]
    exact h.carries
  · intro hrun
    rw [htraffic, hsys]
    exact (h.advances (mt (stage_produce (s := p.system m) hpc).2 hrun)).produce
  · rw [htraffic, hinput, h.input]
    exact congrArg (fun l ↦ (q.received ++ l).map packetOf)
      (if_congr (stage_produce (s := p.system m) hpc).symm rfl rfl)

/-- The end of a batch hands back what a round of `raw_recv_proc_intel` does. -/
theorem finish (h : PipelineInv cfg N k drv m seen q p) (hpc : p.dup.producer.pc = .finish) :
    ∃ seen', PipelineInv cfg N k drv m seen'
      (q.pop (min p.traffic.queue.ring.avail pktPerProcess)) (p.produce cfg m) := by
  obtain ⟨seen', hinv⟩ := h.inv.produce
  have hsys : (p.produce cfg m).system m = (p.system m).produce cfg := produce_system p
  have hflushing : p.dup.stage = .flushing := by
    rw [System.stage, hpc]
    rfl
  have hrun : p.dup.stage ≠ .poll := by
    rw [hflushing]
    exact fun h ↦ by cases h
  have hadv := h.advances hrun
  have hrx : p.dup.producer.rx = min p.traffic.queue.ring.avail pktPerProcess :=
    hadv.flushing hflushing
  have hfinish : (p.system m).produce cfg = (p.system m).finish := by
    rw [System.produce, show (p.system m).producer.pc = .finish from hpc]
  have hidle : (p.produce cfg m).dup.stage = .poll := by
    change ((p.system m).produce cfg).stage = .poll
    rw [hfinish]
    rfl
  have htraffic : (p.produce cfg m).traffic = p.traffic.recv m := by
    have hring : ((p.system m).produce cfg).ring = _ := hadv.produce.done hidle
    unfold Pipeline.produce Traffic.recv
    simp only [rawRecvProcIntel_loop, hring, hpc, if_true, hrx]
    rfl
  refine ⟨seen', ?_, hsys ▸ hinv, fun hne ↦ absurd hidle hne, ?_⟩
  · rw [htraffic]
    exact h.carries.recv
  · have hinput : (p.produce cfg m).dup.record.input = p.dup.record.input := produce_keeps.2
    rw [hidle, if_pos rfl, List.append_nil, hinput, h.input, if_neg hrun]
    rfl

theorem consume (h : PipelineInv cfg N k drv m seen q p) (i : ℕ) :
    PipelineInv cfg N k drv m seen q (p.consume i) := by
  have hsys : (p.consume i).system m = (p.system m).consume i :=
    (consume_input p.dup p.traffic.queue.ring (p.buf m) i).symm
  have hstage : (p.consume i).dup.stage = p.dup.stage :=
    congrArg ProducerPc.stage (consume_pc p.dup i)
  have hinput : (p.consume i).dup.record.input = p.dup.record.input :=
    congrArg Front.input (consume_same p.dup i).front
  refine ⟨h.carries, ?_, ?_, ?_⟩
  · rw [hsys]
    exact h.inv.consume i
  · rw [hstage, hsys]
    exact fun hrun ↦ (h.advances hrun).consume i
  · rw [hstage, hinput]
    exact h.input

theorem step (h : PipelineInv cfg N k drv m seen q p) (hs : Pipeline.Step cfg drv m p p') :
    ∃ seen' q', PipelineInv cfg N k drv m seen' q' p' := by
  cases hs with
  | receive d contents hne hd =>
    exact ⟨seen, q, h.background rfl (h.carries.receive contents hne hd)⟩
  | reset =>
    obtain ⟨o, a, c, hc, -⟩ := h.carries.wired
    obtain ⟨-, hring, -⟩ := hc.resettable.reset_fields drv
    exact ⟨seen, q, h.background hring h.carries.reset⟩
  | poll carrier s' hpc hpoll =>
    obtain ⟨q', -, hq'⟩ := h.carries.step (.poll p.traffic carrier s' hpoll)
    exact ⟨seen, q', h.idle hpc hq' rfl⟩
  | rxSync carrier code s' hpc hs =>
    exact ⟨seen, _, h.idle hpc (h.carries.rxSync hs) rfl⟩
  | begin hpc => exact ⟨seen, q, h.begin hpc⟩
  | produce =>
    by_cases hpc : p.dup.producer.pc = .finish
    · obtain ⟨seen', h'⟩ := h.finish hpc
      exact ⟨seen', _, h'⟩
    · obtain ⟨seen', h'⟩ := h.inside hpc
      exact ⟨seen', q, h'⟩
  | consume i _ => exact ⟨seen, q, h.consume i⟩

theorem run (h : PipelineInv cfg N k drv m seen q p)
    (hr : ReflTransGen (Pipeline.Step cfg drv m) p p') :
    ∃ seen' q', PipelineInv cfg N k drv m seen' q' p' := by
  induction hr with
  | refl => exact ⟨seen, q, h⟩
  | tail _ hs ih =>
    obtain ⟨seen₁, q₁, h₁⟩ := ih
    exact h₁.step hs

end PipelineInv

structure Pipeline.Initial (cfg : Config) (N k : ℕ) (drv : Intel) (m : DpaModule) (p : Pipeline) :
    Prop where
  thread : Duplicator.Initial cfg k (p.system m)
  queue : ∃ s mem filled, Registered N m s ∧ OwnBuffers N m s ∧ s.ring.numSlots = N ∧
    p.traffic = (Traffic.start s mem filled).reset drv m

theorem Pipeline.Initial.inv {p : Pipeline} (hk : k ≤ 30) (h : p.Initial cfg N k drv m) :
    PipelineInv cfg N k drv m [] Fifo.empty p := by
  obtain ⟨s, mem, filled, hs, hb, hnum, htraffic⟩ := h.queue
  have hstage : p.dup.stage = .poll := by
    rw [System.stage, show p.dup.producer.pc = .poll from h.thread.pc]
    rfl
  have hinput : p.dup.record.input = [] := congrArg Record.input h.thread.record
  refine ⟨?_, h.thread.inv hk, fun hrun ↦ absurd hstage hrun, ?_⟩
  · rw [htraffic]
    exact hs.carries hb hnum mem filled
  · rw [hinput, if_pos hstage]
    rfl

/-- To the thread and the consumers the hardware and the driver are input. -/
theorem Pipeline.Step.system {p p' : Pipeline} (hs : Step cfg drv m p p') :
    Duplicator.Step cfg (p.system m) (p'.system m) ∨
      ∃ ring buf, p'.system m = { p.system m with ring := ring, buf := buf } := by
  cases hs with
  | receive | reset | poll | rxSync => exact .inr ⟨_, _, rfl⟩
  | begin hpc =>
    have hsys : (p.begin m).system m = (p.system m).startBatch p.traffic.queue.ring (p.buf m) :=
      startBatch_reads _ _ _
    exact .inl (hsys ▸ .poll _ _ _ hpc)
  | produce =>
    have hsys : (p.produce cfg m).system m = (p.system m).produce cfg := produce_system p
    exact .inl (hsys ▸ .produce _)
  | consume i hi =>
    have hsys : (p.consume i).system m = (p.system m).consume i :=
      (consume_input p.dup p.traffic.queue.ring (p.buf m) i).symm
    exact .inl (hsys ▸ .consume _ i hi)

/-- A run of the pipeline in which the consumer of copy `i` is to give back the packets `shown`. -/
structure PipelineServing (cfg : Config) (N k i : ℕ) (drv : Intel) (m : DpaModule)
    (shown : List Packet) (p : Pipeline) : Prop where
  inv : ∃ seen q, PipelineInv cfg N k drv m seen q p
  serving : Serving cfg k i shown (p.system m)

namespace PipelineServing

variable {p p' : Pipeline} {shown : List Packet}

theorem consume (h : PipelineServing cfg N k i drv m shown p) (hi : i < cfg.copies) :
    PipelineServing cfg N k i drv m shown (p.consume i) ∧
      (((p.consume i).system m).copyAt i).left shown.length ≤
        ((p.system m).copyAt i).left shown.length - 1 := by
  obtain ⟨seen, q, hinv⟩ := h.inv
  obtain ⟨hserving, hleft⟩ := h.serving.consume hi i
  have hsys : (p.consume i).system m = (p.system m).consume i :=
    (consume_input p.dup p.traffic.queue.ring (p.buf m) i).symm
  rw [if_pos rfl] at hleft
  rw [hsys]
  exact ⟨⟨⟨seen, q, hinv.consume i⟩, hsys ▸ hserving⟩, hleft⟩

theorem step (h : PipelineServing cfg N k i drv m shown p) (hi : i < cfg.copies)
    (hs : Pipeline.Step cfg drv m p p') :
    PipelineServing cfg N k i drv m shown p' ∧
      ((p'.system m).copyAt i).left shown.length ≤ ((p.system m).copyAt i).left shown.length := by
  obtain ⟨seen, q, hinv⟩ := h.inv
  obtain ⟨seen', q', hinv'⟩ := hinv.step hs
  obtain hown | ⟨ring, buf, hinput⟩ := hs.system
  · obtain ⟨hserving, hleft⟩ := h.serving.step hi hown
    exact ⟨⟨⟨seen', q', hinv'⟩, hserving⟩, hleft⟩
  · refine ⟨⟨⟨seen', q', hinv'⟩, ⟨seen', hinv'.inv⟩, ?_, ?_⟩, ?_⟩
    · rw [hinput]
      exact h.serving.accepted
    · rw [hinput]
      exact h.serving.published
    · rw [hinput]
      exact le_rfl

theorem run {n : ℕ} (h : PipelineServing cfg N k i drv m shown p) (hi : i < cfg.copies)
    (hr : RunWith (Pipeline.Step cfg drv m) (fun t ↦ t.consume i) n p p') :
    PipelineServing cfg N k i drv m shown p' ∧
      ((p'.system m).copyAt i).left shown.length ≤
        ((p.system m).copyAt i).left shown.length - n :=
  hr.spends (m := fun t ↦ ((t.system m).copyAt i).left shown.length)
    (fun _ ht ↦ ht.consume hi) (fun _ _ hs ht ↦ ht.step hi hs) h

end PipelineServing

theorem Counted.length (h : Counted cfg s) :
    s.targs.packets + s.targs.errPackets = s.record.input.length := by
  rw [h.packets, h.errPackets]
  exact (List.length_eq_length_filter_add cfg.valid).symm

section

variable {p : Pipeline} {q : Fifo (Frame (ℕ → UInt8))}

theorem PipelineInv.drained (h : PipelineInv cfg N k drv m seen q p)
    (h0 : p.traffic.queue.ring.avail = 0) : p.traffic.delivered = p.traffic.harvested := by
  have hpending : q.pending = [] := by
    rw [h.carries.pending, Traffic.window, h0]
    rfl
  rw [← h.carries.received, ← h.carries.sent]
  exact q.received_eq hpending

theorem PipelineInv.handsOver {t : Pipeline} (h : PipelineInv cfg N k drv m seen q p)
    (hi : i < cfg.copies)
    (hr : RunWith (Pipeline.Step cfg drv m) (fun t ↦ t.consume i) n p t)
    (hn : 2 * (p.dup.queue i).size + 1 ≤ n) :
    p.dup.record.delivered i ++ p.dup.queued i <+: t.dup.record.delivered i := by
  have hserving := h.inv.serving hi
  obtain ⟨ht, hleft⟩ := PipelineServing.run ⟨⟨seen, q, h⟩, hserving⟩ hi hr
  exact (hserving.served_after ht.serving hi hleft hn).1

end

end Dpa.Duplicator
