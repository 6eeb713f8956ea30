import Dpa.Duplicator.Copy

namespace Dpa.Duplicator

open Relation Function MachineWord Cyclic Kernel

variable {cfg : Config} {k i : ℕ} {seen : List Packet} {s s' : System}

/-- The condition `0 < len ≤ max_pkt_size` of `dup_proc_intel`. -/
def Config.valid (cfg : Config) (p : Packet) : Bool := 0 < p.len ∧ p.len ≤ cfg.maxPktSize

inductive Stage
  | poll
  | take
  | copying
  | flushing
  deriving DecidableEq

namespace ProducerPc

def stage : ProducerPc → Stage
  | .poll => .poll
  | .take => .take
  | .copy _ | .refill _ | .store _ | .publish _ | .refresh _ => .copying
  | .flush _ | .flushed _ | .finish => .flushing

def phase : ProducerPc → ℕ → Phase
  | .refill j, i => if i = j then .stale else .steady
  | .store j, i => if i = j then .ready else .steady
  | .publish j, i => if i = j then .full else .steady
  | .refresh j, i => if i = j then .stale else .steady
  | .flush j, i => if i < j then .clean else .steady
  | .flushed j, i => if i = j then .stale else if i < j then .clean else .steady
  | .finish, _ | .poll, _ => .clean
  | .take, _ | .copy _, _ => .steady

def Done : ProducerPc → ℕ → Prop
  | .copy j, i | .refill j, i | .store j, i => i < j
  | .publish j, i | .refresh j, i => i ≤ j
  | _, _ => False

instance (pc : ProducerPc) (i : ℕ) : Decidable (pc.Done i) := by
  cases pc <;> unfold Done <;> infer_instance

end ProducerPc

structure Front where
  ring : DpaRing
  buf : ℕ → ℕ → UInt8
  cur : ℕ
  rx : ℕ
  numProc : ℕ
  errPkt : ℕ
  errBytes : ℕ
  bytes : ℕ
  targs : Targs
  input : List Packet

namespace Front

def current (t : Front) : Packet := packetAt t.ring t.buf t.cur

def remaining (t : Front) : Stage → List Packet
  | .poll => []
  | _ => batch t.ring t.buf t.cur (t.numProc - t.rx)

def taken (t : Front) : Stage → ℕ
  | .poll => 0
  | _ => t.rx

end Front

namespace System

def stage (s : System) : Stage := s.producer.pc.stage

def front (s : System) : Front :=
  ⟨s.ring, s.buf, s.producer.cur, s.producer.rx, s.producer.numProc, s.producer.errPkt,
    s.producer.errBytes, s.producer.bytes, s.targs, s.record.input⟩

def copyAt (s : System) (i : ℕ) : Copy :=
  ⟨s.queue i, s.slots i, s.producer.widx i, s.producer.wavali i, s.consumer i, s.record.log i,
    s.record.delivered i⟩

end System

theorem memcpy_view (len info n : ℕ) (dst src : ℕ → UInt8) (h : len ≤ n) :
    (⟨len, info, memcpy dst src n⟩ : DupSlot).view = ⟨len, info, (List.range len).map src⟩ := by
  simp only [DupSlot.view, Packet.mk.injEq, true_and]
  apply List.map_congr_left
  intro j hj
  have hjl := List.mem_range.1 hj
  exact if_pos (by omega)

/-- Everything but copy `i` and the program counter is as before. -/
structure SameBut (i : ℕ) (s s' : System) : Prop where
  front : s'.front = s.front
  others : ∀ j, j ≠ i → s'.copyAt j = s.copyAt j

theorem goto_same (s : System) (pc : ProducerPc) (i : ℕ) : SameBut i s (s.goto pc) :=
  ⟨rfl, fun _ _ ↦ rfl⟩

theorem goto_pc (s : System) (pc : ProducerPc) : (s.goto pc).producer.pc = pc := rfl

theorem refill_same (s : System) (i : ℕ) : SameBut i s (s.refill i) := by
  unfold System.refill
  by_cases h : dupQueueWriteAvali.atomically (s.queue i) = 0
  · simp only [h, if_true]
    refine ⟨rfl, fun j hj ↦ ?_⟩
    simp [System.copyAt, System.goto, System.logVerdict, System.setQueue, System.setWavali, hj]
  · simp only [h, if_false]
    refine ⟨rfl, fun j hj ↦ ?_⟩
    simp [System.copyAt, System.goto, System.setWavali, hj]

theorem refill_copyAt (s : System) (i : ℕ) : (s.refill i).copyAt i = (s.copyAt i).refill s.current := by
  unfold System.refill Copy.refill
  by_cases h : dupQueueWriteAvali.atomically (s.queue i) = 0
  · simp [System.copyAt, System.goto, System.logVerdict, System.setQueue, System.setWavali, h,
      System.current, packetAt, System.inSlot]
  · simp [System.copyAt, System.goto, System.setWavali, h]

theorem refill_pc (s : System) (i : ℕ) : (s.refill i).producer.pc =
    if dupQueueWriteAvali.atomically (s.queue i) = 0 then .copy (i + 1) else .store i := by
  by_cases h : dupQueueWriteAvali.atomically (s.queue i) = 0
  · simp [System.refill, System.goto, h]
  · simp [System.refill, System.goto, h]

def System.newSlot (s : System) (i : ℕ) : DupSlot :=
  { len := s.inSlot.len
    info := s.inSlot.info
    packet := memcpy (s.slots i (s.producer.widx i)).packet (s.buf s.inSlot.bufIdx) s.inSlot.len }

theorem newSlot_view (s : System) (i : ℕ) : (s.newSlot i).view = s.current :=
  memcpy_view _ _ _ _ _ le_rfl

theorem store_same (s : System) (i : ℕ) : SameBut i s (s.store i) := by
  refine ⟨rfl, fun j hj ↦ ?_⟩
  simp [System.store, System.copyAt, System.goto, System.logVerdict, hj]

theorem store_copyAt (s : System) (i : ℕ) :
    (s.store i).copyAt i = (s.copyAt i).store (s.newSlot i) s.current := by
  simp [System.store, Copy.store, System.copyAt, System.goto, System.logVerdict, System.newSlot,
    System.current, System.inSlot]

theorem store_pc (s : System) (i : ℕ) : (s.store i).producer.pc =
    if dupQueueWidxOffset (s.queue i) (dupSlotIdxNext (s.queue i) (s.producer.widx i)) =
      s.producer.wavali i then .publish i else .copy (i + 1) := rfl

theorem publish_pc (s : System) (i : ℕ) : (s.publish i).producer.pc = .refresh i := rfl

theorem refresh_pc (s : System) (i : ℕ) : (s.refresh i).producer.pc = .copy (i + 1) := rfl

theorem flushed_pc (s : System) (i : ℕ) : (s.flushed i).producer.pc = .flush (i + 1) := rfl

theorem publish_same (s : System) (i : ℕ) : SameBut i s (s.publish i) := by
  refine ⟨rfl, fun j hj ↦ ?_⟩
  simp [System.publish, System.copyAt, System.goto, System.setQueue, hj]

theorem publish_copyAt (s : System) (i : ℕ) :
    (s.publish i).copyAt i = (s.copyAt i).publish (s.copyAt i).wavali := by
  simp [System.publish, Copy.publish, System.copyAt, System.goto, System.setQueue]

theorem refresh_same (s : System) (i : ℕ) : SameBut i s (s.refresh i) := by
  refine ⟨rfl, fun j hj ↦ ?_⟩
  simp [System.refresh, System.copyAt, System.goto, System.setWavali, hj]

theorem refresh_copyAt (s : System) (i : ℕ) : (s.refresh i).copyAt i = (s.copyAt i).refresh := by
  simp [System.refresh, Copy.refresh, System.copyAt, System.goto, System.setWavali]

theorem flushed_same (s : System) (i : ℕ) : SameBut i s (s.flushed i) := by
  refine ⟨rfl, fun j hj ↦ ?_⟩
  simp [System.flushed, System.copyAt, System.goto, System.setWavali, hj]

theorem flushed_copyAt (s : System) (i : ℕ) : (s.flushed i).copyAt i = (s.copyAt i).refresh := by
  simp [System.flushed, Copy.refresh, System.copyAt, System.goto, System.setWavali]

theorem flush_same (hi : i < cfg.copies) : SameBut i s (s.flush cfg i) := by
  unfold System.flush
  rw [if_pos hi]
  by_cases h : dupQueueWidxOffset (s.queue i) (s.producer.widx i) = 0
  · simp only [h, ne_eq, not_true_eq_false, if_false]
    exact goto_same s _ i
  · simp only [h, ne_eq, not_false_eq_true, if_true]
    refine ⟨rfl, fun j hj ↦ ?_⟩
    simp [System.copyAt, System.goto, System.setQueue, hj]

theorem flush_copyAt (hi : i < cfg.copies) : (s.flush cfg i).copyAt i = (s.copyAt i).flush := by
  unfold System.flush Copy.flush
  by_cases h : dupQueueWidxOffset (s.queue i) (s.producer.widx i) = 0
  · simp [System.copyAt, System.goto, h, hi]
  · simp [System.copyAt, System.goto, System.setQueue, Copy.publish, h, hi]

theorem flush_pc (hi : i < cfg.copies) : (s.flush cfg i).producer.pc = .flushed i := by
  unfold System.flush
  rw [if_pos hi]
  split_ifs <;> rfl

theorem consume_same (s : System) (i : ℕ) : SameBut i s (s.consume i) := by
  unfold System.consume
  dsimp only
  cases h : (s.consumer i).pc with
  | wait =>
    by_cases h0 : dupQueueReadAvali.atomically (s.queue i) = 0
    · simp only [h0, if_true]
      exact ⟨rfl, fun _ _ ↦ rfl⟩
    · simp only [h0, if_false]
      refine ⟨rfl, fun j hj ↦ ?_⟩
      simp [System.copyAt, hj]
  | call j v =>
    by_cases h0 : j < v
    · simp only [h0, if_true]
      refine ⟨rfl, fun j hj ↦ ?_⟩
      simp [System.copyAt, hj]
    · simp only [h0, if_false]
      refine ⟨rfl, fun j hj ↦ ?_⟩
      simp [System.copyAt, System.setQueue, hj]

theorem consume_pc (s : System) (i : ℕ) : (s.consume i).producer.pc = s.producer.pc := by
  unfold System.consume
  dsimp only
  split
  · split_ifs <;> rfl
  · split_ifs <;> rfl

theorem consume_log (s : System) (i : ℕ) : (s.consume i).record.log = s.record.log := by
  unfold System.consume
  dsimp only
  split
  · split_ifs <;> rfl
  · split_ifs <;> rfl

theorem consume_copyAt (s : System) (i : ℕ) : (s.consume i).copyAt i = (s.copyAt i).consume := by
  unfold System.consume Copy.consume
  cases h : (s.consumer i).pc with
  | wait =>
    by_cases h0 : dupQueueReadAvali.atomically (s.queue i) = 0
    · simp [System.copyAt, h, h0]
    · simp [System.copyAt, h, h0]
  | call j v =>
    by_cases h0 : j < v
    · simp [System.copyAt, h, h0]
    · simp [System.copyAt, System.setQueue, h, h0]

/-- What the producer has done with the packets `seen` that it has finished with. -/
structure FrontInv (cfg : Config) (seen : List Packet) (stage : Stage) (t : Front) : Prop where
  input : t.input = seen ++ t.remaining stage
  current : stage = .copying → t.rx < t.numProc ∧ cfg.valid t.current
  flushing : stage = .flushing → t.numProc ≤ t.rx
  idle : stage = .poll → t.errPkt = 0 ∧ t.errBytes = 0 ∧ t.bytes = 0
  errPkt : t.errPkt ≤ t.taken stage
  packets : (seen.filter cfg.valid).length + t.errPkt = t.targs.packets + t.taken stage
  bytes : ((seen.filter cfg.valid).map Packet.len).sum +
    (if stage = .copying then t.current.len else 0) = t.targs.bytes + t.bytes
  errPackets : (seen.filter fun p ↦ !cfg.valid p).length = t.targs.errPackets + t.errPkt
  errBytes : ((seen.filter fun p ↦ !cfg.valid p).map Packet.len).sum = t.targs.errBytes + t.errBytes

structure Inv (cfg : Config) (k : ℕ) (seen : List Packet) (s : System) : Prop where
  front : FrontInv cfg seen s.stage s.front
  copies : ∀ i < cfg.copies, CopyInv k (s.producer.pc.phase i) (s.copyAt i)
  log : ∀ i < cfg.copies, (s.copyAt i).log.map Prod.fst =
    seen.filter cfg.valid ++ if s.producer.pc.Done i then [s.current] else []

/-- A step that touches one copy only has to answer for that one. -/
theorem Inv.onCopy {pc pc' : ProducerPc} (h : Inv cfg k seen s) (hs : SameBut i s s')
    (hpc : s.producer.pc = pc) (hpc' : s'.producer.pc = pc') (hstage : pc'.stage = pc.stage)
    (hphase : ∀ j, j ≠ i → pc'.phase j = pc.phase j)
    (hdone : ∀ j, j ≠ i → (pc'.Done j ↔ pc.Done j))
    (hcopy : CopyInv k (pc.phase i) (s.copyAt i) → CopyInv k (pc'.phase i) (s'.copyAt i))
    (hlog : ∀ l, (s.copyAt i).log.map Prod.fst = l ++ (if pc.Done i then [s.current] else []) →
      (s'.copyAt i).log.map Prod.fst = l ++ if pc'.Done i then [s.current] else []) :
    Inv cfg k seen s' := by
  subst hpc
  subst hpc'
  refine ⟨?_, ?_, ?_⟩
  · rw [System.stage, hstage, hs.front]
    exact h.front
  · intro j hj
    by_cases hji : j = i
    · subst hji
      exact hcopy (h.copies j hj)
    · rw [hphase j hji, hs.others j hji]
      exact h.copies j hj
  · have hcur : s'.current = s.current := congrArg Front.current hs.front
    intro j hj
    rw [hcur]
    by_cases hji : j = i
    · subst hji
      exact hlog _ (h.log j hj)
    · simp only [hs.others j hji, hdone j hji]
      exact h.log j hj

theorem Inv.consume (h : Inv cfg k seen s) (i : ℕ) : Inv cfg k seen (s.consume i) := by
  refine h.onCopy (consume_same s i) rfl (consume_pc s i) rfl (fun _ _ ↦ rfl) (fun _ _ ↦ Iff.rfl)
    ?_ ?_
  · intro hc
    rw [consume_copyAt]
    exact hc.consume
  · have hl : ((s.consume i).copyAt i).log = (s.copyAt i).log := congrFun (consume_log s i) i
    intro l
    rw [hl]
    exact id

theorem Inv.refill (h : Inv cfg k seen s) (hpc : s.producer.pc = .refill i) :
    Inv cfg k seen (s.refill i) := by
  have hat := refill_copyAt s i
  refine h.onCopy (refill_same s i) hpc (refill_pc s i) ?_ ?_ ?_ ?_ ?_
  · split_ifs <;> rfl
  · intro j hj
    split_ifs <;> simp [ProducerPc.phase, hj]
  · intro j hj
    split_ifs
    · simp only [ProducerPc.Done]
      omega
    · rfl
  · intro hc
    rw [ProducerPc.phase, if_pos rfl] at hc
    have hr := hc.refill s.current
    rw [hat]
    by_cases h0 : dupQueueWriteAvali.atomically (s.queue i) = 0
    · simpa [h0, ProducerPc.phase, System.copyAt] using hr
    · simpa [h0, ProducerPc.phase, System.copyAt] using hr
  · intro l hl
    rw [hat, Copy.refill]
    by_cases h0 : dupQueueWriteAvali.atomically (s.queue i) = 0
    · simpa [h0, ProducerPc.Done, System.copyAt] using hl
    · simpa [h0, ProducerPc.Done, System.copyAt] using hl

theorem Inv.store (h : Inv cfg k seen s) (hpc : s.producer.pc = .store i) :
    Inv cfg k seen (s.store i) := by
  have hat := store_copyAt s i
  refine h.onCopy (store_same s i) hpc (store_pc s i) ?_ ?_ ?_ ?_ ?_
  · split_ifs <;> rfl
  · intro j hj
    split_ifs <;> simp [ProducerPc.phase, hj]
  · intro j hj
    split_ifs
    · simp only [ProducerPc.Done]
      omega
    · simp only [ProducerPc.Done]
      omega
  · intro hc
    rw [ProducerPc.phase, if_pos rfl] at hc
    have hr := hc.store (newSlot_view s i)
    change CopyInv k (if dupQueueWidxOffset (s.queue i)
      (dupSlotIdxNext (s.queue i) (s.producer.widx i)) = s.producer.wavali i then _ else _) _ at hr
    rw [hat]
    split_ifs with h0
    · rw [if_pos h0] at hr
      simpa [ProducerPc.phase] using hr
    · rwa [if_neg h0] at hr
  · intro l hl
    rw [hat, Copy.store]
    split_ifs with h1 h2 h2
    · simpa [ProducerPc.Done] using hl
    · simp [ProducerPc.Done] at h2
    · simpa [ProducerPc.Done] using hl
    · simp [ProducerPc.Done] at h2

theorem Inv.publish (h : Inv cfg k seen s) (hpc : s.producer.pc = .publish i) :
    Inv cfg k seen (s.publish i) := by
  refine h.onCopy (publish_same s i) hpc (publish_pc s i) rfl ?_ (fun _ _ ↦ Iff.rfl) ?_
    (fun _ ↦ id)
  · intro j hj
    simp [ProducerPc.phase, hj]
  · intro hc
    rw [publish_copyAt]
    simp only [ProducerPc.phase, if_true] at hc ⊢
    exact hc.publish

theorem Inv.refresh (h : Inv cfg k seen s) (hpc : s.producer.pc = .refresh i) :
    Inv cfg k seen (s.refresh i) := by
  refine h.onCopy (refresh_same s i) hpc (refresh_pc s i) rfl ?_ ?_ ?_ ?_
  · intro j hj
    simp [ProducerPc.phase, hj]
  · intro j hj
    simp only [ProducerPc.Done]
    omega
  · intro hc
    rw [ProducerPc.phase, if_pos rfl] at hc
    rw [refresh_copyAt]
    exact hc.refresh.steady
  · intro l hl
    rw [refresh_copyAt]
    simpa [ProducerPc.Done, Copy.refresh] using hl

theorem Inv.flush (h : Inv cfg k seen s) (hpc : s.producer.pc = .flush i) (hi : i < cfg.copies) :
    Inv cfg k seen (s.flush cfg i) := by
  refine h.onCopy (flush_same hi) hpc (flush_pc hi) rfl ?_ (fun _ _ ↦ Iff.rfl) ?_ ?_
  · intro j hj
    simp [ProducerPc.phase, hj]
  · intro hc
    rw [ProducerPc.phase, if_neg (lt_irrefl i)] at hc
    rw [flush_copyAt hi, ProducerPc.phase, if_pos rfl]
    exact hc.flush
  · intro l hl
    rw [flush_copyAt hi, Copy.flush_log]
    exact hl

theorem Inv.flushed (h : Inv cfg k seen s) (hpc : s.producer.pc = .flushed i) :
    Inv cfg k seen (s.flushed i) := by
  refine h.onCopy (flushed_same s i) hpc (flushed_pc s i) rfl ?_ (fun _ _ ↦ Iff.rfl) ?_ ?_
  · intro j hj
    have hiff : j < i + 1 ↔ j < i := by omega
    simp [ProducerPc.phase, hj, hiff]
  · intro hc
    rw [ProducerPc.phase, if_pos rfl] at hc
    rw [flushed_copyAt, ProducerPc.phase, if_pos (Nat.lt_succ_self i)]
    exact hc.refresh
  · intro l hl
    rw [flushed_copyAt]
    exact hl

theorem Inv.goto {pc pc' : ProducerPc} (i : ℕ) (h : Inv cfg k seen s) (hpc : s.producer.pc = pc)
    (hstage : pc'.stage = pc.stage) (hphase : ∀ j, j ≠ i → pc'.phase j = pc.phase j)
    (hdone : ∀ j, pc'.Done j ↔ pc.Done j)
    (hcopy : CopyInv k (pc.phase i) (s.copyAt i) → CopyInv k (pc'.phase i) (s.copyAt i)) :
    Inv cfg k seen (s.goto pc') := by
  refine h.onCopy (goto_same s pc' i) hpc (goto_pc s pc') hstage hphase (fun j _ ↦ hdone j) hcopy ?_
  intro l hl
  simp only [hdone i]
  exact hl

theorem Inv.copy (h : Inv cfg k seen s) (hpc : s.producer.pc = .copy i) (hi : i < cfg.copies) :
    Inv cfg k seen (s.copy cfg i) := by
  unfold System.copy
  rw [if_pos hi]
  by_cases h0 : s.producer.wavali i = 0
  · rw [if_pos h0]
    refine h.goto i hpc rfl ?_ (fun _ ↦ Iff.rfl) ?_
    · intro j hj
      simp [ProducerPc.phase, hj]
    · intro hc
      rw [ProducerPc.phase, if_pos rfl]
      exact hc.stale_of_zero h0
  · rw [if_neg h0]
    refine h.goto i hpc rfl ?_ (fun _ ↦ Iff.rfl) ?_
    · intro j hj
      simp [ProducerPc.phase, hj]
    · intro hc
      rw [ProducerPc.phase, if_pos rfl]
      exact hc.ready_of_ne h0

theorem Inv.onFront {seen' : List Packet} {pc pc' : ProducerPc} (h : Inv cfg k seen s)
    (hat : ∀ j, s'.copyAt j = s.copyAt j) (hpc : s.producer.pc = pc) (hpc' : s'.producer.pc = pc')
    (hphase : ∀ j < cfg.copies, ∀ c, CopyInv k (pc.phase j) c → CopyInv k (pc'.phase j) c)
    (hfront : FrontInv cfg seen' pc'.stage s'.front)
    (hlog : ∀ j < cfg.copies, seen'.filter cfg.valid ++ (if pc'.Done j then [s'.current] else []) =
      seen.filter cfg.valid ++ if pc.Done j then [s.current] else []) :
    Inv cfg k seen' s' := by
  subst hpc
  subst hpc'
  refine ⟨hfront, ?_, ?_⟩
  · intro j hj
    rw [hat j]
    exact hphase j hj _ (h.copies j hj)
  · intro j hj
    rw [hat j, hlog j hj]
    exact h.log j hj

theorem batch_cons (t : Front) (h : t.rx < t.numProc) :
    batch t.ring t.buf t.cur (t.numProc - t.rx) =
      t.current :: batch t.ring t.buf (dpaRingNext t.ring t.cur) (t.numProc - (t.rx + 1)) := by
  rw [show t.numProc - t.rx = (t.numProc - (t.rx + 1)) + 1 by omega]
  rfl

theorem FrontInv.begin {t : Front} (h : FrontInv cfg seen .poll t) (ring : DpaRing)
    (buf : ℕ → ℕ → UInt8) (n : ℕ) : FrontInv cfg seen .take { t with
      ring := ring, buf := buf, cur := ring.cur, rx := 0, numProc := n
      input := t.input ++ batch ring buf ring.cur n } where
  input := by
    have hin := h.input
    simp only [Front.remaining, List.append_nil] at hin
    rw [hin]
    rfl
  current := by simp
  flushing := by simp
  idle := by simp
  errPkt := h.errPkt
  packets := h.packets
  bytes := h.bytes
  errPackets := h.errPackets
  errBytes := h.errBytes

theorem FrontInv.reject {t : Front} (h : FrontInv cfg seen .take t) (hlt : t.rx < t.numProc)
    (hv : cfg.valid t.current = false) : FrontInv cfg (seen ++ [t.current]) .take { t with
      errPkt := t.errPkt + 1
      errBytes := t.errBytes + t.current.len
      cur := dpaRingNext t.ring t.cur
      rx := t.rx + 1 } where
  input := by
    rw [h.input, List.append_assoc]
    exact congrArg _ (batch_cons t hlt)
  current := by simp
  flushing := by simp
  idle := by simp
  errPkt := Nat.succ_le_succ h.errPkt
  packets := by
    have hp := h.packets
    simp only [Front.taken] at hp ⊢
    rw [List.filter_append, List.filter_singleton, hv]
    simpa [← Nat.add_assoc] using hp
  bytes := by simpa [hv] using h.bytes
  errPackets := by
    have he := h.errPackets
    rw [List.filter_append, List.filter_singleton, hv]
    simpa [← Nat.add_assoc] using he
  errBytes := by
    have he := h.errBytes
    rw [List.filter_append, List.filter_singleton, hv]
    simpa [← Nat.add_assoc] using he

theorem FrontInv.accept {t : Front} (h : FrontInv cfg seen .take t) (hlt : t.rx < t.numProc)
    (hv : cfg.valid t.current = true) : FrontInv cfg seen .copying { t with
      bytes := t.bytes + t.current.len } where
  input := h.input
  current := fun _ ↦ ⟨hlt, hv⟩
  flushing := by simp
  idle := by simp
  errPkt := h.errPkt
  packets := h.packets
  bytes := by
    have hb := h.bytes
    simp only [reduceCtorEq, if_false, Nat.add_zero, if_true] at hb ⊢
    rw [hb, Nat.add_assoc]
    rfl
  errPackets := h.errPackets
  errBytes := h.errBytes

theorem FrontInv.advance {t : Front} (h : FrontInv cfg seen .copying t) :
    FrontInv cfg (seen ++ [t.current]) .take { t with
      cur := dpaRingNext t.ring t.cur
      rx := t.rx + 1 } where
  input := by
    rw [h.input, List.append_assoc]
    exact congrArg _ (batch_cons t (h.current rfl).1)
  current := by simp
  flushing := by simp
  idle := by simp
  errPkt := Nat.le_succ_of_le h.errPkt
  packets := by
    have hp := h.packets
    simp only [Front.taken] at hp ⊢
    simp only [List.filter_append, List.filter_singleton, (h.current rfl).2, cond_true,
      List.length_append, List.length_singleton]
    omega
  bytes := by simpa [(h.current rfl).2] using h.bytes
  errPackets := by simpa [(h.current rfl).2] using h.errPackets
  errBytes := by simpa [(h.current rfl).2] using h.errBytes

theorem FrontInv.drained {t : Front} (h : FrontInv cfg seen .take t) (hle : t.numProc ≤ t.rx) :
    FrontInv cfg seen .flushing t where
  input := h.input
  current := by simp
  flushing := fun _ ↦ hle
  idle := by simp
  errPkt := h.errPkt
  packets := h.packets
  bytes := h.bytes
  errPackets := h.errPackets
  errBytes := h.errBytes

theorem FrontInv.finish {t : Front} (h : FrontInv cfg seen .flushing t) (ring : DpaRing) :
    FrontInv cfg seen .poll { t with
      ring := ring
      targs :=
        { packets := t.targs.packets + (t.rx - t.errPkt)
          bytes := t.targs.bytes + t.bytes
          errPackets := t.targs.errPackets + t.errPkt
          errBytes := t.targs.errBytes + t.errBytes }
      errPkt := 0
      errBytes := 0
      bytes := 0 } where
  input := by
    have hin := h.input
    simp only [Front.remaining, Nat.sub_eq_zero_of_le (h.flushing rfl), batch] at hin
    exact hin
  current := by simp
  flushing := by simp
  idle := by simp
  errPkt := Nat.zero_le _
  packets := by
    have hp := h.packets
    have he := h.errPkt
    simp only [Front.taken] at hp he ⊢
    omega
  bytes := h.bytes
  errPackets := h.errPackets
  errBytes := h.errBytes

end Dpa.Duplicator
