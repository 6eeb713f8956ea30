import Dpa.Duplicator.Invariant

namespace Dpa.Duplicator

open Relation Function VolatileLoad MachineWord Cyclic Kernel

variable {cfg : Config} {k i r f d u : ℕ} {seen : List Packet} {s s' s₀ : System}

theorem Inv.startBatch (h : Inv cfg k seen s) (hpc : s.producer.pc = .poll) (ring : DpaRing)
    (buf : ℕ → ℕ → UInt8) : Inv cfg k seen (s.startBatch ring buf) := by
  have hf : FrontInv cfg seen .poll s.front := by
    have := h.front
    rwa [System.stage, hpc] at this
  unfold System.startBatch
  by_cases h0 : ring.avail = 0
  · simp only [h0, if_true]
    refine h.onFront (fun _ ↦ rfl) hpc hpc (fun _ _ _ ↦ id) ?_ (fun _ _ ↦ rfl)
    exact ⟨hf.input, fun h ↦ Stage.noConfusion h, fun h ↦ Stage.noConfusion h, hf.idle, hf.errPkt, hf.packets, hf.bytes, hf.errPackets,
      hf.errBytes⟩
  · simp only [h0, if_false]
    exact h.onFront (fun _ ↦ rfl) hpc rfl (fun _ _ _ ↦ CopyInv.steady) (hf.begin ring buf _) (fun _ _ ↦ rfl)

theorem valid_current (s : System) : cfg.valid s.current = true ↔
    ¬(s.inSlot.len > cfg.maxPktSize ∨ s.inSlot.len = 0) := by
  unfold Config.valid
  rw [decide_eq_true_iff]
  change 0 < s.inSlot.len ∧ s.inSlot.len ≤ cfg.maxPktSize ↔ _
  omega

theorem Inv.take (h : Inv cfg k seen s) (hpc : s.producer.pc = .take) :
    ∃ seen', Inv cfg k seen' (s.take cfg) := by
  have hf : FrontInv cfg seen .take s.front := by
    have := h.front
    rwa [System.stage, hpc] at this
  unfold System.take
  by_cases hlt : s.producer.rx < s.producer.numProc
  · rw [if_pos hlt]
    by_cases hv : s.inSlot.len > cfg.maxPktSize ∨ s.inSlot.len = 0
    · rw [if_pos hv]
      have hinv : cfg.valid s.current = false := by
        rw [Bool.eq_false_iff, ne_eq, valid_current, not_not]
        exact hv
      refine ⟨seen ++ [s.current], h.onFront (fun _ ↦ rfl) hpc hpc (fun _ _ _ ↦ id)
        (hf.reject hlt hinv) ?_⟩
      intro j _
      simp [hinv, ProducerPc.Done]
    · rw [if_neg hv]
      exact ⟨seen, h.onFront (fun _ ↦ rfl) hpc rfl (fun _ _ _ ↦ id)
        (hf.accept hlt ((valid_current s).2 hv)) (fun _ _ ↦ by simp [ProducerPc.Done])⟩
  · rw [if_neg hlt]
    exact ⟨seen, h.onFront (fun _ ↦ rfl) hpc rfl (fun _ _ _ ↦ id) (hf.drained (not_lt.1 hlt))
      (fun _ _ ↦ rfl)⟩

theorem Inv.advance (h : Inv cfg k seen s) (hpc : s.producer.pc = .copy i) (hi : ¬i < cfg.copies) :
    Inv cfg k (seen ++ [s.current]) (s.copy cfg i) := by
  have hf : FrontInv cfg seen .copying s.front := by
    have := h.front
    rwa [System.stage, hpc] at this
  unfold System.copy
  rw [if_neg hi]
  refine h.onFront (fun _ ↦ rfl) hpc rfl (fun _ _ _ ↦ id) hf.advance ?_
  intro j hj
  have hv : cfg.valid s.current = true := (hf.current rfl).2
  have hji : j < i := by omega
  simp [hv, hji, ProducerPc.Done]

theorem Inv.finish (h : Inv cfg k seen s) (hpc : s.producer.pc = .finish) :
    Inv cfg k seen s.finish := by
  have hf : FrontInv cfg seen .flushing s.front := by
    have := h.front
    rwa [System.stage, hpc] at this
  exact h.onFront (fun _ ↦ rfl) hpc rfl (fun _ _ _ ↦ id) (hf.finish _) (fun _ _ ↦ rfl)

theorem Inv.produce (h : Inv cfg k seen s) : ∃ seen', Inv cfg k seen' (s.produce cfg) := by
  unfold System.produce
  cases hpc : s.producer.pc with
  | poll => exact ⟨seen, h⟩
  | take => exact h.take hpc
  | copy i =>
    by_cases hi : i < cfg.copies
    · exact ⟨seen, h.copy hpc hi⟩
    · exact ⟨_, h.advance hpc hi⟩
  | refill i => exact ⟨seen, h.refill hpc⟩
  | store i => exact ⟨seen, h.store hpc⟩
  | publish i => exact ⟨seen, h.publish hpc⟩
  | refresh i => exact ⟨seen, h.refresh hpc⟩
  | flush i =>
    by_cases hi : i < cfg.copies
    · exact ⟨seen, h.flush hpc hi⟩
    · refine ⟨seen, ?_⟩
      simp only [System.flush, if_neg hi]
      refine h.onFront (fun _ ↦ rfl) hpc rfl ?_ ?_ (fun _ _ ↦ rfl)
      · intro j hj c hc
        rwa [ProducerPc.phase, if_pos (by omega)] at hc
      · have := h.front
        rwa [System.stage, hpc] at this
  | flushed i => exact ⟨seen, h.flushed hpc⟩
  | finish => exact ⟨seen, h.finish hpc⟩

theorem Inv.step (h : Inv cfg k seen s) (hs : Step cfg s s') : ∃ seen', Inv cfg k seen' s' := by
  cases hs with
  | poll ring buf hpc => exact ⟨seen, h.startBatch hpc ring buf⟩
  | produce => exact h.produce
  | consume i _ => exact ⟨seen, h.consume i⟩

theorem Initial.inv (hk : k ≤ 30) (h : Initial cfg k s) : Inv cfg k [] s where
  front := by
    have hst : s.stage = .poll := by rw [System.stage, h.pc]; rfl
    rw [hst]
    refine ⟨?_, by simp, by simp, fun _ ↦ ⟨h.errPkt, h.errBytes, h.bytes⟩, ?_, ?_, ?_, ?_, ?_⟩
    · exact congrArg Record.input h.record
    · exact h.errPkt.le
    · simp [System.front, h.targs, h.errPkt, Front.taken]
    · simp [System.front, h.targs, h.bytes]
    · simp [System.front, h.targs, h.errPkt]
    · simp [System.front, h.targs, h.errBytes]
  copies := by
    intro i hi
    obtain ⟨q, queueId, slotSize, slotOffs, hq⟩ := h.queue i hi
    have hN := Nat.two_pow_pos k
    have hat : At k (pos (2 ^ k) 0 0) 0 (s.queue i) := by
      rw [hq, pos_zero hN]
      exact At.init hk q queueId slotSize slotOffs
    have hlog : (s.copyAt i).log = [] := congrArg (fun r ↦ r.log i) h.record
    have hdel : (s.copyAt i).delivered = [] := congrArg (fun r ↦ r.delivered i) h.record
    have hl : Layout k 0 0 0 0 (s.copyAt i) := by
      refine ⟨hat, hN, ?_, ?_, le_rfl, ?_, ?_, ?_⟩
      · exact (h.widx i hi).trans hat.widx
      · rw [pos_zero hN]
        exact (congrArg Consumer.ridx (h.consumer i hi)).trans hat.ridx
      · change (s.consumer i).pc.Stands 0 0
        rw [h.consumer i hi]
        rfl
      · rw [Copy.accepted, hlog, hdel]
        rfl
      · rw [Copy.refused, hlog]
        change (s.queue i).dropPackets = 0
        rw [hq]
        rfl
    rw [h.pc]
    refine ⟨0, 0, 0, 0, hl, 2 ^ k - 1, ?_, by omega, rfl⟩
    exact (h.wavali i hi).trans hl.writeAvali
  log := by
    intro i hi
    have hlog : (s.copyAt i).log = [] := congrArg (fun r ↦ r.log i) h.record
    rw [h.pc, hlog]
    rfl

theorem run_inv (hk : k ≤ 30) (h0 : Initial cfg k s₀) (hr : ReflTransGen (Step cfg) s₀ s) :
    ∃ seen, Inv cfg k seen s := by
  induction hr with
  | refl => exact ⟨[], h0.inv hk⟩
  | tail _ hs ih =>
    obtain ⟨seen, hinv⟩ := ih
    exact hinv.step hs

/-- The index of the `j`-th slot, from the read index, that the consumer has not released. -/
def System.unreleased (s : System) (i j : ℕ) : Int32 :=
  Int32.ofNat (pos (s.queue i).size (s.queue i).ridx.toInt.toNat j)

def System.queued (s : System) (i : ℕ) : List Packet :=
  let r := (s.consumer i).ridx.toInt.toNat
  let w := (s.queue i).widx.toInt.toNat
  (List.range (ahead (s.queue i).size r w)).map fun j ↦
    (s.slots i (Int32.ofNat (pos (s.queue i).size r j))).view

structure NoOverwrite (cfg : Config) (s : System) (i : ℕ) : Prop where
  inRange : s.producer.pc = .store i →
    0 ≤ (s.producer.widx i).toInt ∧ (s.producer.widx i).toInt < (s.queue i).numSlots.toInt
  store : s.producer.pc = .store i →
    ∀ j < (s.queue i).filled, s.producer.widx i ≠ s.unreleased i j
  produce : ∀ j < (s.queue i).filled,
    (s.produce cfg).slots i (s.unreleased i j) = s.slots i (s.unreleased i j)

/-- The log of copy `i` gives every valid packet met so far one verdict, in input order. What
was delivered is the beginning of what was accepted, and the rest was counted as dropped. -/
structure InOrder (cfg : Config) (s : System) (i : ℕ) : Prop where
  delivered : s.record.delivered i <+: ((s.record.log i).filter Prod.snd).map Prod.fst
  log : (s.record.log i).map Prod.fst <+: s.record.input.filter cfg.valid
  dropPackets : (s.queue i).dropPackets = ((s.record.log i).filter fun x ↦ !x.2).length

structure Balanced (cfg : Config) (s : System) (i : ℕ) : Prop where
  log : (s.record.log i).map Prod.fst = s.record.input.filter cfg.valid
  accepted : ((s.record.log i).filter Prod.snd).map Prod.fst = s.record.delivered i ++ s.queued i
  packets : (s.record.delivered i).length + (s.queued i).length + (s.queue i).dropPackets =
    s.targs.packets

structure Counted (cfg : Config) (s : System) : Prop where
  packets : s.targs.packets = (s.record.input.filter cfg.valid).length
  bytes : s.targs.bytes = ((s.record.input.filter cfg.valid).map Packet.len).sum
  errPackets : s.targs.errPackets = (s.record.input.filter fun p ↦ !cfg.valid p).length
  errBytes : s.targs.errBytes = ((s.record.input.filter fun p ↦ !cfg.valid p).map Packet.len).sum

theorem produce_slots (h : ∀ j, s.producer.pc ≠ .store j) : (s.produce cfg).slots = s.slots := by
  unfold System.produce
  cases hpc : s.producer.pc with
  | poll => rfl
  | take =>
    simp only [System.take]
    split_ifs <;> rfl
  | copy j =>
    simp only [System.copy]
    split_ifs <;> rfl
  | refill j =>
    simp only [System.refill]
    split_ifs <;> rfl
  | store j => exact absurd hpc (h j)
  | publish j => rfl
  | refresh j => rfl
  | flush j =>
    simp only [System.flush]
    split_ifs <;> rfl
  | flushed j => rfl
  | finish => rfl

theorem CopyInv.noOverwrite (h : ∀ j < cfg.copies, CopyInv k (s.producer.pc.phase j) (s.copyAt j))
    (hi : i < cfg.copies) : NoOverwrite cfg s i := by
  have hstore (hpc : s.producer.pc = .store i) :
      (0 ≤ (s.producer.widx i).toInt ∧ (s.producer.widx i).toInt < (s.queue i).numSlots.toInt) ∧
        ∀ j < (s.queue i).filled, s.producer.widx i ≠ s.unreleased i j := by
    have hc := h i hi
    rw [hpc, ProducerPc.phase, if_pos rfl] at hc
    obtain ⟨r, f, d, u, hl, a, ha, hfa, hua⟩ := hc
    have hk := two_pow_le hl.queue.bound
    have hlt := pos_lt (a := r) (i := f + u) (Nat.two_pow_pos k)
    have hw : s.producer.widx i = Int32.ofNat (pos (2 ^ k) r (f + u)) := hl.widx
    have hn : (s.queue i).numSlots = Int32.ofNat (2 ^ k) := hl.queue.numSlots
    refine ⟨?_, ?_⟩
    · rw [hw, hn, Int32.toInt_ofNat_of_lt (by omega), Int32.toInt_ofNat_of_lt (by omega)]
      omega
    · intro j hj heq
      have hf : (s.queue i).filled = f := hl.filled_eq
      have hsize : (s.queue i).size = 2 ^ k := hl.queue.size_eq
      have hr : (s.queue i).ridx = Int32.ofNat r := hl.queue.ridx
      have hrlt := hl.queue.ridx_lt
      rw [hw, System.unreleased, hsize, hr, toNat_ofNat (by omega)] at heq
      exact slotIdx_ne hl.queue.bound (by omega) hl.fits heq.symm
  refine ⟨fun hpc ↦ (hstore hpc).1, fun hpc ↦ (hstore hpc).2, ?_⟩
  intro j hj
  by_cases hpc : ∃ i', s.producer.pc = .store i'
  · obtain ⟨i', hpc⟩ := hpc
    have hprod : s.produce cfg = s.store i' := by rw [System.produce, hpc]
    rw [hprod]
    by_cases hii : i = i'
    · subst hii
      have hne := (hstore hpc).2 j hj
      simp [System.store, System.goto, System.logVerdict, hne.symm]
    · simp [System.store, System.goto, System.logVerdict, hii]
  · rw [produce_slots fun i' h' ↦ hpc ⟨i', h'⟩]

theorem Inv.inOrder (h : Inv cfg k seen s) (hi : i < cfg.copies) : InOrder cfg s i := by
  obtain ⟨r, f, d, u, hl, _⟩ := h.copies i hi
  refine ⟨⟨_, hl.accepted.symm⟩, ?_, hl.drops⟩
  have hlog : (s.record.log i).map Prod.fst = _ := h.log i hi
  have hin : s.record.input = seen ++ s.front.remaining s.stage := h.front.input
  rw [hlog, hin, List.filter_append]
  by_cases hd : s.producer.pc.Done i
  · have hst : s.stage = .copying := by
      cases hpc : s.producer.pc with
      | copy | refill | store | publish | refresh => rw [System.stage, hpc]; rfl
      | poll | take | flush | flushed | finish => simp [hpc, ProducerPc.Done] at hd
    have hcur := h.front.current hst
    have hrem : s.front.remaining s.stage =
        s.current :: batch s.ring s.buf (dpaRingNext s.ring s.producer.cur)
          (s.producer.numProc - (s.producer.rx + 1)) := by
      rw [hst]
      exact batch_cons s.front hcur.1
    have hv : cfg.valid s.current = true := hcur.2
    rw [if_pos hd, hrem, List.filter_cons_of_pos hv]
    exact ⟨_, List.append_assoc _ _ _⟩
  · rw [if_neg hd, List.append_nil]
    exact List.prefix_append _ _

theorem Layout.queued (h : Layout k r f d u (s.copyAt i)) :
    s.queued i = (s.copyAt i).between k r d f := by
  have hk := two_pow_le h.queue.bound
  have hd := h.read
  have hf := h.fits
  have hN := Nat.two_pow_pos k
  have hlt := pos_lt (a := r) (i := d) hN
  have hlt' := pos_lt (a := r) (i := f) hN
  have hsize : (s.queue i).size = 2 ^ k := h.queue.size_eq
  have hw : (s.queue i).widx = Int32.ofNat (pos (2 ^ k) r f) := h.queue.widx
  have hr : (s.consumer i).ridx = Int32.ofNat (pos (2 ^ k) r d) := h.ridx
  have hpos : pos (2 ^ k) r f = pos (2 ^ k) (pos (2 ^ k) r d) (f - d) := by
    rw [pos_pos, Nat.add_sub_cancel' hd]
  have hahead : ahead (2 ^ k) (pos (2 ^ k) r d) (pos (2 ^ k) r f) = f - d := by
    rw [hpos, ahead_pos hlt (by omega)]
  rw [between_shift, Copy.between, Nat.sub_zero, ← List.range_eq_range']
  simp only [System.queued, hsize, hw, hr, toNat_ofNat (show pos (2 ^ k) r d < 2 ^ 31 by omega),
    toNat_ofNat (show pos (2 ^ k) r f < 2 ^ 31 by omega), hahead]
  rfl

theorem verdicts (l : List (Packet × Bool)) :
    ((l.filter Prod.snd).map Prod.fst).length + (l.filter fun x ↦ !x.2).length = l.length := by
  induction l with
  | nil => rfl
  | cons x l ih =>
    obtain ⟨p, b⟩ := x
    cases b with
    | false =>
      simp only [List.filter_cons, Bool.not_false, if_true, List.length_cons] at ih ⊢
      simpa [← Nat.add_assoc] using ih
    | true =>
      simp only [List.filter_cons, if_true, List.map_cons, List.length_cons] at ih ⊢
      simp only [Bool.not_true, Bool.false_eq_true, if_false]
      omega

theorem Inv.counted (h : Inv cfg k seen s) (hpc : s.producer.pc = .poll) :
    Counted cfg s ∧ s.record.input = seen := by
  have hf : FrontInv cfg seen .poll s.front := by
    have := h.front
    rwa [System.stage, hpc] at this
  obtain ⟨hep, heb, hb⟩ := hf.idle rfl
  have hin : s.record.input = seen := hf.input.trans (List.append_nil seen)
  refine ⟨⟨?_, ?_, ?_, ?_⟩, hin⟩
  · rw [hin]
    have := hf.packets
    simp only [hep, Front.taken, Nat.add_zero] at this
    exact this.symm
  · rw [hin]
    have := hf.bytes
    simp only [reduceCtorEq, if_false, hb, Nat.add_zero] at this
    exact this.symm
  · rw [hin]
    have := hf.errPackets
    rw [hep] at this
    exact this.symm
  · rw [hin]
    have := hf.errBytes
    rw [heb] at this
    exact this.symm

theorem Inv.balanced (h : Inv cfg k seen s) (hi : i < cfg.copies) (hpc : s.producer.pc = .poll) :
    Balanced cfg s i := by
  obtain ⟨hcount, hin⟩ := h.counted hpc
  have hc := h.copies i hi
  rw [hpc] at hc
  obtain ⟨r, f, d, u, hl, a, _, _, rfl⟩ := hc
  have hlog : (s.record.log i).map Prod.fst = s.record.input.filter cfg.valid := by
    have hnd : ¬ProducerPc.poll.Done i := id
    have := h.log i hi
    rwa [hpc, if_neg hnd, List.append_nil, ← hin] at this
  have hacc : ((s.record.log i).filter Prod.snd).map Prod.fst =
      s.record.delivered i ++ s.queued i := by
    rw [hl.queued]
    exact hl.accepted
  refine ⟨hlog, hacc, ?_⟩
  have hdrop : (s.queue i).dropPackets = ((s.record.log i).filter fun x ↦ !x.2).length := hl.drops
  rw [hcount.packets, ← hlog, List.length_map, ← List.length_append, ← hacc, hdrop, verdicts]

/-- One copy with two slots, of which one can be used. -/
def twoSlots : System where
  queue := fun _ ↦ dupQueueInit ⟨0, 0, 0, 0, 0, 0, 0, 0, 0⟩ 0 2 16 64
  slots := fun _ _ ↦ ⟨0, 0, fun _ ↦ 0⟩
  ring := ⟨0, 0, 0, 0, 0, 0, fun _ ↦ ⟨0, 0, 0⟩⟩
  buf := fun _ _ ↦ 0
  producer := ⟨.poll, 0, 0, 0, 0, 0, 0, fun _ ↦ 0, fun _ ↦ 1⟩
  consumer := fun _ ↦ ⟨.wait, 0⟩
  targs := ⟨0, 0, 0, 0⟩
  record := ⟨[], fun _ ↦ [], fun _ ↦ []⟩

/-- Its producer is handed a packet of one byte, an empty one and another of one byte, and
ends its batch before the consumer moves. -/
def twoSlotsServed : System :=
  (System.produce ⟨1, 16⟩)^[20]
    (twoSlots.startBatch ⟨4, 3, 0, 0, 0, 16, fun i ↦ ⟨i, if i = 1 then 0 else 1, 0⟩⟩ fun _ _ ↦ 7)

theorem twoSlots_avali : dupQueueWriteAvali.atomically (twoSlots.queue 0) = 1 := by
  decide +kernel

theorem twoSlots_initial : Initial ⟨1, 16⟩ 1 twoSlots where
  queue := fun _ _ ↦ ⟨_, 0, 16, 64, rfl⟩
  pc := rfl
  errPkt := rfl
  errBytes := rfl
  bytes := rfl
  widx := fun _ _ ↦ rfl
  wavali := fun _ _ ↦ twoSlots_avali.symm
  consumer := fun _ _ ↦ rfl
  targs := rfl
  record := rfl

theorem produce_iterate (s : System) (n : ℕ) :
    ReflTransGen (Step cfg) s ((System.produce cfg)^[n] s) := by
  induction n with
  | zero => exact .refl
  | succ n ih =>
    rw [iterate_succ_apply']
    exact ih.tail (.produce _)

theorem twoSlots_run : ReflTransGen (Step ⟨1, 16⟩) twoSlots twoSlotsServed :=
  (produce_iterate _ 20).head (.poll _ _ _ rfl)

end Dpa.Duplicator
