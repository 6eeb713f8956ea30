import Dpa.Duplicator.Bnx2Batch
import Dpa.Duplicator.Reader

namespace Dpa.Duplicator

open Relation Function MachineWord Cyclic Kernel Library

variable {cfg : Config} {k i r f d u P N : ℕ} {seen shown : List Packet} {s s' s₀ t : System}
  {c : Copy}

def Copy.published (c : Copy) : ℕ :=
  c.delivered.length + ahead c.queue.size c.consumer.ridx.toInt.toNat c.queue.widx.toInt.toNat

/-- At most so many steps of a consumer that has been handed `D` packets are left until it has given
back the first `P`. It may first have to end the round of its callback loop it is in. -/
def ConsumerPc.left (N P D : ℕ) : ConsumerPc → ℕ
  | .wait => if P ≤ D then 0 else N + 1
  | .call j v =>
    let d := j.toInt.toNat
    let n := v.toInt.toNat
    if P + d ≤ D then 0 else if P + d ≤ D + n then n - d + 1 else n - d + N + 2

def Copy.left (P : ℕ) (c : Copy) : ℕ :=
  c.consumer.pc.left c.queue.size P c.delivered.length

theorem Layout.published (h : Layout k r f d u c) :
    c.published = c.delivered.length + (f - d) := by
  have hk := two_pow_le h.queue.bound
  have hf := h.fits
  have hd := h.read
  have hN := Nat.two_pow_pos k
  have hd' := pos_lt (a := r) (i := d) hN
  have hf' := pos_lt (a := r) (i := f) hN
  have hpos : pos (2 ^ k) r f = pos (2 ^ k) (pos (2 ^ k) r d) (f - d) := by
    rw [pos_pos, Nat.add_sub_cancel' hd]
  rw [Copy.published, h.queue.size_eq, h.queue.widx, h.ridx, toNat_ofNat (by omega),
    toNat_ofNat (by omega), hpos, ahead_pos hd' (by omega)]

theorem Layout.left_le (h : Layout k r f d u c) (P : ℕ) : c.left P ≤ 2 * c.queue.size + 1 := by
  have hk := two_pow_le h.queue.bound
  have hf := h.fits
  have hs := h.stands
  rw [Copy.left, h.queue.size_eq]
  cases hpc : c.consumer.pc with
  | wait =>
    simp only [ConsumerPc.left]
    split_ifs <;> omega
  | call j v =>
    rw [hpc] at hs
    obtain ⟨rfl, n, rfl, hdn, hnf⟩ := hs
    simp only [ConsumerPc.left, toNat_ofNat (show d < 2 ^ 31 by omega),
      toNat_ofNat (show n < 2 ^ 31 by omega)]
    split_ifs <;> omega

/-- When no step is left, the first `P` packets were given back. -/
theorem Layout.given_back (h : Layout k r f d u c) (h0 : c.left P = 0) :
    P + d ≤ c.delivered.length := by
  have hk := two_pow_le h.queue.bound
  have hf := h.fits
  have hs := h.stands
  rw [Copy.left] at h0
  cases hpc : c.consumer.pc with
  | wait =>
    rw [hpc] at hs h0
    obtain rfl : d = 0 := hs
    simp only [ConsumerPc.left] at h0
    split_ifs at h0 with hP
    exact hP
  | call j v =>
    rw [hpc] at hs h0
    obtain ⟨rfl, n, rfl, hdn, hnf⟩ := hs
    simp only [ConsumerPc.left, toNat_ofNat (show d < 2 ^ 31 by omega),
      toNat_ofNat (show n < 2 ^ 31 by omega)] at h0
    split_ifs at h0 with hP
    exact hP

/-- Every step of the consumer is one of those left while a packet has to be given back. -/
theorem Layout.left_consume (h : Layout k r f d u c) (hP : P ≤ c.published) :
    c.consume.left P ≤ c.left P - 1 := by
  have hk := two_pow_le h.queue.bound
  have hf := h.fits
  have hs := h.stands
  rw [h.published] at hP
  unfold Copy.consume
  cases hpc : c.consumer.pc with
  | wait =>
    rw [hpc] at hs
    obtain rfl : d = 0 := hs
    simp only [h.queue.readAvali, h.filled_eq]
    by_cases h0 : Int32.ofNat f = 0
    · rw [if_pos h0]
      have hf0 : f = 0 := (int32_ofNat_eq_zero (by omega)).1 h0
      rw [Copy.left, hpc, ConsumerPc.left, if_pos (by omega)]
    · rw [if_neg h0]
      simp only [Copy.left, hpc, ConsumerPc.left, toNat_ofNat (show f < 2 ^ 31 by omega),
        h.queue.size_eq, show (0 : Int32).toInt.toNat = 0 from rfl]
      split_ifs <;> omega
  | call j v =>
    rw [hpc] at hs
    obtain ⟨rfl, n, rfl, hdn, hnf⟩ := hs
    simp only [int32_ofNat_lt (show d < 2 ^ 31 by omega) (show n < 2 ^ 31 by omega)]
    have hnext : (Int32.ofNat d + 1).toInt.toNat = d + 1 := by
      rw [show (1 : Int32) = Int32.ofNat 1 from rfl, ← Int32.ofNat_add, toNat_ofNat (by omega)]
    by_cases hlt : d < n
    · rw [if_pos hlt]
      simp only [Copy.left, hpc, ConsumerPc.left, hnext, toNat_ofNat (show d < 2 ^ 31 by omega),
        toNat_ofNat (show n < 2 ^ 31 by omega), List.length_append, List.length_singleton]
      split_ifs <;> omega
    · rw [if_neg hlt]
      obtain rfl : d = n := by omega
      simp only [Copy.left, hpc, ConsumerPc.left, toNat_ofNat (show d < 2 ^ 31 by omega),
        h.release.queue.size_eq, h.queue.size_eq]
      split_ifs <;> omega

theorem Layout.published_consume (h : Layout k r f d u c) : c.published ≤ c.consume.published := by
  have hk := two_pow_le h.queue.bound
  have hf := h.fits
  have hs := h.stands
  unfold Copy.consume
  cases hpc : c.consumer.pc with
  | wait =>
    dsimp only
    split_ifs
    · exact le_rfl
    · exact le_rfl
  | call j v =>
    rw [hpc] at hs
    obtain ⟨rfl, n, rfl, hdn, hnf⟩ := hs
    simp only [int32_ofNat_lt (show d < 2 ^ 31 by omega) (show n < 2 ^ 31 by omega)]
    by_cases hlt : d < n
    · rw [if_pos hlt, (h.deliver rfl hlt hnf).published, h.published, List.length_append,
        List.length_singleton]
      omega
    · rw [if_neg hlt]
      obtain rfl : d = n := by omega
      rw [h.release.published, h.published]
      exact le_rfl

theorem Layout.accepted_queued (h : Layout k r f d u (s.copyAt i)) :
    s.record.delivered i ++ s.queued i <+: s.accepted i := by
  have hd := h.read
  have hcut := between_append (s.copyAt i) k r hd (Nat.le_add_right f u)
  have hall : s.accepted i = s.record.delivered i ++ (s.copyAt i).between k r d (f + u) :=
    h.accepted
  rw [hall, hcut, h.queued, ← List.append_assoc]
  exact List.prefix_append _ _

theorem published_eq (s : System) (i : ℕ) :
    (s.copyAt i).published = (s.record.delivered i ++ s.queued i).length := by
  rw [List.length_append, System.queued, List.length_map, List.length_range]
  rfl

theorem Layout.published_publish (h : Layout k r f d u c) :
    c.published ≤ (c.publish (Int32.ofNat u)).published := by
  rw [h.publish.published, h.published]
  exact Nat.add_le_add_left (Nat.sub_le_sub_right (Nat.le_add_right f u) d) _

theorem Inv.published_produce (h : Inv cfg k seen s) (hi : i < cfg.copies) :
    (s.copyAt i).published ≤ ((s.produce cfg).copyAt i).published := by
  have hc := h.copies i hi
  unfold System.produce
  cases hpc : s.producer.pc with
  | poll => exact le_rfl
  | take =>
    simp only [System.take]
    split_ifs <;> exact le_rfl
  | copy j =>
    simp only [System.copy]
    split_ifs <;> exact le_rfl
  | refill j =>
    by_cases hj : i = j
    · subst hj
      rw [refill_copyAt]
      unfold Copy.refill
      dsimp only
      split_ifs <;> exact le_rfl
    · exact ((refill_same s j).others i hj) ▸ le_rfl
  | store j =>
    by_cases hj : i = j
    · subst hj
      rw [store_copyAt]
      exact le_rfl
    · exact ((store_same s j).others i hj) ▸ le_rfl
  | publish j =>
    by_cases hj : i = j
    · subst hj
      rw [hpc, ProducerPc.phase, if_pos rfl] at hc
      obtain ⟨r, f, d, u, hl, hv, -⟩ := hc
      rw [publish_copyAt, hv]
      exact hl.published_publish
    · exact ((publish_same s j).others i hj) ▸ le_rfl
  | refresh j => exact le_rfl
  | flush j =>
    by_cases hj : j < cfg.copies
    · by_cases hij : i = j
      · subst hij
        obtain ⟨r, f, d, u, hl, -⟩ := hc
        rw [flush_copyAt hj, Copy.flush, hl.widxOffset]
        split_ifs
        · exact hl.published_publish
        · exact le_rfl
      · exact ((flush_same hj).others i hij) ▸ le_rfl
    · dsimp only
      rw [System.flush, if_neg hj]
      exact le_rfl
  | flushed j => exact le_rfl
  | finish => exact le_rfl

/-- A run in which the consumer of copy `i` is to give back the packets `shown`. -/
structure Serving (cfg : Config) (k i : ℕ) (shown : List Packet) (s : System) : Prop where
  inv : ∃ seen, Inv cfg k seen s
  accepted : shown <+: s.accepted i
  published : shown.length ≤ (s.copyAt i).published

theorem left_produce (s : System) (i P : ℕ) :
    ((s.produce cfg).copyAt i).left P = (s.copyAt i).left P := by
  have hs : SameReader s (s.produce cfg) := sameReader_produce s
  simp only [Copy.left, System.copyAt, hs.consumer, hs.delivered, (hs.queue i).2]

namespace Serving

theorem produce (h : Serving cfg k i shown s) (hi : i < cfg.copies) :
    Serving cfg k i shown (s.produce cfg) := by
  obtain ⟨seen, hinv⟩ := h.inv
  refine ⟨hinv.produce, h.accepted.trans ?_, h.published.trans (hinv.published_produce hi)⟩
  exact ((log_produce s i).filter Prod.snd).map Prod.fst

theorem consume (h : Serving cfg k i shown s) (hi : i < cfg.copies) (j : ℕ) :
    Serving cfg k i shown (s.consume j) ∧
      ((s.consume j).copyAt i).left shown.length ≤
        (s.copyAt i).left shown.length - if j = i then 1 else 0 := by
  obtain ⟨seen, hinv⟩ := h.inv
  have haccepted : shown <+: (s.consume j).accepted i := by
    rw [System.accepted, consume_log]
    exact h.accepted
  by_cases hj : i = j
  · subst hj
    obtain ⟨r, f, d, u, hl, -⟩ := hinv.copies i hi
    rw [consume_copyAt, if_pos rfl]
    refine ⟨⟨⟨seen, hinv.consume i⟩, haccepted, ?_⟩, hl.left_consume h.published⟩
    rw [consume_copyAt]
    exact h.published.trans hl.published_consume
  · have hsame := (consume_same s j).others i hj
    rw [hsame, if_neg (Ne.symm hj)]
    refine ⟨⟨⟨seen, hinv.consume j⟩, haccepted, ?_⟩, le_rfl⟩
    rw [hsame]
    exact h.published

theorem step (h : Serving cfg k i shown s) (hi : i < cfg.copies) (hs : Step cfg s s') :
    Serving cfg k i shown s' ∧
      (s'.copyAt i).left shown.length ≤ (s.copyAt i).left shown.length := by
  cases hs with
  | poll ring buf hpc =>
    obtain ⟨seen, hinv⟩ := h.inv
    obtain ⟨hat, hlog, -⟩ := startBatch_copies s ring buf
    refine ⟨⟨⟨seen, hinv.startBatch hpc ring buf⟩, ?_, ?_⟩, ?_⟩
    · rw [System.accepted, hlog]
      exact h.accepted
    · rw [hat]
      exact h.published
    · rw [hat]
  | produce => exact ⟨h.produce hi, (left_produce s i _).le⟩
  | consume j _ =>
    obtain ⟨h', hleft⟩ := h.consume hi j
    exact ⟨h', hleft.trans (Nat.sub_le _ _)⟩

theorem run {n : ℕ} (h : Serving cfg k i shown s) (hi : i < cfg.copies)
    (hr : RunWith (Step cfg) (fun t ↦ t.consume i) n s t) :
    Serving cfg k i shown t ∧
      (t.copyAt i).left shown.length ≤ (s.copyAt i).left shown.length - n :=
  hr.spends (m := fun t ↦ (t.copyAt i).left shown.length)
    (fun t ht ↦ by simpa using ht.consume hi i) (fun t t' hs ht ↦ ht.step hi hs) h

theorem left_le (h : Serving cfg k i shown s) (hi : i < cfg.copies) (P : ℕ) :
    (s.copyAt i).left P ≤ 2 * (s.queue i).size + 1 := by
  obtain ⟨seen, hinv⟩ := h.inv
  obtain ⟨r, f, d, u, hl, -⟩ := hinv.copies i hi
  exact hl.left_le P

/-- With no step left the packets were handed over, and none of them waits to be given back. -/
theorem served (h : Serving cfg k i shown s) (hi : i < cfg.copies)
    (h0 : (s.copyAt i).left shown.length = 0) :
    shown <+: s.record.delivered i ∧
      shown.length + (s.unacked i).length ≤ (s.record.delivered i).length := by
  obtain ⟨seen, hinv⟩ := h.inv
  obtain ⟨r, f, d, u, hl, -⟩ := hinv.copies i hi
  have hd : (s.unacked i).length = d := by
    rw [System.unacked, hl.unacked, Copy.between, List.length_map, List.length_range',
      Nat.sub_zero]
  have hback : shown.length + d ≤ (s.record.delivered i).length := hl.given_back h0
  have hdelivered : s.record.delivered i <+: s.accepted i := ⟨_, hl.accepted.symm⟩
  refine ⟨List.prefix_of_prefix_length_le h.accepted hdelivered (by omega), ?_⟩
  rw [hd]
  exact hback

/-- As many steps of the consumer as may have been left at the start leave none. -/
theorem served_after {n : ℕ} (h : Serving cfg k i shown s) (ht : Serving cfg k i shown t)
    (hi : i < cfg.copies)
    (hleft : (t.copyAt i).left shown.length ≤ (s.copyAt i).left shown.length - n)
    (hn : 2 * (s.queue i).size + 1 ≤ n) :
    shown <+: t.record.delivered i ∧
      shown.length + (t.unacked i).length ≤ (t.record.delivered i).length := by
  have hmax := h.left_le hi shown.length
  have h0 := hleft.trans (Nat.sub_eq_zero_of_le (hmax.trans hn)).le
  exact ht.served hi (Nat.eq_zero_of_le_zero h0)

end Serving

theorem Inv.serving (h : Inv cfg k seen s) (hi : i < cfg.copies) :
    Serving cfg k i (s.record.delivered i ++ s.queued i) s := by
  obtain ⟨r, f, d, u, hl, -⟩ := h.copies i hi
  exact ⟨⟨seen, h⟩, hl.accepted_queued, (published_eq s i).ge⟩

/-- Once the consumer of copy `i` has taken `2 * N + 1` steps, among any others, all that was
published has been handed over and given back. -/
structure HandsOver (cfg : Config) (s : System) (i : ℕ) : Prop where
  delivered : ∀ n t, RunWith (Step cfg) (fun t ↦ t.consume i) n s t →
    2 * (s.queue i).size + 1 ≤ n → s.record.delivered i ++ s.queued i <+: t.record.delivered i
  released : ∀ n t, RunWith (Step cfg) (fun t ↦ t.consume i) n s t →
    2 * (s.queue i).size + 1 ≤ n →
      (s.record.delivered i ++ s.queued i).length + (t.unacked i).length ≤
        (t.record.delivered i).length

theorem Inv.handsOver (h : Inv cfg k seen s) (hi : i < cfg.copies) : HandsOver cfg s i := by
  have hserving := h.serving hi
  constructor
  case delivered =>
    intro n t hr hn
    obtain ⟨ht, hleft⟩ := hserving.run hi hr
    exact (hserving.served_after ht hi hleft hn).1
  case released =>
    intro n t hr hn
    obtain ⟨ht, hleft⟩ := hserving.run hi hr
    exact (hserving.served_after ht hi hleft hn).2

theorem work_intel (s : System) : work cfg (s.produce cfg) ≤ work cfg s - 1 := by
  unfold System.produce
  cases hpc : s.producer.pc with
  | poll => simp [work, hpc]
  | take =>
    unfold System.take
    by_cases hlt : s.producer.rx < s.producer.numProc
    · have hslot := work_slot (k := 5 * cfg.copies + 2) hlt
      rw [if_pos hlt]
      split_ifs
      · simp only [work, hpc]
        omega
      · simp only [work, hpc]
        omega
    · rw [if_neg hlt]
      simp only [work, hpc, System.goto]
      omega
  | copy i => exact work_copy hpc
  | refill i => exact work_refill hpc
  | store i =>
    simp only [System.store, System.goto, System.logVerdict]
    split_ifs
    · simp only [work, hpc]
      omega
    · simp only [work, hpc]
      omega
  | publish i => exact work_publish hpc
  | refresh i => exact work_refresh hpc
  | flush i => exact work_flush hpc
  | flushed i => exact work_flushed hpc
  | finish => simp only [System.finish, work, hpc, le_refl, Nat.sub_self]

theorem batch_ends (cfg : Config) (s : System) (es : List (Option ℕ))
    (hes : work cfg s ≤ es.countP Option.isNone) :
    (schedule (System.produce cfg) (fun i s ↦ s.consume i) es s).producer.pc = .poll := by
  have hconsume (i : ℕ) (s : System) : work cfg (s.consume i) = work cfg s := by
    have hproducer := (consume_front s i).2.2
    simp only [work, hproducer]
  have hspent := schedule_spends (m := work cfg) work_intel hconsume es s
  refine pc_of_work_eq_zero (Nat.eq_zero_of_le_zero (hspent.trans ?_))
  exact (Nat.sub_eq_zero_of_le hes).le

/-- Every interleaving of the producer with one consumer per copy keeps the copies safe, in
order and accounted for. Consumers that go on running are handed what is queued, and a producer
that goes on running ends its batch. -/
theorem duplicator_delivers (hk : k ≤ 30) (h0 : Initial cfg k s₀)
    (hr : ReflTransGen (Step cfg) s₀ s) :
    (∀ i < cfg.copies, NoOverwrite cfg s i ∧ InOrder cfg s i ∧ HandsOver cfg s i) ∧
      (s.producer.pc = .poll → Counted cfg s ∧ ∀ i < cfg.copies, Balanced cfg s i) ∧
      ∀ es, work cfg s ≤ es.countP Option.isNone →
        (schedule (System.produce cfg) (fun i t ↦ t.consume i) es s).producer.pc = .poll := by
  obtain ⟨seen, hinv⟩ := run_inv hk h0 hr
  refine ⟨?_, ?_, batch_ends cfg s⟩
  · intro i hi
    exact ⟨CopyInv.noOverwrite hinv.copies hi, hinv.inOrder hi, hinv.handsOver hi⟩
  · intro hpc
    exact ⟨(hinv.counted hpc).1, fun i hi ↦ hinv.balanced hi hpc⟩

/-- The consumer reads its packet and gives it back, and the producer ends a second batch. -/
def twoSlotsRead : System :=
  (System.produce ⟨1, 16⟩)^[20]
    (((fun t ↦ t.consume 0)^[3] twoSlotsServed).startBatch
      ⟨4, 1, 3, 0, 0, 16, fun i ↦ ⟨i, 2, 0⟩⟩ fun _ j ↦ UInt8.ofNat j)

theorem consume_iterate (hi : i < cfg.copies) (s : System) (n : ℕ) :
    ReflTransGen (Step cfg) s ((fun t ↦ t.consume i)^[n] s) := by
  induction n with
  | zero => exact .refl
  | succ n ih =>
    rw [iterate_succ_apply']
    exact ih.tail (.consume _ i hi)

theorem twoSlots_read : ReflTransGen (Step ⟨1, 16⟩) twoSlots twoSlotsRead := by
  have hread := twoSlots_run.trans (consume_iterate (i := 0) (by decide) twoSlotsServed 3)
  have hpc : ((fun t ↦ t.consume 0)^[3] twoSlotsServed).producer.pc = .poll := by decide +kernel
  exact (hread.tail (.poll _ _ _ hpc)).trans (produce_iterate _ 20)

theorem duplicator_delivers_twoSlots :
    (twoSlotsRead.producer.pc = .poll ∧ twoSlotsRead.targs.packets = 3 ∧
      twoSlotsRead.targs.errPackets = 1 ∧ (twoSlotsRead.queue 0).dropPackets = 1 ∧
      twoSlotsRead.record.delivered 0 = [⟨1, 0, [7]⟩] ∧
      twoSlotsRead.queued 0 = [⟨2, 0, [0, 1]⟩] ∧
      ((fun t ↦ t.consume 0)^[5] twoSlotsRead).record.delivered 0 =
        [⟨1, 0, [7]⟩, ⟨2, 0, [0, 1]⟩]) ∧
    ((∀ i < 1, NoOverwrite ⟨1, 16⟩ twoSlotsRead i ∧ InOrder ⟨1, 16⟩ twoSlotsRead i ∧
        HandsOver ⟨1, 16⟩ twoSlotsRead i) ∧
      (twoSlotsRead.producer.pc = .poll →
        Counted ⟨1, 16⟩ twoSlotsRead ∧ ∀ i < 1, Balanced ⟨1, 16⟩ twoSlotsRead i) ∧
      ∀ es, work ⟨1, 16⟩ twoSlotsRead ≤ es.countP Option.isNone →
        (schedule (System.produce ⟨1, 16⟩) (fun i t ↦ t.consume i) es
          twoSlotsRead).producer.pc = .poll) ∧
    twoSlotsRead.record.delivered 0 ++ twoSlotsRead.queued 0 <+:
      ((fun t ↦ t.consume 0)^[5] twoSlotsRead).record.delivered 0 :=
  have h := duplicator_delivers (by decide) twoSlots_initial twoSlots_read
  ⟨by decide +kernel, h, (h.1 0 (by decide)).2.2.delivered 5 _ (.iterate _ _ 5 _) (by decide +kernel)⟩

end Dpa.Duplicator
