import Dpa.Duplicator.Queue

namespace Dpa.Duplicator

open Relation VolatileLoad MachineWord Cyclic

def ProducerMoves (q q' : DupQueue) : Prop :=
  ∃ c ≤ q.free, q' = dupQueueWriteAdv q (Int32.ofNat c)

def ConsumerMoves (q q' : DupQueue) : Prop :=
  ∃ c ≤ q.filled, q' = dupQueueReadAdv q (Int32.ofNat c)

/-- The queues of `2 ^ k` slots that the two sides can bring about, each within its bound. -/
def Reachable (k : ℕ) (q : DupQueue) : Prop :=
  ∃ (q₀ : DupQueue) (queueId slotSize : Int32) (slotOffs : ℤ),
    ReflTransGen (fun a b ↦ ProducerMoves a b ∨ ConsumerMoves a b)
      (dupQueueInit q₀ queueId (Int32.ofNat (2 ^ k)) slotSize slotOffs) q

variable {k w r c : ℕ} {q q' : DupQueue} {m : ℕ → DupQueue}

theorem At.filled_writeAdv (h : At k w r q) (hc : c ≤ q.free) :
    (dupQueueWriteAdv q (Int32.ofNat c)).filled = q.filled + c := by
  have hf := h.free_eq
  have hlt := h.filled_lt
  have hw : pos (2 ^ k) w c = pos (2 ^ k) r (q.filled + c) := by
    rw [← pos_pos, h.filled_eq, pos_ahead h.ridx_lt h.widx_lt]
  rw [(h.writeAdv c).filled_eq, hw, ahead_pos h.ridx_lt (by omega)]

theorem At.filled_readAdv (h : At k w r q) (hc : c ≤ q.filled) :
    (dupQueueReadAdv q (Int32.ofNat c)).filled = q.filled - c := by
  have hlt := h.filled_lt
  have hr := h.ridx_lt
  have hw := h.widx_lt
  rw [(h.readAdv c).filled_eq, h.filled_eq]
  rw [h.filled_eq] at hc
  rw [ahead_eq hr hw] at hc ⊢
  rw [ahead_eq (pos_lt (by omega)) hw, pos_eq hr (by split_ifs at hc <;> omega)]
  split_ifs at hc ⊢ <;> omega

theorem ConsumerMoves.at (h : At k w r q) (hq : ConsumerMoves q q') :
    (∃ r', At k w r' q') ∧ q'.filled ≤ q.filled := by
  obtain ⟨c, hc, rfl⟩ := hq
  exact ⟨⟨_, h.readAdv c⟩, by rw [h.filled_readAdv hc]; omega⟩

theorem ProducerMoves.at (h : At k w r q) (hq : ProducerMoves q q') :
    (∃ w', At k w' r q') ∧ q.filled ≤ q'.filled := by
  obtain ⟨c, hc, rfl⟩ := hq
  exact ⟨⟨_, h.writeAdv c⟩, by rw [h.filled_writeAdv hc]; omega⟩

theorem Reachable.at (hk : k ≤ 30) (h : Reachable k q) : ∃ w r, At k w r q := by
  obtain ⟨q₀, queueId, slotSize, slotOffs, hr⟩ := h
  induction hr with
  | refl => exact ⟨0, 0, .init hk _ _ _ _⟩
  | tail _ hs ih =>
    obtain ⟨w, r, h⟩ := ih
    rcases hs with hs | hs
    · exact ⟨_, r, (hs.at h).1.choose_spec⟩
    · exact ⟨w, _, (hs.at h).1.choose_spec⟩

theorem consumer_run (h : At k w r q) (hq : ReflTransGen ConsumerMoves q q') :
    (∃ r', At k w r' q') ∧ q'.filled ≤ q.filled := by
  induction hq with
  | refl => exact ⟨⟨r, h⟩, le_rfl⟩
  | tail _ hs ih =>
    obtain ⟨⟨r', h'⟩, hle⟩ := ih
    exact ⟨(hs.at h').1, (hs.at h').2.trans hle⟩

theorem producer_run (h : At k w r q) (hq : ReflTransGen ProducerMoves q q') :
    (∃ w', At k w' r q') ∧ q.filled ≤ q'.filled := by
  induction hq with
  | refl => exact ⟨⟨w, h⟩, le_rfl⟩
  | tail _ hs ih =>
    obtain ⟨⟨w', h'⟩, hle⟩ := ih
    exact ⟨(hs.at h').1, hle.trans (hs.at h').2⟩

/-- The value `dup_queue_write_avali` returns lies between 0 and the slots really free when it
returns, and publishing that many slots at any later time does not run past `ridx`. -/
def WriteAvaliSound (m : ℕ → DupQueue) : Prop :=
  let (v, i) := dupQueueWriteAvali.exec m 0
  (0 ≤ v.toInt ∧ v.toInt ≤ (m i).free) ∧
    ∀ q, ReflTransGen ConsumerMoves (m i) q →
      ((dupQueueWriteAdv q v).filled : ℤ) = q.filled + v.toInt

def ReadAvaliSound (m : ℕ → DupQueue) : Prop :=
  let (v, i) := dupQueueReadAvali.exec m 0
  (0 ≤ v.toInt ∧ v.toInt ≤ (m i).filled) ∧
    ∀ q, ReflTransGen ProducerMoves (m i) q →
      ((dupQueueReadAdv q v).filled : ℤ) = q.filled - v.toInt

/-- Between its loads the consumer neither drains the queue after having been seen below `widx`,
nor crosses the end of the ring after having been seen above it. -/
def WriteSteady (m : ℕ → DupQueue) : Prop :=
  ((m 1).ridx < (m 0).widx → (m 2).ridx ≠ (m 0).widx) ∧
  ((m 0).widx ≤ (m 1).ridx → (m 0).widx < (m 3).ridx → (m 0).widx < (m 4).ridx) ∧
  ((m 0).widx ≤ (m 1).ridx → (m 3).ridx ≤ (m 0).widx → (m 5).ridx = (m 0).widx)

/-- Once seen above `ridx`, the producer has not crossed the end of the ring by the next load. -/
def ReadSteady (m : ℕ → DupQueue) : Prop :=
  (m 1).ridx < (m 0).widx → (m 1).ridx < (m 2).widx

theorem ofNat_toNat_toInt {v : Int32} (h : 0 ≤ v.toInt) : Int32.ofNat v.toInt.toNat = v := by
  rw [← Int32.ofInt_eq_ofNat, Int.toNat_of_nonneg h, Int32.ofInt_toInt]

/-- A value in range is safe to publish whatever the consumer does before. -/
theorem writeAvaliSound_iff (h : At k w r (m (dupQueueWriteAvali.exec m 0).2)) :
    WriteAvaliSound m ↔ 0 ≤ (dupQueueWriteAvali.exec m 0).1.toInt ∧
      (dupQueueWriteAvali.exec m 0).1.toInt ≤ (m (dupQueueWriteAvali.exec m 0).2).free := by
  unfold WriteAvaliSound
  generalize dupQueueWriteAvali.exec m 0 = p at h ⊢
  refine ⟨fun hs ↦ hs.1, fun hs ↦ ⟨hs, fun q hq ↦ ?_⟩⟩
  obtain ⟨⟨r', h'⟩, hle⟩ := consumer_run h hq
  have hf := h.free_eq
  have hf' := h'.free_eq
  have hadv := h'.filled_writeAdv (c := p.1.toInt.toNat) (by omega)
  rw [ofNat_toNat_toInt hs.1] at hadv
  omega

theorem readAvaliSound_iff (h : At k w r (m (dupQueueReadAvali.exec m 0).2)) :
    ReadAvaliSound m ↔ 0 ≤ (dupQueueReadAvali.exec m 0).1.toInt ∧
      (dupQueueReadAvali.exec m 0).1.toInt ≤ (m (dupQueueReadAvali.exec m 0).2).filled := by
  unfold ReadAvaliSound
  generalize dupQueueReadAvali.exec m 0 = p at h ⊢
  refine ⟨fun hs ↦ hs.1, fun hs ↦ ⟨hs, fun q hq ↦ ?_⟩⟩
  obtain ⟨⟨w', h'⟩, hle⟩ := producer_run h hq
  have hadv := h'.filled_readAdv (c := p.1.toInt.toNat) (by omega)
  rw [ofNat_toNat_toInt hs.1] at hadv
  omega

/-- While the consumer runs, the history is a fixed `widx` and a fill level that only drops. -/
theorem consumer_history (h : At k w r (m 0)) (hm : History ConsumerMoves m) :
    ∃ f : ℕ → ℕ, Antitone f ∧
      ∀ i, f i < 2 ^ k ∧ (m i).filled = f i ∧ At k w (pos (2 ^ k) w (2 ^ k - f i)) (m i) := by
  have hat (i : ℕ) : ∃ r', At k w r' (m i) := (consumer_run h (hm.le (Nat.zero_le i))).1
  refine ⟨fun i ↦ (m i).filled, antitone_nat_of_succ_le fun i ↦ ?_, fun i ↦ ?_⟩
  · exact (consumer_run (hat i).choose_spec (hm i)).2
  · obtain ⟨r', h'⟩ := hat i
    have hw := h'.widx_lt
    have hr := h'.ridx_lt
    refine ⟨h'.filled_lt, rfl, ?_⟩
    have he : pos (2 ^ k) w (2 ^ k - (m i).filled) = r' := by
      rw [h'.filled_eq, ahead_eq hr hw, pos_eq hw (by omega)]
      split_ifs <;> omega
    rwa [he]

theorem producer_history (h : At k w r (m 0)) (hm : History ProducerMoves m) :
    ∃ f : ℕ → ℕ, Monotone f ∧
      ∀ i, f i < 2 ^ k ∧ (m i).filled = f i ∧ At k (pos (2 ^ k) r (f i)) r (m i) := by
  have hat (i : ℕ) : ∃ w', At k w' r (m i) := (producer_run h (hm.le (Nat.zero_le i))).1
  refine ⟨fun i ↦ (m i).filled, monotone_nat_of_le_succ fun i ↦ ?_, fun i ↦ ?_⟩
  · exact (producer_run (hat i).choose_spec (hm i)).2
  · obtain ⟨w', h'⟩ := hat i
    refine ⟨h'.filled_lt, rfl, ?_⟩
    dsimp only
    rwa [h'.filled_eq, pos_ahead h'.ridx_lt h'.widx_lt]

section

variable {ws rs : ℕ → ℕ}

theorem lt_iff {a b : ℕ} (hk : k ≤ 30) (ha : a < 2 ^ k) (hb : b < 2 ^ k) :
    Int32.ofNat a < Int32.ofNat b ↔ a < b := by
  have h := two_pow_le hk
  exact Int32.ofNat_lt_iff_lt (by omega) (by omega)

theorem le_iff {a b : ℕ} (hk : k ≤ 30) (ha : a < 2 ^ k) (hb : b < 2 ^ k) :
    Int32.ofNat a ≤ Int32.ofNat b ↔ a ≤ b := by
  rw [← Int32.not_lt, lt_iff hk hb ha, not_lt]

theorem eq_iff {a b : ℕ} (hk : k ≤ 30) (ha : a < 2 ^ k) (hb : b < 2 ^ k) :
    Int32.ofNat a = Int32.ofNat b ↔ a = b := by
  have h := two_pow_le hk
  exact ⟨int32_ofNat_inj (by omega) (by omega), congrArg _⟩

/-- The value and the return time of the producer's call in terms of the indices it loaded. -/
theorem writeAvali_value (hat : ∀ i, At k w (rs i) (m i)) :
    ((dupQueueWriteAvali.exec m 0).1.toInt, (dupQueueWriteAvali.exec m 0).2) =
      if rs 1 < w then ((ahead (2 ^ k) w (rs 2) : ℤ) - 1, 6)
      else if w < rs 3 then ((rs 4 : ℤ) - w - 1, 6) else ((2 ^ k : ℕ) - 1, 5) := by
  have hk := (hat 0).bound
  have hN := two_pow_le hk
  have hw := (hat 0).widx_lt
  have hr (i : ℕ) := (hat i).ridx_lt
  have h2 := hr 2
  have h4 := hr 4
  rw [writeAvali_exec, (hat 0).widx, (hat 1).ridx, (hat 2).ridx, (hat 3).widx, (hat 4).numSlots,
    (hat 5).mask, (hat 2).widx, (hat 3).ridx, (hat 4).ridx, (hat 5).widx, masked_sub hk hw]
  simp only [lt_iff hk (hr _) hw, lt_iff hk hw (hr _)]
  split_ifs with h h'
  · have ha : ahead (2 ^ k) w (rs 2) < 2 ^ k := ahead_lt (by omega)
    have hv := Int32.toInt_ofNat_of_lt (show ahead (2 ^ k) w (rs 2) < 2 ^ 31 by omega)
    simp only [int32_toInt_sub_one hv (by omega)]
  · have hv := int32_toInt_sub (show rs 4 < 2 ^ 31 by omega) (show w < 2 ^ 31 by omega)
    simp only [int32_toInt_sub_one hv (by omega)]
  · have hv := Int32.toInt_ofNat_of_lt (show 2 ^ k < 2 ^ 31 by omega)
    simp only [int32_toInt_sub_one hv (by omega)]

theorem readAvali_value (hat : ∀ i, At k (ws i) r (m i)) :
    ((dupQueueReadAvali.exec m 0).1.toInt, (dupQueueReadAvali.exec m 0).2) =
      if r < ws 0 then ((ws 2 : ℤ) - r, 4) else ((ahead (2 ^ k) r (ws 2) : ℤ), 6) := by
  have hk := (hat 0).bound
  have hN := two_pow_le hk
  have hr := (hat 0).ridx_lt
  have hw (i : ℕ) := (hat i).widx_lt
  have h2 := hw 2
  rw [readAvali_exec, (hat 0).widx, (hat 1).ridx, (hat 2).widx, (hat 3).ridx, (hat 4).numSlots,
    (hat 5).mask, masked_sub hk hr]
  simp only [lt_iff hk hr (hw _)]
  split_ifs with h
  · have hv := int32_toInt_sub (show ws 2 < 2 ^ 31 by omega) (show r < 2 ^ 31 by omega)
    simp only [hv]
  · have ha : ahead (2 ^ k) r (ws 2) < 2 ^ k := ahead_lt (by omega)
    have hv := Int32.toInt_ofNat_of_lt (show ahead (2 ^ k) r (ws 2) < 2 ^ 31 by omega)
    simp only [hv]

theorem writeSteady_iff (hat : ∀ i, At k w (rs i) (m i)) :
    WriteSteady m ↔ (rs 1 < w → rs 2 ≠ w) ∧ (w ≤ rs 1 → w < rs 3 → w < rs 4) ∧
      (w ≤ rs 1 → rs 3 ≤ w → rs 5 = w) := by
  have hk := (hat 0).bound
  have hw := (hat 0).widx_lt
  have hr (i : ℕ) := (hat i).ridx_lt
  simp only [WriteSteady, (hat 0).widx, (hat _).ridx, lt_iff hk (hr _) hw, lt_iff hk hw (hr _),
    le_iff hk (hr _) hw, le_iff hk hw (hr _), ne_eq, eq_iff hk (hr _) hw]

theorem readSteady_iff (hat : ∀ i, At k (ws i) r (m i)) :
    ReadSteady m ↔ (r < ws 0 → r < ws 2) := by
  have hk := (hat 0).bound
  have hr := (hat 0).ridx_lt
  have hw (i : ℕ) := (hat i).widx_lt
  simp only [ReadSteady, (hat _).widx, (hat 1).ridx, lt_iff hk hr (hw _)]

end

theorem pos_behind {N f : ℕ} (hw : w < N) (hf : f < N) :
    f < N ∧ (f ≤ w ∧ pos N w (N - f) + f = w ∨ w < f ∧ pos N w (N - f) + f = w + N) := by
  rw [pos_eq hw (by omega)]
  split_ifs <;> omega

/-- `dup_queue_write_avali` is sound exactly on the steady interleavings. -/
theorem writeAvaliSound_iff_steady (h : At k w r (m 0)) (hm : History ConsumerMoves m) :
    WriteAvaliSound m ↔ WriteSteady m := by
  obtain ⟨f, hf, hat⟩ := consumer_history h hm
  have hw := h.widx_lt
  have hrs (i : ℕ) := (hat i).2.2
  have hv := writeAvali_value hrs
  rw [writeAvaliSound_iff (hrs _), (hrs _).free_eq, (hat _).2.1, writeSteady_iff hrs]
  have hp (i : ℕ) := pos_behind hw (hat i).1
  have hp1 := hp 1
  have hp2 := hp 2
  have hp3 := hp 3
  have hp4 := hp 4
  have hp5 := hp 5
  have h12 : f 2 ≤ f 1 := hf (by decide)
  have h23 : f 3 ≤ f 2 := hf (by decide)
  have h34 : f 4 ≤ f 3 := hf (by decide)
  have h45 : f 5 ≤ f 4 := hf (by decide)
  have h56 : f 6 ≤ f 5 := hf (by decide)
  split_ifs at hv with h1 h3 <;> rw [Prod.mk_inj] at hv <;> rw [hv.1, hv.2]
  · rw [ahead_eq hw (hrs 2).ridx_lt]
    split_ifs <;> omega
  · omega
  · omega

theorem readAvaliSound_iff_steady (h : At k w r (m 0)) (hm : History ProducerMoves m) :
    ReadAvaliSound m ↔ ReadSteady m := by
  obtain ⟨f, hf, hat⟩ := producer_history h hm
  have hr := h.ridx_lt
  have hws (i : ℕ) := (hat i).2.2
  have hv := readAvali_value hws
  rw [readAvaliSound_iff (hws _), (hat _).2.1, readSteady_iff hws]
  have h0 := hat 0
  have h2 := hat 2
  have hp0 := pos_eq hr h0.1.le
  have hp2 := pos_eq hr h2.1.le
  have h02 : f 0 ≤ f 2 := hf (by decide)
  have h24 : f 2 ≤ f 4 := hf (by decide)
  have h46 : f 4 ≤ f 6 := hf (by decide)
  split_ifs at hv with hlt <;> rw [Prod.mk_inj] at hv <;> rw [hv.1, hv.2]
  · split_ifs at hp0 hp2 <;> omega
  · rw [ahead_pos hr h2.1]
    omega

/-- Eight slots, two of them filled until the producer has made its comparison, then none. -/
def drained (i : ℕ) : DupQueue :=
  let q := dupQueueWriteAdv (dupQueueInit ⟨0, 0, 0, 0, 0, 0, 0, 0, 0⟩ 0 8 2048 0) 3
  if i < 2 then dupQueueReadAdv q 1 else dupQueueReadAdv (dupQueueReadAdv q 1) 2

theorem drained_reachable : Reachable 3 (drained 0) := by
  refine ⟨⟨0, 0, 0, 0, 0, 0, 0, 0, 0⟩, 0, 2048, 0, .tail (.single (.inl ⟨3, ?_, rfl⟩)) (.inr ⟨1, ?_, rfl⟩)⟩
  · decide
  · decide

theorem drained_history : History ConsumerMoves drained := by
  intro i
  by_cases h : i = 1
  · subst h
    exact .single ⟨2, by decide, rfl⟩
  · have he : drained (i + 1) = drained i := by
      unfold drained
      split_ifs <;> first | rfl | omega
    rw [he]

/-- Two filled slots at the comparison, none at the subtraction: the producer is told `-1`. -/
theorem write_avali_negative : Reachable 3 (drained 0) ∧ History ConsumerMoves drained ∧
    (dupQueueWriteAvali.exec drained 0).1 = -1 ∧ ¬ WriteAvaliSound drained := by
  refine ⟨drained_reachable, drained_history, by decide, ?_⟩
  rintro ⟨⟨h, _⟩, _⟩
  exact absurd h (by decide)

/-- The exact interleavings on which the two counts are sound, for every power-of-two queue:
the producer's call against a moving consumer, and the consumer's against a moving producer. -/
theorem avali_sound_iff (hk : k ≤ 30) (hm : Reachable k (m 0)) :
    (History ConsumerMoves m → (WriteAvaliSound m ↔ WriteSteady m)) ∧
      (History ProducerMoves m → (ReadAvaliSound m ↔ ReadSteady m)) := by
  obtain ⟨w, r, h⟩ := hm.at hk
  exact ⟨writeAvaliSound_iff_steady h, readAvaliSound_iff_steady h⟩

theorem avali_sound_iff_drained : WriteAvaliSound drained ↔ WriteSteady drained :=
  (avali_sound_iff (by decide) drained_reachable).1 drained_history

end Dpa.Duplicator
