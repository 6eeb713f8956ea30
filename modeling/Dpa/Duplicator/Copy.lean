import Dpa.Duplicator.TornReads
import Dpa.Duplicator.Process

namespace Dpa.Duplicator

open Relation Function VolatileLoad MachineWord Cyclic

variable {k w r f d u : ℕ} {q : DupQueue}

theorem At.writeAvali (h : At k w r q) : dupQueueWriteAvali.atomically q = Int32.ofNat q.free := by
  have hw := h.widx_lt
  have hr := h.ridx_lt
  have hv := congrArg Prod.fst (writeAvali_value (m := fun _ ↦ q) fun _ ↦ h)
  have hf : ((dupQueueWriteAvali.exec (fun _ ↦ q) 0).1.toInt) = (q.free : ℤ) := by
    refine hv.trans ?_
    rw [h.free_eq, h.filled_eq, ahead_eq hr hw, ahead_eq hw hr]
    split_ifs <;> dsimp only <;> omega
  rw [Reader.atomically, ← ofNat_toNat_toInt (v := (dupQueueWriteAvali.exec _ 0).1) (by omega), hf,
    Int.toNat_natCast]

theorem At.readAvali (h : At k w r q) : dupQueueReadAvali.atomically q = Int32.ofNat q.filled := by
  have hw := h.widx_lt
  have hr := h.ridx_lt
  have hv := congrArg Prod.fst (readAvali_value (m := fun _ ↦ q) fun _ ↦ h)
  have hf : ((dupQueueReadAvali.exec (fun _ ↦ q) 0).1.toInt) = (q.filled : ℤ) := by
    refine hv.trans ?_
    rw [h.filled_eq, ahead_eq hr hw]
    split_ifs <;> dsimp only <;> omega
  rw [Reader.atomically, ← ofNat_toNat_toInt (v := (dupQueueReadAvali.exec _ 0).1) (by omega), hf,
    Int.toNat_natCast]

theorem At.idxNext (h : At k w r q) (a j : ℕ) :
    dupSlotIdxNext q (Int32.ofNat (pos (2 ^ k) a j)) = Int32.ofNat (pos (2 ^ k) a (j + 1)) := by
  have hk := h.bound
  rw [dupSlotIdxNext, h.mask, show (1 : Int32) = Int32.ofNat 1 from rfl, ← Int32.ofNat_add,
    int32_and_mask _ (by omega), ← pos_pos]
  rfl

/-- The masked offset of a write index `u` places past the published one. -/
theorem At.widxOffset (h : At k w r q) (hu : u < 2 ^ k) :
    dupQueueWidxOffset q (Int32.ofNat (pos (2 ^ k) w u)) = Int32.ofNat u := by
  rw [dupQueueWidxOffset, h.widx, h.mask, masked_diff h.bound h.widx_lt, ahead_pos h.widx_lt hu]

structure Copy where
  queue : DupQueue
  slots : Int32 → DupSlot
  widx : Int32
  wavali : Int32
  consumer : Consumer
  log : List (Packet × Bool)
  delivered : List Packet

namespace Copy

def accepted (c : Copy) : List Packet := (c.log.filter Prod.snd).map Prod.fst

def refused (c : Copy) : ℕ := (c.log.filter fun x ↦ !x.2).length

def slotAt (k r : ℕ) (c : Copy) (j : ℕ) : DupSlot := c.slots (Int32.ofNat (pos (2 ^ k) r j))

/-- The packets in the slots that lie `d` to `e` places after `r`. -/
def between (k r : ℕ) (c : Copy) (d e : ℕ) : List Packet :=
  (List.range' d (e - d)).map fun j ↦ (c.slotAt k r j).view

def refill (c : Copy) (p : Packet) : Copy :=
  let v := dupQueueWriteAvali.atomically c.queue
  if v = 0 then
    { c with
      wavali := v
      queue := { c.queue with
        dropPackets := c.queue.dropPackets + 1
        dropBytes := c.queue.dropBytes + p.len }
      log := c.log ++ [(p, false)] }
  else { c with wavali := v }

def store (c : Copy) (slot : DupSlot) (p : Packet) : Copy :=
  { c with
    slots := update c.slots c.widx slot
    widx := dupSlotIdxNext c.queue c.widx
    log := c.log ++ [(p, true)] }

def publish (c : Copy) (n : Int32) : Copy := { c with queue := dupQueueWriteAdv c.queue n }

def refresh (c : Copy) : Copy := { c with wavali := dupQueueWriteAvali.atomically c.queue }

def flush (c : Copy) : Copy :=
  if dupQueueWidxOffset c.queue c.widx ≠ 0 then c.publish (dupQueueWidxOffset c.queue c.widx) else c

theorem flush_log (c : Copy) : c.flush.log = c.log := by
  unfold flush
  split_ifs <;> rfl

def consume (c : Copy) : Copy :=
  match c.consumer.pc with
  | .wait =>
    let v := dupQueueReadAvali.atomically c.queue
    if v = 0 then c else { c with consumer := { c.consumer with pc := .call 0 v } }
  | .call j v =>
    if j < v then
      { c with
        delivered := c.delivered ++ [(c.slots c.consumer.ridx).view]
        consumer := ⟨.call (j + 1) v, dupSlotIdxNext c.queue c.consumer.ridx⟩ }
    else
      { c with
        queue := dupQueueReadAdv c.queue v
        consumer := { c.consumer with pc := .wait } }

end Copy

/-- Whether a consumer that has read `d` of `f` published packets may stand at this point. -/
def ConsumerPc.Stands (d f : ℕ) : ConsumerPc → Prop
  | .wait => d = 0
  | .call j v => j = Int32.ofNat d ∧ ∃ n, v = Int32.ofNat n ∧ d ≤ n ∧ n ≤ f

/-- The copy seen from its read index `r`: `f` slots are published, `u` more are written, and
the consumer has read `d` of the published ones. -/
structure Layout (k r f d u : ℕ) (c : Copy) : Prop where
  queue : At k (pos (2 ^ k) r f) r c.queue
  fits : f + u < 2 ^ k
  widx : c.widx = Int32.ofNat (pos (2 ^ k) r (f + u))
  ridx : c.consumer.ridx = Int32.ofNat (pos (2 ^ k) r d)
  read : d ≤ f
  stands : c.consumer.pc.Stands d f
  accepted : c.accepted = c.delivered ++ c.between k r d (f + u)
  drops : c.queue.dropPackets = c.refused

/-- What the producer knows of a copy: its cached free count bounds what it has written
(`steady`), leaves room for one packet (`ready`), or is used up (`full`); nothing is written
but unpublished (`clean`), and the cache may be out of date (`stale`). -/
inductive Phase
  | clean
  | steady
  | ready
  | full
  | stale

def Phase.Holds (k f u : ℕ) (v : Int32) : Phase → Prop
  | .clean => ∃ a, v = Int32.ofNat a ∧ f + a < 2 ^ k ∧ u = 0
  | .steady => ∃ a, v = Int32.ofNat a ∧ f + a < 2 ^ k ∧ (u < a ∨ u = 0)
  | .ready => ∃ a, v = Int32.ofNat a ∧ f + a < 2 ^ k ∧ u < a
  | .full => v = Int32.ofNat u ∧ 0 < u
  | .stale => u = 0

def CopyInv (k : ℕ) (phase : Phase) (c : Copy) : Prop :=
  ∃ r f d u, Layout k r f d u c ∧ phase.Holds k f u c.wavali

variable {c : Copy} {phase : Phase} {slot : DupSlot} {p : Packet}

theorem Layout.filled_eq (h : Layout k r f d u c) : c.queue.filled = f := by
  have hf := h.fits
  rw [h.queue.filled_eq, ahead_pos h.queue.ridx_lt (by omega)]

theorem Layout.free_eq (h : Layout k r f d u c) : c.queue.free = 2 ^ k - 1 - f := by
  rw [h.queue.free_eq, h.filled_eq]

theorem Layout.writeAvali (h : Layout k r f d u c) :
    dupQueueWriteAvali.atomically c.queue = Int32.ofNat (2 ^ k - 1 - f) := by
  rw [h.queue.writeAvali, h.free_eq]

theorem Layout.widxOffset (h : Layout k r f d u c) :
    dupQueueWidxOffset c.queue c.widx = Int32.ofNat u := by
  have hf := h.fits
  rw [h.widx, ← pos_pos, h.queue.widxOffset (by omega)]

theorem CopyInv.stale_of_zero (h : CopyInv k .steady c) (h0 : c.wavali = 0) :
    CopyInv k .stale c := by
  obtain ⟨r, f, d, u, hl, a, ha, hfa, hu⟩ := h
  have hk := two_pow_le hl.queue.bound
  rw [ha, int32_ofNat_eq_zero (by omega)] at h0
  exact ⟨r, f, d, u, hl, show u = 0 by omega⟩

theorem CopyInv.ready_of_ne (h : CopyInv k .steady c) (h0 : c.wavali ≠ 0) :
    CopyInv k .ready c := by
  obtain ⟨r, f, d, u, hl, a, ha, hfa, hu⟩ := h
  refine ⟨r, f, d, u, hl, a, ha, hfa, ?_⟩
  have ha0 : a ≠ 0 := by
    rintro rfl
    exact h0 ha
  omega

/-- A write outside the slots between `d` and `e` is not seen there. -/
theorem between_update {i : Int32} {e : ℕ} (s' : Copy)
    (hs : s'.slots = update c.slots i slot)
    (hi : ∀ j, d ≤ j → j < e → Int32.ofNat (pos (2 ^ k) r j) ≠ i) :
    s'.between k r d e = c.between k r d e := by
  apply List.map_congr_left
  intro j hj
  obtain ⟨h1, h2⟩ := List.mem_range'_1.1 hj
  rw [Copy.slotAt, hs, update_of_ne (hi j h1 (by omega))]
  rfl

theorem between_shift (c : Copy) (k r d e : ℕ) :
    c.between k r d e = c.between k (pos (2 ^ k) r d) 0 (e - d) := by
  rw [Copy.between, Copy.between, Nat.sub_zero, List.range'_eq_map_range,
    List.range'_eq_map_range, List.map_map, List.map_map]
  apply List.map_congr_left
  intro j _
  simp only [Function.comp, Copy.slotAt, pos_pos, Nat.zero_add]

theorem slotIdx_ne {j e : ℕ} (hk : k ≤ 30) (hj : j < e) (he : e < 2 ^ k) :
    Int32.ofNat (pos (2 ^ k) r j) ≠ Int32.ofNat (pos (2 ^ k) r e) := by
  intro h
  have hn := two_pow_le hk
  have h1 := pos_lt (a := r) (i := j) (Nat.two_pow_pos k)
  have h2 := pos_lt (a := r) (i := e) (Nat.two_pow_pos k)
  have := pos_injective (by omega) he (int32_ofNat_inj (by omega) (by omega) h)
  omega

theorem CopyInv.refill (h : CopyInv k .stale c) (p : Packet) :
    CopyInv k (if dupQueueWriteAvali.atomically c.queue = 0 then .steady else .ready)
      (c.refill p) := by
  obtain ⟨r, f, d, u, hl, hu⟩ := h
  have hk := two_pow_le hl.queue.bound
  have hf := hl.fits
  have hv := hl.writeAvali
  simp only [Phase.Holds] at hu
  refine ⟨r, f, d, u, ?_⟩
  unfold Copy.refill
  by_cases h0 : dupQueueWriteAvali.atomically c.queue = 0
  · simp only [h0, if_true]
    rw [h0] at hv
    refine ⟨⟨⟨hl.queue.bound, hl.queue.widx_lt, hl.queue.ridx_lt, hl.queue.numSlots, hl.queue.mask,
      hl.queue.widx, hl.queue.ridx⟩, hl.fits, hl.widx, hl.ridx, hl.read, hl.stands, ?_, ?_⟩,
      2 ^ k - 1 - f, hv, by omega, Or.inr hu⟩
    · change List.map Prod.fst (List.filter Prod.snd (c.log ++ [(p, false)])) =
        c.delivered ++ c.between k r d (f + u)
      rw [List.filter_append, ← hl.accepted]
      simp [Copy.accepted]
    · simp [Copy.refused, hl.drops]
  · simp only [h0, if_false]
    refine ⟨⟨hl.queue, hl.fits, hl.widx, hl.ridx, hl.read, hl.stands, hl.accepted, hl.drops⟩,
      2 ^ k - 1 - f, hv, by omega, ?_⟩
    rw [hv, int32_ofNat_eq_zero (by omega)] at h0
    omega

theorem CopyInv.store (h : CopyInv k .ready c) (hp : slot.view = p) :
    CopyInv k
      (if dupQueueWidxOffset c.queue (dupSlotIdxNext c.queue c.widx) = c.wavali then .full
        else .steady)
      (c.store slot p) := by
  obtain ⟨r, f, d, u, hl, a, ha, hfa, hua⟩ := h
  have hk := two_pow_le hl.queue.bound
  have hd := hl.read
  have hw : dupSlotIdxNext c.queue c.widx = Int32.ofNat (pos (2 ^ k) r (f + (u + 1))) := by
    rw [hl.widx, hl.queue.idxNext, Nat.add_assoc]
  have ho : dupQueueWidxOffset c.queue (dupSlotIdxNext c.queue c.widx) = Int32.ofNat (u + 1) := by
    rw [hw, ← pos_pos, hl.queue.widxOffset (by omega)]
  have hold : (c.store slot p).between k r d (f + u) = c.between k r d (f + u) := by
    refine between_update _ rfl fun j _ hj ↦ ?_
    rw [hl.widx]
    exact slotIdx_ne hl.queue.bound hj (by omega)
  have hnew : ((c.store slot p).slotAt k r (f + u)).view = p := by
    rw [Copy.slotAt, ← hl.widx, ← hp]
    simp [Copy.store]
  refine ⟨r, f, d, u + 1, ⟨hl.queue, by omega, hw, hl.ridx, hl.read, hl.stands, ?_, ?_⟩, ?_⟩
  · have hcat : (c.store slot p).between k r d (f + (u + 1)) =
        (c.store slot p).between k r d (f + u) ++ [p] := by
      rw [Copy.between, show f + (u + 1) - d = (f + u - d) + 1 by omega, List.range'_1_concat,
        List.map_append, List.map_singleton, show d + (f + u - d) = f + u by omega, hnew]
      rfl
    have hacc : (c.store slot p).accepted = c.accepted ++ [p] := by
      simp [Copy.accepted, Copy.store]
    rw [hcat, hold, hacc, hl.accepted, List.append_assoc]
    rfl
  · simpa [Copy.refused, Copy.store] using hl.drops
  · rw [ho, ha]
    split_ifs with heq
    · refine ⟨?_, Nat.succ_pos u⟩
      rw [heq]
      exact ha
    · refine ⟨a, ha, hfa, Or.inl ?_⟩
      have : u + 1 ≠ a := fun h ↦ heq (by rw [h])
      omega

theorem Layout.publish (h : Layout k r f d u c) : Layout k r (f + u) d 0 (c.publish (Int32.ofNat u)) where
  queue := by
    have := h.queue.writeAdv u
    rwa [pos_pos] at this
  fits := h.fits
  widx := h.widx
  ridx := h.ridx
  read := by
    have := h.read
    omega
  stands := by
    have hs := h.stands
    rw [Copy.publish]
    cases hpc : c.consumer.pc with
    | wait => simpa [hpc, ConsumerPc.Stands] using hs
    | call j v =>
      rw [hpc] at hs
      obtain ⟨hj, n, hv, h1, h2⟩ := hs
      exact ⟨hj, n, hv, h1, by omega⟩
  accepted := h.accepted
  drops := h.drops

theorem CopyInv.publish (h : CopyInv k .full c) : CopyInv k .stale (c.publish c.wavali) := by
  obtain ⟨r, f, d, u, hl, hv, _⟩ := h
  rw [hv]
  exact ⟨r, f + u, d, 0, hl.publish, rfl⟩

theorem CopyInv.flush (h : CopyInv k .steady c) : CopyInv k .stale c.flush := by
  obtain ⟨r, f, d, u, hl, a, _, hfa, hua⟩ := h
  have hk := two_pow_le hl.queue.bound
  have hf := hl.fits
  unfold Copy.flush
  rw [hl.widxOffset]
  by_cases h0 : Int32.ofNat u = 0
  · rw [if_neg (not_not.2 h0)]
    exact ⟨r, f, d, u, hl, (int32_ofNat_eq_zero (by omega)).1 h0⟩
  · rw [if_pos h0]
    exact ⟨r, f + u, d, 0, hl.publish, rfl⟩

theorem CopyInv.steady (h : CopyInv k .clean c) : CopyInv k .steady c := by
  obtain ⟨r, f, d, u, hl, a, ha, hfa, hu⟩ := h
  exact ⟨r, f, d, u, hl, a, ha, hfa, Or.inr hu⟩

theorem CopyInv.refresh (h : CopyInv k .stale c) : CopyInv k .clean c.refresh := by
  obtain ⟨r, f, d, u, hl, hu⟩ := h
  have hf := hl.fits
  refine ⟨r, f, d, u, ?_, 2 ^ k - 1 - f, hl.writeAvali, by omega, hu⟩
  exact ⟨hl.queue, hl.fits, hl.widx, hl.ridx, hl.read, hl.stands, hl.accepted, hl.drops⟩

theorem Layout.awake (h : Layout k r f d u c) (hpc : c.consumer.pc = .wait) :
    Layout k r f d u { c with consumer := ⟨.call 0 (Int32.ofNat f), c.consumer.ridx⟩ } where
  queue := h.queue
  fits := h.fits
  widx := h.widx
  ridx := h.ridx
  read := h.read
  stands := by
    have hs := h.stands
    rw [hpc] at hs
    obtain rfl : d = 0 := hs
    exact ⟨rfl, f, rfl, Nat.zero_le f, le_rfl⟩
  accepted := h.accepted
  drops := h.drops

theorem Layout.deliver (h : Layout k r f d u c) {j : Int32} {n : ℕ} (hj : j = Int32.ofNat d)
    (hd : d < n) (hn : n ≤ f) :
    Layout k r f (d + 1) u
      { c with
        delivered := c.delivered ++ [(c.slots c.consumer.ridx).view]
        consumer := ⟨.call (j + 1) (Int32.ofNat n), dupSlotIdxNext c.queue c.consumer.ridx⟩ } where
  queue := h.queue
  fits := h.fits
  widx := h.widx
  ridx := by
    rw [h.ridx]
    exact h.queue.idxNext r d
  read := by omega
  stands := ⟨by rw [hj, Int32.ofNat_add]; rfl, n, rfl, hd, hn⟩
  accepted := by
    have hcut : c.between k r d (f + u) =
        (c.slotAt k r d).view :: c.between k r (d + 1) (f + u) := by
      rw [Copy.between, show f + u - d = (f + u - (d + 1)) + 1 by omega, List.range'_succ]
      rfl
    have hslot : c.slotAt k r d = c.slots c.consumer.ridx := by
      rw [h.ridx]
      rfl
    change c.accepted = _ ++ [_] ++ c.between k r (d + 1) (f + u)
    rw [h.accepted, hcut, hslot, List.append_assoc]
    rfl
  drops := h.drops

theorem Layout.release (h : Layout k r f d u c) :
    Layout k (pos (2 ^ k) r d) (f - d) 0 u
      { c with
        queue := dupQueueReadAdv c.queue (Int32.ofNat d)
        consumer := ⟨.wait, c.consumer.ridx⟩ } where
  queue := by
    have hq := h.queue.readAdv d
    have hd := h.read
    rwa [show f = d + (f - d) by omega, ← pos_pos] at hq
  fits := by
    have := h.fits
    omega
  widx := by
    have hd := h.read
    rw [pos_pos, show d + (f - d + u) = f + u by omega]
    exact h.widx
  ridx := by
    rw [pos_pos]
    exact h.ridx
  read := Nat.zero_le _
  stands := rfl
  accepted := by
    have hd := h.read
    change c.accepted = c.delivered ++ c.between k (pos (2 ^ k) r d) 0 (f - d + u)
    rw [h.accepted, between_shift, show f + u - d = f - d + u by omega]
  drops := h.drops

theorem Phase.Holds.release {v : Int32} (h : phase.Holds k f u v) (n : ℕ) :
    phase.Holds k (f - n) u v := by
  cases phase with
  | clean =>
    obtain ⟨a, hv, hfa, hu⟩ := h
    exact ⟨a, hv, by omega, hu⟩
  | steady =>
    obtain ⟨a, hv, hfa, hu⟩ := h
    exact ⟨a, hv, by omega, hu⟩
  | ready =>
    obtain ⟨a, hv, hfa, hu⟩ := h
    exact ⟨a, hv, by omega, hu⟩
  | full => exact h
  | stale => exact h

theorem CopyInv.consume (h : CopyInv k phase c) : CopyInv k phase c.consume := by
  obtain ⟨r, f, d, u, hl, hh⟩ := h
  have hk := two_pow_le hl.queue.bound
  have hf := hl.fits
  unfold Copy.consume
  cases hpc : c.consumer.pc with
  | wait =>
    simp only [hl.queue.readAvali, hl.filled_eq]
    by_cases h0 : Int32.ofNat f = 0
    · rw [if_pos h0]
      exact ⟨r, f, d, u, hl, hh⟩
    · rw [if_neg h0]
      exact ⟨r, f, d, u, hl.awake hpc, hh⟩
  | call j v =>
    have hs := hl.stands
    rw [hpc] at hs
    obtain ⟨hj, n, rfl, hdn, hnf⟩ := hs
    simp only [hj, int32_ofNat_lt (show d < 2 ^ 31 by omega) (show n < 2 ^ 31 by omega)]
    by_cases hlt : d < n
    · rw [if_pos hlt]
      exact ⟨r, f, d + 1, u, hl.deliver rfl hlt hnf, hh⟩
    · rw [if_neg hlt]
      obtain rfl : d = n := by omega
      exact ⟨_, f - d, 0, u, hl.release, hh.release d⟩

end Dpa.Duplicator
