import Dpa.Duplicator.Delivery

namespace Dpa.Duplicator

open Function MachineWord Cyclic Kernel

variable {cfg : Config} {k r f d u : ℕ} {c : Copy}

namespace Copy

def held (c : Copy) : ℕ := ahead c.queue.size c.queue.ridx.toInt.toNat c.consumer.ridx.toInt.toNat

def unacked (c : Copy) : List Packet :=
  (List.range c.held).map fun j ↦
    (c.slots (Int32.ofNat (pos c.queue.size c.queue.ridx.toInt.toNat j))).view

end Copy

namespace System

def unacked (s : System) (i : ℕ) : List Packet := (s.copyAt i).unacked

def accepted (s : System) (i : ℕ) : List Packet := ((s.record.log i).filter Prod.snd).map Prod.fst

end System

theorem Layout.held (h : Layout k r f d u c) : c.held = d := by
  have hk := two_pow_le h.queue.bound
  have hf := h.fits
  have hd := h.read
  have hr := h.queue.ridx_lt
  have hlt := pos_lt (a := r) (i := d) (Nat.two_pow_pos k)
  rw [Copy.held, h.queue.size_eq, h.queue.ridx, h.ridx, toNat_ofNat (by omega),
    toNat_ofNat (by omega), ahead_pos hr (by omega)]

theorem Layout.unacked (h : Layout k r f d u c) : c.unacked = c.between k r 0 d := by
  have hk := two_pow_le h.queue.bound
  have hr := h.queue.ridx_lt
  rw [Copy.unacked, h.held, h.queue.size_eq, h.queue.ridx, toNat_ofNat (by omega), Copy.between,
    Nat.sub_zero, ← List.range_eq_range']
  rfl

theorem between_append (c : Copy) (k r : ℕ) {a d e : ℕ} (had : a ≤ d) (hde : d ≤ e) :
    c.between k r a e = c.between k r a d ++ c.between k r d e := by
  obtain ⟨n, rfl⟩ := Nat.exists_eq_add_of_le hde
  obtain ⟨m, rfl⟩ := Nat.exists_eq_add_of_le had
  have hcut := List.range'_append_1 (s := a) (m := m) (n := n)
  rw [Copy.between, Copy.between, Copy.between, Nat.add_sub_cancel_left, Nat.add_sub_cancel_left,
    Nat.add_assoc, Nat.add_sub_cancel_left, ← hcut, List.map_append]

structure SameReader (s t : System) : Prop where
  consumer : t.consumer = s.consumer
  delivered : t.record.delivered = s.record.delivered
  queue : ∀ i, (t.queue i).ridx = (s.queue i).ridx ∧ (t.queue i).size = (s.queue i).size

theorem sameReader_setQueue (s : System) (i : ℕ) {q : DupQueue} (hr : q.ridx = (s.queue i).ridx)
    (hn : q.size = (s.queue i).size) : SameReader s (s.setQueue i q) := by
  refine ⟨rfl, rfl, fun j ↦ ?_⟩
  by_cases hj : j = i
  · subst hj
    simp only [System.setQueue, update_self]
    exact ⟨hr, hn⟩
  · simp only [System.setQueue, update_of_ne hj, and_self]

theorem sameReader_produce (s : System) : SameReader s (s.produce cfg) := by
  unfold System.produce
  cases s.producer.pc with
  | poll => exact ⟨rfl, rfl, fun _ ↦ ⟨rfl, rfl⟩⟩
  | take =>
    simp only [System.take]
    split_ifs <;> exact ⟨rfl, rfl, fun _ ↦ ⟨rfl, rfl⟩⟩
  | copy j =>
    simp only [System.copy]
    split_ifs <;> exact ⟨rfl, rfl, fun _ ↦ ⟨rfl, rfl⟩⟩
  | refill j =>
    simp only [System.refill]
    split_ifs
    · obtain ⟨h1, h2, h3⟩ := sameReader_setQueue s j (q := { s.queue j with
        dropPackets := (s.queue j).dropPackets + 1
        dropBytes := (s.queue j).dropBytes + s.inSlot.len }) rfl rfl
      exact ⟨h1, h2, h3⟩
    · exact ⟨rfl, rfl, fun _ ↦ ⟨rfl, rfl⟩⟩
  | store j => exact ⟨rfl, rfl, fun _ ↦ ⟨rfl, rfl⟩⟩
  | publish j =>
    obtain ⟨h1, h2, h3⟩ := sameReader_setQueue s j
      (q := dupQueueWriteAdv (s.queue j) (s.producer.wavali j)) rfl rfl
    exact ⟨h1, h2, h3⟩
  | refresh j => exact ⟨rfl, rfl, fun _ ↦ ⟨rfl, rfl⟩⟩
  | flush j =>
    simp only [System.flush]
    split_ifs
    · obtain ⟨h1, h2, h3⟩ := sameReader_setQueue s j (q := dupQueueWriteAdv (s.queue j)
        (dupQueueWidxOffset (s.queue j) (s.producer.widx j))) rfl rfl
      exact ⟨h1, h2, h3⟩
    · exact ⟨rfl, rfl, fun _ ↦ ⟨rfl, rfl⟩⟩
    · exact ⟨rfl, rfl, fun _ ↦ ⟨rfl, rfl⟩⟩
  | flushed j => exact ⟨rfl, rfl, fun _ ↦ ⟨rfl, rfl⟩⟩
  | finish => exact ⟨rfl, rfl, fun _ ↦ ⟨rfl, rfl⟩⟩

theorem log_logVerdict (s : System) (j : ℕ) (b : Bool) (i : ℕ) :
    s.record.log i <+: (s.logVerdict j b).record.log i := by
  by_cases hi : i = j
  · subst hi
    simp [System.logVerdict]
  · simp [System.logVerdict, hi]

theorem log_produce (s : System) (i : ℕ) :
    s.record.log i <+: (s.produce cfg).record.log i := by
  unfold System.produce
  cases s.producer.pc with
  | poll => exact List.prefix_rfl
  | take =>
    simp only [System.take]
    split_ifs <;> exact List.prefix_rfl
  | copy j =>
    simp only [System.copy]
    split_ifs <;> exact List.prefix_rfl
  | refill j =>
    simp only [System.refill]
    split_ifs
    · exact log_logVerdict s j false i
    · exact List.prefix_rfl
  | store j => exact log_logVerdict s j true i
  | publish j => exact List.prefix_rfl
  | refresh j => exact List.prefix_rfl
  | flush j =>
    simp only [System.flush]
    split_ifs <;> exact List.prefix_rfl
  | flushed j => exact List.prefix_rfl
  | finish => exact List.prefix_rfl

theorem startBatch_copies (s : System) (ring : DpaRing) (buf : ℕ → ℕ → UInt8) :
    (s.startBatch ring buf).copyAt = s.copyAt ∧
      (s.startBatch ring buf).record.log = s.record.log ∧
      (s.startBatch ring buf).record.delivered = s.record.delivered := by
  unfold System.startBatch
  dsimp only
  split_ifs <;> exact ⟨rfl, rfl, rfl⟩

end Dpa.Duplicator
