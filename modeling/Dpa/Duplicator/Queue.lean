import Dpa.Library.MachineWord
import Dpa.Library.Cyclic
import Dpa.Library.VolatileLoad

namespace Dpa.Duplicator

open VolatileLoad MachineWord Cyclic

/-- `dup_queue_t`. The drop counters are taken as unbounded. -/
structure DupQueue where
  queueId : Int32
  numSlots : Int32
  slotSize : Int32
  widx : Int32
  ridx : Int32
  mask : Int32
  dropPackets : ℕ
  dropBytes : ℕ
  slotOffs : ℤ
  deriving DecidableEq

/-- The slot offset is the address of the first slot relative to the queue header; the
byte counter keeps the value the memory had. -/
def dupQueueInit (queue : DupQueue) (queueId numSlots slotSize : Int32) (slotOffs : ℤ) : DupQueue :=
  { queue with
    queueId := queueId
    numSlots := numSlots
    slotSize := slotSize
    widx := 0
    ridx := 0
    mask := numSlots - 1
    dropPackets := 0
    slotOffs := slotOffs }

/-- Each read of a field is a load of its own: `widx` and `ridx` are volatile. -/
def dupQueueReadAvali : Reader DupQueue Int32 Int32 := do
  if (← load DupQueue.widx) > (← load DupQueue.ridx) then
    return (← load DupQueue.widx) - (← load DupQueue.ridx)
  else
    return ((← load DupQueue.widx) - (← load DupQueue.ridx) + (← load DupQueue.numSlots)) &&&
      (← load DupQueue.mask)

def dupQueueWriteAvali : Reader DupQueue Int32 Int32 := do
  if (← load DupQueue.widx) > (← load DupQueue.ridx) then
    return (((← load DupQueue.ridx) - (← load DupQueue.widx) + (← load DupQueue.numSlots)) &&&
      (← load DupQueue.mask)) - 1
  else if (← load DupQueue.widx) < (← load DupQueue.ridx) then
    return ((← load DupQueue.ridx) - (← load DupQueue.widx)) - 1
  else
    return (← load DupQueue.numSlots) - 1

def dupQueueReadAdv (q : DupQueue) (count : Int32) : DupQueue :=
  { q with ridx := (q.ridx + count) &&& q.mask }

def dupQueueWriteAdv (q : DupQueue) (count : Int32) : DupQueue :=
  { q with widx := (q.widx + count) &&& q.mask }

/-- The value and return time of `dup_queue_read_avali`, load by load. -/
theorem readAvali_exec (m : ℕ → DupQueue) : dupQueueReadAvali.exec m 0 =
    if (m 1).ridx < (m 0).widx then ((m 2).widx - (m 3).ridx, 4)
    else (((m 2).widx - (m 3).ridx + (m 4).numSlots) &&& (m 5).mask, 6) := by
  simp [dupQueueReadAvali]

theorem writeAvali_exec (m : ℕ → DupQueue) : dupQueueWriteAvali.exec m 0 =
    if (m 1).ridx < (m 0).widx then
      ((((m 2).ridx - (m 3).widx + (m 4).numSlots) &&& (m 5).mask) - 1, 6)
    else if (m 2).widx < (m 3).ridx then ((m 4).ridx - (m 5).widx - 1, 6)
    else ((m 4).numSlots - 1, 5) := by
  simp [dupQueueWriteAvali]

def DupQueue.size (q : DupQueue) : ℕ := q.numSlots.toInt.toNat

def DupQueue.filled (q : DupQueue) : ℕ := ahead q.size q.ridx.toInt.toNat q.widx.toInt.toNat

def DupQueue.free (q : DupQueue) : ℕ := q.size - 1 - q.filled

structure At (k w r : ℕ) (q : DupQueue) : Prop where
  bound : k ≤ 30
  widx_lt : w < 2 ^ k
  ridx_lt : r < 2 ^ k
  numSlots : q.numSlots = Int32.ofNat (2 ^ k)
  mask : q.mask = Int32.ofNat (2 ^ k - 1)
  widx : q.widx = Int32.ofNat w
  ridx : q.ridx = Int32.ofNat r

theorem two_pow_le {k : ℕ} (hk : k ≤ 30) : 2 ^ k ≤ 2 ^ 30 := Nat.pow_le_pow_right (by decide) hk

theorem At.init {k : ℕ} (hk : k ≤ 30) (q : DupQueue) (queueId slotSize : Int32) (slotOffs : ℤ) :
    At k 0 0 (dupQueueInit q queueId (Int32.ofNat (2 ^ k)) slotSize slotOffs) where
  bound := hk
  widx_lt := Nat.two_pow_pos k
  ridx_lt := Nat.two_pow_pos k
  numSlots := rfl
  mask := by
    rw [Int32.ofNat_sub _ _ (Nat.two_pow_pos k)]
    rfl
  widx := rfl
  ridx := rfl

section

variable {k w r c : ℕ} {q : DupQueue}

theorem toNat_ofNat (h : c < 2 ^ 31) : (Int32.ofNat c).toInt.toNat = c := by
  rw [Int32.toInt_ofNat_of_lt h, Int.toNat_natCast]

theorem At.size_eq (h : At k w r q) : q.size = 2 ^ k := by
  have hk := two_pow_le h.bound
  rw [DupQueue.size, h.numSlots, toNat_ofNat (by omega)]

theorem At.filled_eq (h : At k w r q) : q.filled = ahead (2 ^ k) r w := by
  have hk := two_pow_le h.bound
  have hw := h.widx_lt
  have hr := h.ridx_lt
  rw [DupQueue.filled, h.size_eq, h.ridx, h.widx, toNat_ofNat (by omega), toNat_ofNat (by omega)]

theorem At.filled_lt (h : At k w r q) : q.filled < 2 ^ k := by
  rw [h.filled_eq]
  exact ahead_lt (Nat.two_pow_pos k)

theorem At.free_eq (h : At k w r q) : q.free = 2 ^ k - 1 - q.filled := by
  rw [DupQueue.free, h.size_eq]

theorem At.writeAdv (h : At k w r q) (c : ℕ) :
    At k (pos (2 ^ k) w c) r (dupQueueWriteAdv q (Int32.ofNat c)) where
  bound := h.bound
  widx_lt := pos_lt (Nat.two_pow_pos k)
  ridx_lt := h.ridx_lt
  numSlots := h.numSlots
  mask := h.mask
  widx := by
    have hk := h.bound
    rw [dupQueueWriteAdv, h.widx, h.mask, ← Int32.ofNat_add, int32_and_mask _ (by omega), pos]
  ridx := h.ridx

theorem At.readAdv (h : At k w r q) (c : ℕ) :
    At k w (pos (2 ^ k) r c) (dupQueueReadAdv q (Int32.ofNat c)) where
  bound := h.bound
  widx_lt := h.widx_lt
  ridx_lt := pos_lt (Nat.two_pow_pos k)
  numSlots := h.numSlots
  mask := h.mask
  widx := h.widx
  ridx := by
    have hk := h.bound
    rw [dupQueueReadAdv, h.ridx, h.mask, ← Int32.ofNat_add, int32_and_mask _ (by omega), pos]

theorem masked_sub {a b : ℕ} (hk : k ≤ 30) (hb : b < 2 ^ k) :
    (Int32.ofNat a - Int32.ofNat b + Int32.ofNat (2 ^ k)) &&& Int32.ofNat (2 ^ k - 1) =
      Int32.ofNat (ahead (2 ^ k) b a) := by
  rw [int32_sub_add (by omega), int32_and_mask _ (by omega), ahead]

/-- Without the ring size added the mask cuts the sign bits off instead. -/
theorem masked_diff {a b : ℕ} (hk : k ≤ 30) (hb : b < 2 ^ k) :
    (Int32.ofNat a - Int32.ofNat b) &&& Int32.ofNat (2 ^ k - 1) =
      Int32.ofNat (ahead (2 ^ k) b a) := by
  have hn := two_pow_le hk
  obtain ⟨c, hc⟩ : 2 ^ k ∣ 2 ^ 32 := Nat.pow_dvd_pow 2 (by omega)
  have hwrap : Int32.ofNat a - Int32.ofNat b = Int32.ofNat (a + 2 ^ 32 - b) := by
    rw [Int32.ofNat_sub _ _ (by omega), Int32.ofNat_add]
    simp
  cases c with
  | zero => simp at hc
  | succ c =>
    have hsum : a + 2 ^ 32 - b = (a + 2 ^ k - b) + 2 ^ k * c := by
      rw [hc, Nat.mul_add]
      omega
    rw [hwrap, int32_and_mask _ (by omega), ahead, hsum, Nat.add_mul_mod_self_left]

end

end Dpa.Duplicator
