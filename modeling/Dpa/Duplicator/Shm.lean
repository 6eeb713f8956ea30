import Dpa.Duplicator.Process
import Mathlib.Data.Int.Bitwise
import Mathlib.Data.Nat.Log

namespace Dpa.Duplicator

open Function MachineWord

structure Member where
  size : ℕ
  align : ℕ
  count : ℕ

def endOf : List Member → ℕ → ℕ
  | [], n => n
  | m :: ms, n => endOf ms (alignUp n m.align + m.size * m.count)

def sizeof (ms : List Member) : ℕ := alignUp (endOf ms 0) ((ms.map Member.align).foldl max 1)

def offsetof (ms : List Member) (k : ℕ) : ℕ :=
  alignUp (endOf (ms.take k) 0) ((ms.map Member.align).getD k 1)

def charT : Member := ⟨1, 1, 1⟩
def uint16T : Member := ⟨2, 2, 1⟩
def int32T : Member := ⟨4, 4, 1⟩
def uint32T : Member := ⟨4, 4, 1⟩
def uint64T : Member := ⟨8, 8, 1⟩
def ptrdiffT : Member := ⟨8, 8, 1⟩

/-- `dup_slot_t` on a 64-bit machine. -/
def dupSlotT : List Member :=
  [uint16T, uint16T, { charT with count := 64 / 8 - 2 * 2 }, { charT with count := 0 }]

def dupQueueT : List Member :=
  [int32T, int32T, int32T, int32T, int32T, int32T, uint64T, uint64T, ptrdiffT]

def dupShmT : List Member :=
  [uint32T, uint32T, uint32T, uint32T, uint64T, ⟨sizeof dupQueueT, 8, 0⟩]

def libDupSlot : List Member :=
  [uint16T, uint16T, { charT with count := 64 / 8 - 2 * 2 }, { charT with count := 0 }]

def libDupQueue : List Member :=
  [int32T, int32T, int32T, int32T, int32T, int32T, uint64T, uint64T, ptrdiffT]

def libDupShm : List Member :=
  [uint32T, uint32T, uint32T, uint32T, uint64T, ⟨sizeof libDupQueue, 8, 0⟩]

structure DupShm where
  magic : ℕ
  memSize : ℕ
  numQueues : ℕ
  queueSize : ℕ
  devCap : ℤ

/-- The file: its size, its header, and what is at an address taken as a queue. All addresses are
relative to the beginning of the file. -/
structure ShmFile where
  size : ℤ
  header : DupShm
  queue : ℤ → DupQueue

def dupMagic : ℕ := 0xFBB854F0

/-- The rounding of `num_slots` and `slot_size`, `pow` and `log` being exact. -/
def roundPow (x : Int32) : Int32 :=
  if (x - 1) &&& x ≠ 0 then Int32.ofNat (2 ^ Nat.clog 2 x.toInt.toNat) else x

def shmHdrSize (numQueues slotSize : Int32) : ℤ :=
  let hdrSize : ℤ := sizeof dupShmT + numQueues.toInt * sizeof dupQueueT
  (hdrSize + (slotSize - 1).toInt).land (~~~(slotSize - 1)).toInt

def shmMemSize (pageSize hdrSize : ℤ) (numQueues numSlots slotSize : Int32) : ℤ :=
  let memSize := hdrSize + (numQueues * numSlots * slotSize).toInt
  if memSize > pageSize then (memSize + (pageSize - 1)).land (~~~(pageSize - 1)) else pageSize

def initQueues (numSlots slotSize : Int32) : ℕ → ℕ → ℤ → (ℤ → DupQueue) → ℤ → DupQueue
  | 0, _, _, mem => mem
  | n + 1, i, bufSlot, mem =>
    let queue : ℤ := sizeof dupShmT + i * sizeof dupQueueT
    initQueues numSlots slotSize n (i + 1) (bufSlot + (numSlots * slotSize).toInt)
      (update mem queue
        (dupQueueInit (mem queue) (Int32.ofNat i) numSlots slotSize (bufSlot - queue)))

def zeroQueue : DupQueue := ⟨0, 0, 0, 0, 0, 0, 0, 0, 0⟩

/-- `dup_shm_init`; `mapped` is whether the file can be opened, locked, truncated and mapped. -/
def dupShmInit (pageSize : ℤ) (mapped : Bool) (devName : Option String)
    (numQueues slotSize numSlots : Int32) (devCap : ℤ) : Option ShmFile :=
  if numQueues = 0 ∨ numSlots = 0 ∨ slotSize = 0 ∨ devName = none then none
  else
    let numSlots := roundPow numSlots
    let slotSize := roundPow slotSize
    let hdrSize := shmHdrSize numQueues slotSize
    if pageSize ≤ 0 then none
    else
      let memSize := shmMemSize pageSize hdrSize numQueues numSlots slotSize
      if mapped then
        some
          { size := memSize
            queue := initQueues numSlots slotSize numQueues.toInt.toNat 0 hdrSize fun _ ↦ zeroQueue
            header :=
              { magic := dupMagic
                memSize := u32 memSize
                numQueues := u32 numQueues.toInt
                queueSize := sizeof dupQueueT
                devCap := devCap } }
      else none

def dupShmQueue (i : ℕ) : ℤ := offsetof dupShmT 5 + i * sizeof dupQueueT

/-- `DUP_SLOT`, from `DUP_SLOT_BEGIN`, in queue `i` of the file. -/
def dupSlotAt (f : ShmFile) (i : ℕ) (x : Int32) : ℤ :=
  let q := f.queue (dupShmQueue i)
  dupShmQueue i + q.slotOffs + (x * q.slotSize).toInt

def libDupShmQueue (i : ℕ) : ℤ := offsetof libDupShm 5 + i * sizeof libDupQueue

/-- `DUP_SLOT` of the library. -/
def libDupSlotAt (f : ShmFile) (i : ℕ) (x : Int32) : ℤ :=
  let q := f.queue (libDupShmQueue i)
  libDupShmQueue i + q.slotOffs + (x * q.slotSize).toInt

def bnx2RxOffset : ℕ := 18

/-- `max_pkt_size` of `dup_proc_bnx2`. -/
def Config.maxPktSizeBnx2 (cfg : Config) : ℕ := u16 (cfg.bufSize - bnx2RxOffset)

@[simp] theorem sizeof_dupShmT : sizeof dupShmT = 24 := by decide

@[simp] theorem sizeof_dupQueueT : sizeof dupQueueT = 48 := by decide

theorem offsetof_queue : offsetof dupShmT 5 = 24 := by decide

theorem offsetof_packet : offsetof dupSlotT 3 = dupSlotPacketOffset := by decide

section

variable {n m i j q a b : ℕ} {mem : ℤ → DupQueue} {h : ℤ}

theorem le_ldiff_add (y m : ℕ) : y ≤ Nat.ldiff y m + m := by
  induction y using Nat.binaryRec generalizing m with
  | zero => exact Nat.zero_le _
  | bit b y ih =>
    have hm := ih (m / 2)
    rw [← Nat.bit_bodd_div2 m, Nat.ldiff_bit, Nat.div2_val, Nat.bit_val, Nat.bit_val, Nat.bit_val]
    cases b with
    | false => simp only [Bool.false_and, Bool.toNat_false]; omega
    | true =>
      cases m.bodd with
      | false => simp only [Bool.true_and, Bool.not_false, Bool.toNat_true, Bool.toNat_false]; omega
      | true => simp only [Bool.true_and, Bool.not_true, Bool.toNat_true, Bool.toNat_false]; omega

/-- Rounding up in this way does not round down, whatever is rounded to. -/
theorem le_land_not (x m : ℕ) : (x : ℤ) ≤ ((x : ℤ) + m).land (~~~(m : ℤ)) := by
  have h := le_ldiff_add (x + m) m
  change (x : ℤ) ≤ ((x + m).ldiff m : ℕ)
  omega

theorem roundPow_ofNat (hn : 1 ≤ n) (hlt : n < 2 ^ 31) :
    roundPow (Int32.ofNat n) = Int32.ofNat (2 ^ Nat.clog 2 n) := by
  have hand : (Int32.ofNat n - 1) &&& Int32.ofNat n = Int32.ofNat ((n - 1) &&& n) := by
    have hone : (1 : Int32) = Int32.ofNat 1 := rfl
    rw [hone, ← Int32.ofNat_sub _ _ hn]
    apply Int32.toBitVec_inj.1
    rw [Int32.toBitVec_and, Int32.toBitVec_ofNat', Int32.toBitVec_ofNat', Int32.toBitVec_ofNat']
    exact (BitVec.ofNat_and ..).symm
  have hle : (n - 1) &&& n ≤ n := Nat.and_le_right
  rw [roundPow, hand]
  by_cases hzero : (n - 1) &&& n = 0
  · obtain ⟨k, rfl⟩ := (Nat.and_sub_one_eq_zero_iff_isPowerOfTwo (by omega)).1
      ((Nat.and_comm ..).trans hzero)
    rw [hzero, if_neg fun h ↦ h rfl, Nat.clog_pow 2 k (by decide)]
  · rw [if_pos fun h ↦ hzero ((int32_ofNat_eq_zero (by omega)).1 h), Int32.toInt_ofNat_of_lt hlt,
      Int.toNat_natCast]

theorem dupShmQueue_eq (i : ℕ) : dupShmQueue i = 24 + 48 * i := by
  rw [dupShmQueue, offsetof_queue, sizeof_dupQueueT]
  omega

theorem dupShmQueue_inj (hij : dupShmQueue i = dupShmQueue j) : i = j := by
  rw [dupShmQueue_eq, dupShmQueue_eq] at hij
  omega

theorem initQueues_queue {numSlots slotSize : Int32} (hj : j < i + n) :
    initQueues numSlots slotSize n i h mem (dupShmQueue j) =
      if j < i then mem (dupShmQueue j)
      else dupQueueInit (mem (dupShmQueue j)) (Int32.ofNat j) numSlots slotSize
        (h + (j - i : ℕ) * (numSlots * slotSize).toInt - dupShmQueue j) := by
  induction n generalizing i h mem with
  | zero => rw [initQueues, if_pos (by omega)]
  | succ n ih =>
    have haddr : ((sizeof dupShmT : ℤ) + i * sizeof dupQueueT) = dupShmQueue i := by
      rw [dupShmQueue, offsetof_queue, sizeof_dupShmT]
    rw [initQueues, haddr, ih (by omega)]
    by_cases hji : j < i
    · have hne : dupShmQueue j ≠ dupShmQueue i := fun h ↦ by
        have := dupShmQueue_inj h
        omega
      rw [if_pos (by omega), if_pos hji, update_of_ne hne]
    · by_cases hji' : j = i
      · rw [hji', if_pos (by omega), if_neg (by omega), update_self, Nat.sub_self]
        simp
      · have hne : dupShmQueue j ≠ dupShmQueue i := fun h ↦ hji' (dupShmQueue_inj h)
        have hsub : ((j - i : ℕ) : ℤ) = (j - (i + 1) : ℕ) + 1 := by omega
        rw [if_neg (by omega), if_neg hji, update_of_ne hne, hsub]
        congr 1
        ring

theorem toInt_not {x : Int32} (hx : x.toInt = m) : (~~~x).toInt = ~~~(m : ℤ) := by
  have hlt := x.toInt_lt
  have hnot : ~~~(m : ℤ) = -m - 1 := by
    change Int.negSucc m = -m - 1
    omega
  rw [Int32.toInt_not, hx, hnot]
  exact Int.bmod_eq_of_le (by omega) (by omega)

theorem le_shmHdrSize (hq : q < 2 ^ 31) (hb : b ≤ 30) :
    24 + 48 * (q : ℤ) ≤ shmHdrSize (Int32.ofNat q) (Int32.ofNat (2 ^ b)) := by
  have hpow := two_pow_le hb
  have hpos := Nat.two_pow_pos b
  have hone : (1 : Int32) = Int32.ofNat 1 := rfl
  have hmask : (Int32.ofNat (2 ^ b) - 1).toInt = (2 ^ b - 1 : ℕ) := by
    rw [hone, ← Int32.ofNat_sub _ _ hpos, Int32.toInt_ofNat_of_lt (by omega)]
  have hle := le_land_not (24 + 48 * q) (2 ^ b - 1)
  rw [shmHdrSize, toInt_not hmask, hmask, Int32.toInt_ofNat_of_lt hq, sizeof_dupShmT,
    sizeof_dupQueueT]
  have hcast : ((24 : ℕ) : ℤ) + q * (48 : ℕ) = (24 + 48 * q : ℕ) := by
    push_cast
    ring
  rw [hcast]
  push_cast at hle ⊢
  exact hle

theorem le_shmMemSize {pageSize : ℤ} (hpage : 0 < pageSize) (hh : 0 ≤ h)
    (hprod : q * 2 ^ a * 2 ^ b < 2 ^ 31) :
    h + q * 2 ^ a * 2 ^ b ≤
      shmMemSize pageSize h (Int32.ofNat q) (Int32.ofNat (2 ^ a)) (Int32.ofNat (2 ^ b)) := by
  have hmul : (Int32.ofNat q * Int32.ofNat (2 ^ a) * Int32.ofNat (2 ^ b)).toInt =
      (q * 2 ^ a * 2 ^ b : ℕ) := by
    rw [← Int32.ofNat_mul, ← Int32.ofNat_mul, Int32.toInt_ofNat_of_lt hprod]
  rw [shmMemSize, hmul]
  obtain ⟨x, hx⟩ := Int.eq_ofNat_of_zero_le (a := h + (q * 2 ^ a * 2 ^ b : ℕ)) (by omega)
  obtain ⟨p, hp⟩ := Int.eq_ofNat_of_zero_le (a := pageSize - 1) (by omega)
  have hsum : h + q * 2 ^ a * 2 ^ b = (x : ℤ) := by
    rw [← hx]
    push_cast
    rfl
  rw [hsum]
  rw [hx, hp]
  by_cases hlt : (x : ℤ) > pageSize
  · rw [if_pos hlt]
    exact le_land_not x p
  · rw [if_neg hlt]
    exact not_lt.1 hlt

end

def ShmFile.queueAt (f : ShmFile) (i : ℕ) : DupQueue := f.queue (dupShmQueue i)

structure Laid (f : ShmFile) (hdrSize : ℤ) (numQueues bufSize : ℕ) : Prop where
  header : (sizeof dupShmT : ℤ) ≤ hdrSize
  queues : ∀ i < numQueues,
    sizeof dupShmT ≤ dupShmQueue i ∧ dupShmQueue i + sizeof dupQueueT ≤ hdrSize
  power : ∀ i < numQueues, ∃ k ≤ 30, (f.queueAt i).numSlots = Int32.ofNat (2 ^ k) ∧
    (f.queueAt i).mask = (f.queueAt i).numSlots - 1
  inside : ∀ i < numQueues, ∀ x < (f.queueAt i).size,
    hdrSize ≤ dupSlotAt f i (Int32.ofNat x) ∧
      dupSlotAt f i (Int32.ofNat x) + (f.queueAt i).slotSize.toInt ≤ f.size
  disjoint : ∀ i < numQueues, ∀ x < (f.queueAt i).size, ∀ j < numQueues,
    ∀ y < (f.queueAt j).size, (i, x) ≠ (j, y) →
      dupSlotAt f i (Int32.ofNat x) + (f.queueAt i).slotSize.toInt ≤ dupSlotAt f j (Int32.ofNat y) ∨
      dupSlotAt f j (Int32.ofNat y) + (f.queueAt j).slotSize.toInt ≤ dupSlotAt f i (Int32.ofNat x)
  members : libDupSlot = dupSlotT ∧ libDupQueue = dupQueueT ∧ libDupShm = dupShmT
  agree : ∀ i x, libDupSlotAt f i x = dupSlotAt f i x
  fits : ∀ i < numQueues, ∀ cfg : Config, cfg.bufSize = u16 bufSize → ∀ len,
    len ≤ cfg.maxPktSize ∨ len ≤ cfg.maxPktSizeBnx2 →
      (offsetof dupSlotT 3 + len : ℕ) ≤ (f.queueAt i).slotSize.toInt

section

variable {n q a b bufSize : ℕ}

/-- A packet that fits into a buffer fits into a slot, also where the buffer size does not fit into
the `uint16_t` that the ring has for it. -/
theorem packet_fits {cfg : Config} (hbuf : 1024 ≤ bufSize) (hcfg : cfg.bufSize = u16 bufSize)
    (hb : bufSize ≤ 2 ^ b) {len : ℕ} (hlen : len ≤ cfg.maxPktSize ∨ len ≤ cfg.maxPktSizeBnx2) :
    dupSlotPacketOffset + len ≤ 2 ^ b := by
  have hring : cfg.bufSize = bufSize % 65536 := hcfg.trans (u16_natCast bufSize)
  have hintel : (cfg.maxPktSize : ℤ) = ((bufSize % 65536 : ℕ) - 8 : ℤ) % 65536 := by
    rw [Config.maxPktSize, hring, u16, Int.toNat_of_nonneg (Int.emod_nonneg _ (by decide))]
    rfl
  have hbnx2 : (cfg.maxPktSizeBnx2 : ℤ) = ((bufSize % 65536 : ℕ) - 18 : ℤ) % 65536 := by
    rw [Config.maxPktSizeBnx2, hring, u16, Int.toNat_of_nonneg (Int.emod_nonneg _ (by decide))]
    rfl
  have hoff : dupSlotPacketOffset = 8 := rfl
  rcases Nat.lt_or_ge 16 b with hlarge | hsmall
  · have hpow : 2 ^ 17 ≤ 2 ^ b := Nat.pow_le_pow_right (by decide) hlarge
    omega
  · have hpow : 2 ^ b ≤ 2 ^ 16 := Nat.pow_le_pow_right (by decide) hsmall
    omega

theorem queueAt_eq {f : ShmFile} {h : ℤ} {i : ℕ}
    (hf : f.queue = initQueues (Int32.ofNat (2 ^ a)) (Int32.ofNat (2 ^ b)) q 0 h fun _ ↦ zeroQueue)
    (hi : i < q) : f.queueAt i = dupQueueInit zeroQueue (Int32.ofNat i) (Int32.ofNat (2 ^ a))
      (Int32.ofNat (2 ^ b))
      (h + i * (Int32.ofNat (2 ^ a) * Int32.ofNat (2 ^ b)).toInt - dupShmQueue i) := by
  rw [ShmFile.queueAt, hf, initQueues_queue (by omega), if_neg (Nat.not_lt_zero i), Nat.sub_zero]

theorem mul_pow_le {u v : ℕ} (huv : u ≤ v) : u * 2 ^ b ≤ v * 2 ^ b := Nat.mul_le_mul_right _ huv

theorem dupSlotAt_eq {f : ShmFile} {h : ℤ} {i x : ℕ} (hprod : q * 2 ^ a * 2 ^ b < 2 ^ 31)
    (hf : f.queue = initQueues (Int32.ofNat (2 ^ a)) (Int32.ofNat (2 ^ b)) q 0 h fun _ ↦ zeroQueue)
    (hi : i < q) (hx : x < 2 ^ a) :
    dupSlotAt f i (Int32.ofNat x) = h + ((i * 2 ^ a + x) * 2 ^ b : ℕ) := by
  have hrow : 2 ^ a ≤ q * 2 ^ a := Nat.le_mul_of_pos_left _ (by omega)
  have hqueue : 2 ^ a * 2 ^ b < 2 ^ 31 := (mul_pow_le hrow).trans_lt hprod
  have hslot : x * 2 ^ b < 2 ^ 31 := (mul_pow_le (hx.le.trans hrow)).trans_lt hprod
  have hq := queueAt_eq hf hi
  rw [ShmFile.queueAt] at hq
  rw [dupSlotAt, hq]
  simp only [dupQueueInit]
  rw [← Int32.ofNat_mul, ← Int32.ofNat_mul, Int32.toInt_ofNat_of_lt hqueue,
    Int32.toInt_ofNat_of_lt hslot]
  push_cast
  ring

theorem slot_index_lt {i x : ℕ} (hi : i < q) (hx : x < n) : i * n + x + 1 ≤ q * n :=
  calc i * n + x + 1 ≤ i * n + n := by omega
    _ = (i + 1) * n := (Nat.succ_mul i n).symm
    _ ≤ q * n := Nat.mul_le_mul_right n hi

theorem mul_add_div_pow {i x : ℕ} (hx : x < 2 ^ a) : (i * 2 ^ a + x) / 2 ^ a = i := by
  rw [Nat.mul_comm, Nat.mul_add_div (Nat.two_pow_pos a), Nat.div_eq_of_lt hx, Nat.add_zero]

theorem laid_of_pow {f : ShmFile} {h : ℤ} (hh : 24 + 48 * (q : ℤ) ≤ h) (ha : a ≤ 30) (hb30 : b ≤ 30)
    (hprod : q * 2 ^ a * 2 ^ b < 2 ^ 31) (hsize : h + (q * 2 ^ a * 2 ^ b : ℕ) ≤ f.size)
    (hf : f.queue = initQueues (Int32.ofNat (2 ^ a)) (Int32.ofNat (2 ^ b)) q 0 h fun _ ↦ zeroQueue)
    (hbuf : 1024 ≤ bufSize) (hb : bufSize ≤ 2 ^ b) : Laid f h q bufSize := by
  have hslots : ∀ i < q, (f.queueAt i).size = 2 ^ a := fun i hi ↦ by
    have hpow := two_pow_le ha
    rw [DupQueue.size, queueAt_eq hf hi]
    exact toNat_ofNat (by omega)
  have hslotSize : ∀ i < q, (f.queueAt i).slotSize.toInt = (2 ^ b : ℕ) := fun i hi ↦ by
    have hpow := two_pow_le hb30
    rw [queueAt_eq hf hi]
    exact Int32.toInt_ofNat_of_lt (by omega)
  have hfollows : ∀ {i x j y}, i < q → x < 2 ^ a → j < q → y < 2 ^ a →
      i * 2 ^ a + x < j * 2 ^ a + y → dupSlotAt f i (Int32.ofNat x) + (2 ^ b : ℕ) ≤
        dupSlotAt f j (Int32.ofNat y) := by
    intro i x j y hi hx hj hy hlt
    have hle : (i * 2 ^ a + x) * 2 ^ b + 2 ^ b ≤ (j * 2 ^ a + y) * 2 ^ b := by
      rw [← Nat.succ_mul]
      exact mul_pow_le hlt
    rw [dupSlotAt_eq hprod hf hi hx, dupSlotAt_eq hprod hf hj hy]
    omega
  refine
    { header := by rw [sizeof_dupShmT]; omega
      queues := fun i hi ↦ ?_
      power := fun i hi ↦ ⟨a, ha, ?_⟩
      inside := fun i hi x hx ↦ ?_
      disjoint := fun i hi x hx j hj y hy hne ↦ ?_
      members := ⟨rfl, rfl, rfl⟩
      agree := fun i x ↦ rfl
      fits := fun i hi cfg hcfg len hlen ↦ ?_ }
  · rw [sizeof_dupShmT, sizeof_dupQueueT, dupShmQueue_eq]
    omega
  · rw [queueAt_eq hf hi]
    exact ⟨rfl, rfl⟩
  · rw [hslots i hi] at hx
    have hle : (i * 2 ^ a + x) * 2 ^ b + 2 ^ b ≤ q * 2 ^ a * 2 ^ b := by
      rw [← Nat.succ_mul]
      exact mul_pow_le (slot_index_lt hi hx)
    rw [hslotSize i hi, dupSlotAt_eq hprod hf hi hx]
    omega
  · rw [hslots i hi] at hx
    rw [hslots j hj] at hy
    rw [hslotSize i hi, hslotSize j hj]
    rcases Nat.lt_trichotomy (i * 2 ^ a + x) (j * 2 ^ a + y) with hlt | heq | hlt
    · exact .inl (hfollows hi hx hj hy hlt)
    · have hij : i = j := by rw [← mul_add_div_pow (i := i) hx, heq, mul_add_div_pow hy]
      rw [hij] at heq
      exact absurd (Prod.ext hij (Nat.add_left_cancel heq)) hne
    · exact .inr (hfollows hj hy hi hx hlt)
  · rw [hslotSize i hi, offsetof_packet]
    exact_mod_cast packet_fits hbuf hcfg hb hlen

theorem exists_ofNat {k : ℕ} {x : Int32} (hk : k < 2 ^ 31) (hx : Int32.ofNat k ≤ x) :
    ∃ n, k ≤ n ∧ n < 2 ^ 31 ∧ x = Int32.ofNat n := by
  have hlt := x.toInt_lt
  have hle := Int32.le_iff_toInt_le.1 hx
  rw [Int32.toInt_ofNat_of_lt hk] at hle
  refine ⟨x.toInt.toNat, by omega, by omega, Int32.toInt_inj.1 ?_⟩
  rw [Int32.toInt_ofNat_of_lt (by omega), Int.toNat_of_nonneg (by omega)]

theorem pow_le_of_mul {m k : ℕ} (h : m * 2 ^ k < 2 ^ 31) (hm : 1 ≤ m) : k ≤ 30 := by
  have hpow : 2 ^ k < 2 ^ 31 := (Nat.le_mul_of_pos_left _ hm).trans_lt h
  exact Nat.lt_succ_iff.1 ((Nat.pow_lt_pow_iff_right (by decide)).1 hpow)

theorem dupShmInit_laid {numQueues slotSize numSlots : Int32} {pageSize devCap : ℤ} {devName : String}
    (hpage : 0 < pageSize) (hq₁ : 1 ≤ numQueues) (hn₁ : 1 ≤ numSlots) (hs₁ : 1024 ≤ slotSize)
    (hprod : numQueues.toInt.toNat * 2 ^ Nat.clog 2 numSlots.toInt.toNat *
      2 ^ Nat.clog 2 slotSize.toInt.toNat < 2 ^ 31) :
    ∃ f, dupShmInit pageSize true (some devName) numQueues slotSize numSlots devCap = some f ∧
      Laid f (shmHdrSize numQueues (roundPow slotSize)) numQueues.toInt.toNat
        slotSize.toInt.toNat := by
  obtain ⟨q, hq, hqlt, rfl⟩ := exists_ofNat (k := 1) (by decide) hq₁
  obtain ⟨n, hn, hnlt, rfl⟩ := exists_ofNat (k := 1) (by decide) hn₁
  obtain ⟨s, hs, hslt, rfl⟩ := exists_ofNat (k := 1024) (by decide) hs₁
  rw [toNat_ofNat hqlt, toNat_ofNat hnlt, toNat_ofNat hslt] at hprod
  rw [toNat_ofNat hqlt, toNat_ofNat hslt, roundPow_ofNat (by omega) hslt]
  have hrow : q * 2 ^ Nat.clog 2 n < 2 ^ 31 :=
    (Nat.le_mul_of_pos_right _ (Nat.two_pow_pos _)).trans_lt hprod
  have ha := pow_le_of_mul hrow hq
  have hb := pow_le_of_mul hprod (Nat.mul_pos hq (Nat.two_pow_pos _))
  have hne : ∀ {x : ℕ}, 1 ≤ x → x < 2 ^ 31 → Int32.ofNat x ≠ 0 := fun h hlt h0 ↦ by
    have := (int32_ofNat_eq_zero hlt).1 h0
    omega
  have hh := le_shmHdrSize hqlt hb
  have hargs : ¬(Int32.ofNat q = 0 ∨ Int32.ofNat n = 0 ∨ Int32.ofNat s = 0 ∨
      some devName = none) := by
    rintro (h | h | h | h)
    · exact hne hq hqlt h
    · exact hne hn hnlt h
    · exact hne (by omega) hslt h
    · cases h
  rw [dupShmInit, if_neg hargs, if_neg (not_le.2 hpage), if_pos rfl, roundPow_ofNat hn hnlt,
    roundPow_ofNat (by omega) hslt, toNat_ofNat hqlt]
  refine ⟨_, rfl, laid_of_pow hh ha hb hprod ?_ rfl hs (Nat.le_pow_clog (by decide) s)⟩
  push_cast
  exact le_shmMemSize hpage (by omega) hprod

theorem dupShmInit_laid_rounded : ∃ f, dupShmInit 4096 true (some "eth0") 3 1500 1000 0 = some f ∧
    Laid f (shmHdrSize 3 (roundPow 1500)) 3 1500 :=
  dupShmInit_laid (by decide) (by decide) (by decide) (by decide) (by decide)

end

end Dpa.Duplicator
