import Dpa.Library.MachineWord
import Dpa.Library.Cyclic

namespace Dpa.Kernel

open MachineWord Cyclic

variable {β : Type}

structure DpaSlot where
  bufIdx : ℕ
  len : ℕ
  info : ℕ
  deriving DecidableEq, Inhabited

/-- `struct dpa_ring`, the ring mapped into the user process. -/
structure DpaRing where
  numSlots : ℕ
  avail : ℕ
  cur : ℕ
  reserved : ℕ
  hwOfs : ℤ
  bufSize : ℕ
  slot : ℕ → DpaSlot

def dpaRingNext (ring : DpaRing) (i : ℕ) : ℕ :=
  if u32 (i + 1) = ring.numSlots then 0 else u32 (i + 1)

def DpaRing.consume (ring : DpaRing) (numSlots count reserved : ℕ) : DpaRing :=
  { ring with
    cur := (ring.cur + count) % numSlots
    avail := ring.avail - count
    reserved := reserved }

/-- `struct dpa_kring`, less its lock, its wait queue and its pointers. -/
structure DpaKring where
  nrHwcur : ℕ
  nrHwavail : ℤ
  nrKflags : ℕ
  nkrNumSlots : ℕ
  nkrHwofs : ℤ
  totalPackets : ℕ
  totalBytes : ℕ
  deriving DecidableEq

def dpaSlotInfoVid : ℕ := 0x0FFF
def dpaSlotInfoIpv4 : ℕ := 0x1000
def dpaSlotInfoIpv6 : ℕ := 0x2000
def dpaSlotInfoTcp : ℕ := 0x4000
def dpaSlotInfoUdp : ℕ := 0x8000

def dpaKrPendIntr : ℕ := 0x1

def dpaPendIntr : ℕ := 0

def dpaIdxN2k (kr : DpaKring) (idx : ℤ) : ℤ :=
  let n := s32 kr.nkrNumSlots
  let idx := s32 (idx + kr.nkrHwofs)
  if idx < 0 then s32 (idx + n) else if idx < n then idx else s32 (idx - n)

def dpaIdxK2n (kr : DpaKring) (idx : ℤ) : ℤ :=
  let n := s32 kr.nkrNumSlots
  let idx := s32 (idx - kr.nkrHwofs)
  if idx < 0 then s32 (idx + n) else if idx < n then idx else s32 (idx - n)

/-- The offset between the NIC ring and the user ring that `dpa_reset` computes. -/
def resetHwofs (kring : DpaKring) (newCur : ℕ) : ℤ :=
  let newHwofs := s32 (u32 (u32 (kring.nrHwcur + kring.nrHwavail) - newCur))
  let numSlots := s32 (u32 (kring.nkrNumSlots - 1))
  if newHwofs > numSlots then s32 (newHwofs - s32 (numSlots + 1)) else newHwofs

/-- `dpa_reset` on a ring of an enabled interface. -/
def dpaReset (kring : DpaKring) (newCur : ℕ) : DpaKring :=
  { kring with nkrHwofs := resetHwofs kring newCur }

section

variable (kring : DpaKring) (newCur : ℕ)

@[simp] theorem dpaReset_nrHwcur : (dpaReset kring newCur).nrHwcur = kring.nrHwcur := by
  rw [dpaReset]

@[simp] theorem dpaReset_nrHwavail : (dpaReset kring newCur).nrHwavail = kring.nrHwavail := by
  rw [dpaReset]

@[simp] theorem dpaReset_nkrNumSlots :
    (dpaReset kring newCur).nkrNumSlots = kring.nkrNumSlots := by
  rw [dpaReset]

@[simp] theorem dpaReset_nkrHwofs :
    (dpaReset kring newCur).nkrHwofs = resetHwofs kring newCur := by
  rw [dpaReset]

end

section

variable {N o a i : ℕ} {kr : DpaKring}

theorem dpaIdxN2k_eq (hb : N ≤ 2 ^ 30) (hslots : kr.nkrNumSlots = N) (hofs : kr.nkrHwofs = o)
    (ho : o < N) (hi : i < N) : dpaIdxN2k kr i = (pos N i o : ℕ) := by
  have h1 : s32 (kr.nkrNumSlots : ℕ) = N := by rw [hslots, s32_of_mem] <;> omega
  have h2 : s32 (i + kr.nkrHwofs) = i + o := by rw [hofs, s32_of_mem] <;> omega
  unfold dpaIdxN2k
  simp only [h1, h2]
  rw [pos_eq hi ho.le]
  split_ifs <;> first | omega | (rw [s32_of_mem (by omega) (by omega)]; omega)

theorem dpaIdxK2n_eq (hb : N ≤ 2 ^ 30) (hslots : kr.nkrNumSlots = N) (hofs : kr.nkrHwofs = o)
    (ho : o < N) (hi : i < N) : dpaIdxK2n kr i = (ahead N o i : ℕ) := by
  have h1 : s32 (kr.nkrNumSlots : ℕ) = N := by rw [hslots, s32_of_mem] <;> omega
  have h2 : s32 (i - kr.nkrHwofs) = i - o := by rw [hofs, s32_of_mem] <;> omega
  unfold dpaIdxK2n
  simp only [h1, h2]
  rw [ahead_eq ho hi]
  split_ifs <;> first | omega | (rw [s32_of_mem (by omega) (by omega)]; omega)

/-- A reset puts index 0 of the NIC ring where the pending slots end. -/
theorem resetHwofs_eq (hb : N ≤ 2 ^ 30) (hslots : kr.nkrNumSlots = N) (hcur : kr.nrHwcur < N)
    (havail : kr.nrHwavail = a) (ha : a < N) : resetHwofs kr 0 = (pos N kr.nrHwcur a : ℕ) := by
  have hsum : u32 (kr.nrHwcur + kr.nrHwavail) = kr.nrHwcur + a := by
    rw [havail, u32_of_mem (by omega) (by omega)]
    omega
  have hofs : s32 (u32 ((u32 (kr.nrHwcur + kr.nrHwavail) : ℕ) - (0 : ℕ))) = kr.nrHwcur + a := by
    rw [hsum, u32_of_mem (by omega) (by omega), s32_of_mem (by omega) (by omega)]
    omega
  have hnum : s32 (u32 (kr.nkrNumSlots - 1)) = N - 1 := by
    rw [hslots, u32_of_mem (by omega) (by omega), s32_of_mem (by omega) (by omega)]
    omega
  have hN : s32 ((N : ℤ) - 1 + 1) = N := by
    rw [s32_of_mem (by omega) (by omega)]
    omega
  unfold resetHwofs
  simp only [hofs, hnum, hN]
  rw [s32_of_mem (by omega) (by omega), pos_eq hcur ha.le]
  split_ifs <;> omega

end

/-- The step of the ring cursors, `num_slots` being the last index. -/
def ringSucc (numSlots i : ℕ) : ℕ := if i = numSlots then 0 else u32 (i + 1)

theorem ringSucc_next {N i : ℕ} (hb : N < 2 ^ 32) (hi : i < N) :
    ringSucc (N - 1) i = pos N i 1 := by
  rw [← next_eq hi, ringSucc]
  split_ifs with hlast
  · rfl
  · rw [u32_of_mem (by omega) (by omega)]
    rfl

theorem ringSucc_eq {N i : ℕ} (hb : N ≤ 2 ^ 30) (hi : i < N) : ringSucc (N - 1) i = pos N i 1 :=
  ringSucc_next (by omega) hi

theorem ringSucc_pos {N i : ℕ} (hb : N ≤ 2 ^ 30) (hN : 0 < N) (a : ℕ) :
    ringSucc (N - 1) (pos N a i) = pos N a (i + 1) := by
  rw [ringSucc_eq hb (pos_lt hN), pos_pos]

/-- `resvd` after the check that every `rx_sync` makes of it against `ring->avail`; `numSlots`
is the last index. -/
def checkedResvd (numSlots : ℕ) (ring : DpaRing) (resvd : ℕ) : ℕ :=
  if resvd > 0 ∧ u32 (resvd + ring.avail) ≥ u32 (numSlots + 1) then 0 else resvd

def releaseEnd (numSlots u resvd : ℕ) : ℕ :=
  if resvd > 0 then if u ≥ resvd then u - resvd else u32 (u + numSlots + 1 - resvd) else u

section

variable {N c i resvd : ℕ} {ring : DpaRing}

theorem dpaRingNext_pos (hb : N ≤ 2 ^ 30) (hN : 0 < N) (hring : ring.numSlots = N)
    (c : ℕ) : dpaRingNext ring (pos N c i) = pos N c (i + 1) := by
  have hlt := pos_lt (a := c) (i := i) hN
  have hnext := next_eq hlt
  rw [pos_pos] at hnext
  refine Eq.trans ?_ hnext
  rw [dpaRingNext, hring, u32_of_mem (by omega) (by omega)]
  split_ifs <;> omega

theorem checkedResvd_eq (hb : N ≤ 2 ^ 30) (hN : 0 < N) (hle : ring.avail + resvd < N) :
    checkedResvd (N - 1) ring resvd = resvd := by
  unfold checkedResvd
  rw [u32_of_mem (by omega) (by omega), u32_of_mem (by omega) (by omega)]
  split_ifs <;> omega

/-- Where the release loop ends if `cur` is `i` places after `hwcur` and `resvd` of these are
kept. -/
theorem releaseEnd_eq (hb : N ≤ 2 ^ 30) (hc : c < N) (hi : i < N) (hle : resvd ≤ i) :
    releaseEnd (N - 1) (pos N c i) resvd = pos N c (i - resvd) := by
  have hlt := pos_lt (a := c) (i := i) (Nat.zero_lt_of_lt hc)
  unfold releaseEnd
  rw [← pos_sub hc hle hi.le]
  split_ifs with h1 h2
  · rfl
  · rw [u32_of_mem (by omega) (by omega)]
    omega
  · omega
  · omega

end

/-- The packet buffers: how many there are and where the kernel and the devices see each.
Distinct buffers lie at distinct addresses. -/
structure BufferTable where
  total : ℕ
  vaddr : ℕ → ℕ
  paddr : ℕ → ℕ
  vaddr_inj : ∀ i < total, ∀ j < total, vaddr i = vaddr j → i = j
  paddr_inj : ∀ i < total, ∀ j < total, paddr i = paddr j → i = j

/-- `dpa_buffer_base`. -/
def BufferTable.base (t : BufferTable) : ℕ := t.vaddr 0

/-- `BUF_VPA`: the kernel address of a slot's buffer and its device address. -/
def bufVpa (t : BufferTable) (slot : DpaSlot) : ℕ × ℕ :=
  if slot.bufIdx ≥ t.total then (t.vaddr 0, t.paddr 0)
  else (t.vaddr slot.bufIdx, t.paddr slot.bufIdx)

theorem bufVpa_snd {t : BufferTable} {slot : DpaSlot} (h : slot.bufIdx < t.total) :
    (bufVpa t slot).2 = t.paddr slot.bufIdx := by
  rw [bufVpa, if_neg (by omega)]

/-- The module's buffers and `dpa_buf_size`, and whether it is built with
`DPA_PACKET_TYPE_UPDATE`. -/
structure DpaModule where
  bufs : BufferTable
  bufSize : ℕ
  typeUpdate : Bool

/-- A packet as the kernel or a callback sees it: the fields of its slot and the contents of
its buffer. -/
structure Frame (β : Type) where
  len : ℕ
  info : ℕ
  contents : β

def pktPerProcess : ℕ := 2048

/-- The frame in slot `x`, the memory being addressed as the devices do. -/
def frameAt (m : DpaModule) (mem : ℕ → β) (ring : DpaRing) (x : ℕ) : Frame β :=
  ⟨(ring.slot x).len, (ring.slot x).info, mem (m.bufs.paddr (ring.slot x).bufIdx)⟩

theorem frameAt_congr {m : DpaModule} {mem mem' : ℕ → β} {ring ring' : DpaRing}
    {x : ℕ} (hslot : ring'.slot x = ring.slot x)
    (hmem : mem' (m.bufs.paddr (ring.slot x).bufIdx) = mem (m.bufs.paddr (ring.slot x).bufIdx)) :
    frameAt m mem' ring' x = frameAt m mem ring x := by
  rw [frameAt, frameAt, hslot, hmem]

/-- The body of the slot loop of `dpa_ring_reinit`, and whether it counts an error. -/
def reinitSlot (t : BufferTable) (dpaBufSize : ℕ) (slot : DpaSlot) : DpaSlot × Bool :=
  if slot.bufIdx < 2 ∨ slot.bufIdx ≥ t.total then ({ slot with bufIdx := 0, len := 0 }, true)
  else if slot.len > dpaBufSize then ({ slot with len := 0 }, true)
  else (slot, false)

/-- `dpa_ring_reinit`: its result and the user ring it leaves. -/
def dpaRingReinit (t : BufferTable) (dpaBufSize : ℕ) (kring : DpaKring) (ring : DpaRing)
    (forceSync : Bool) : ℕ × DpaRing :=
  let errors := (List.range kring.nkrNumSlots).any fun i ↦ (reinitSlot t dpaBufSize (ring.slot i)).2
  let ring := { ring with
    slot := fun i ↦ if i < kring.nkrNumSlots then (reinitSlot t dpaBufSize (ring.slot i)).1 else ring.slot i }
  let ring := if errors || forceSync then
      { ring with
        cur := kring.nrHwcur
        avail := u32 kring.nrHwavail
        hwOfs := kring.nkrHwofs }
    else ring
  (if errors then 1 else 0, ring)

end Dpa.Kernel
