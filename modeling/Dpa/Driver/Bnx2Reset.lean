import Dpa.Driver.Bnx2Sync

namespace Dpa.Driver

open Kernel MachineWord Cyclic Paged Function

variable {β : Type} {N R o T a i : ℕ} {m : DpaModule} {s s' : Bnx2Queue β}

/-- What a reset relies on: the kernel ring, the sizes and the slots, but not the NIC ring. -/
structure Bnx2Resettable (N R a : ℕ) (m : DpaModule) (s : Bnx2Queue β) : Prop where
  sized : Sized N R
  slots : s.kring.nkrNumSlots = N
  ringSize : s.rxRingSize = R
  maxRingIdx : s.rxMaxRingIdx = N - 1
  hwcur_lt : s.kring.nrHwcur < N
  hwavail : s.kring.nrHwavail = a
  room : a < N
  good : ∀ x < N, (bufVpa m.bufs (s.ring.slot x)).1 ≠ m.bufs.base

theorem Bnx2Core.resettable (hc : Bnx2Core N R o T a m s) : Bnx2Resettable N R a m s :=
  ⟨hc.sized, hc.slots, hc.ringSize, hc.maxRingIdx, hc.hwcur_lt, hc.hwavail, hc.room, hc.good⟩

def Bnx2Queue.cleared (s : Bnx2Queue β) : Bnx2Queue β :=
  s.clearRingStates.withKring (dpaReset s.clearRingStates.kring 0)

section

variable (m : DpaModule) (s : Bnx2Queue β) (kring : DpaKring)

theorem dpaReset_clearRingStates : dpaReset s.clearRingStates.kring 0 = dpaReset s.kring 0 :=
  congrArg (fun k ↦ dpaReset k 0) rfl

theorem clear_fields :
    (s.clearRingStates.withKring kring).kring = kring ∧
      (s.clearRingStates.withKring kring).ring = s.ring ∧
      (s.clearRingStates.withKring kring).rxRingSize = s.rxRingSize ∧
      (s.clearRingStates.withKring kring).rxMaxRingIdx = s.rxMaxRingIdx ∧
      (s.clearRingStates.withKring kring).nic.rxCons = 0 :=
  ⟨rfl, rfl, rfl, rfl, rfl⟩

def confRounds (i : ℕ) : Bnx2Conf :=
  (s.cleared.confRound m)^[i] ⟨0, 0, s.nic.rxBufRing, 0⟩

theorem conf_fields :
    (((s.clearRingStates.withKring kring).confSlots m).tellProd).kring = kring ∧
      (((s.clearRingStates.withKring kring).confSlots m).tellProd).ring = s.ring ∧
      (((s.clearRingStates.withKring kring).confSlots m).tellProd).rxRingSize = s.rxRingSize ∧
      (((s.clearRingStates.withKring kring).confSlots m).tellProd).rxMaxRingIdx =
        s.rxMaxRingIdx ∧
      (((s.clearRingStates.withKring kring).confSlots m).tellProd).mem = s.mem ∧
      (((s.clearRingStates.withKring kring).confSlots m).tellProd).harvested = s.harvested ∧
      (((s.clearRingStates.withKring kring).confSlots m).tellProd).nic.rxCons = 0 ∧
      (((s.clearRingStates.withKring kring).confSlots m).tellProd).nic.hwRxCons = 0 ∧
      (((s.clearRingStates.withKring kring).confSlots m).tellProd).nic.rxProd =
        (((s.clearRingStates.withKring kring).confRound m)^[s.rxRingSize]
          ⟨0, 0, s.nic.rxBufRing, 0⟩).prod ∧
      (((s.clearRingStates.withKring kring).confSlots m).tellProd).nic.bidx =
        (((s.clearRingStates.withKring kring).confRound m)^[s.rxRingSize]
          ⟨0, 0, s.nic.rxBufRing, 0⟩).prod ∧
      (((s.clearRingStates.withKring kring).confSlots m).tellProd).nic.rxBufRing =
        (((s.clearRingStates.withKring kring).confRound m)^[s.rxRingSize]
          ⟨0, 0, s.nic.rxBufRing, 0⟩).rxBufRing :=
  ⟨rfl, rfl, rfl, rfl, rfl, rfl, rfl, rfl, rfl, rfl, rfl⟩

theorem reset_fields :
    (s.reset m).kring = dpaReset s.clearRingStates.kring 0 ∧ (s.reset m).ring = s.ring ∧
      (s.reset m).rxRingSize = s.rxRingSize ∧ (s.reset m).rxMaxRingIdx = s.rxMaxRingIdx ∧
      (s.reset m).mem = s.mem ∧ (s.reset m).harvested = s.harvested ∧
      (s.reset m).nic.rxCons = 0 ∧ (s.reset m).nic.hwRxCons = 0 ∧
      (s.reset m).nic.rxProd = (confRounds m s s.rxRingSize).prod ∧
      (s.reset m).nic.bidx = (confRounds m s s.rxRingSize).prod ∧
      (s.reset m).nic.rxBufRing = (confRounds m s s.rxRingSize).rxBufRing :=
  conf_fields m s (dpaReset s.clearRingStates.kring 0)

end

/-- A queue with a kernel ring that was reset and nothing harvested, whatever its NIC ring holds. -/
theorem Bnx2Resettable.core (hr : Bnx2Resettable N R a m s) {s' : Bnx2Queue β}
    (hk : s'.kring = dpaReset s.kring 0) (hring : s'.ring = s.ring)
    (hsize : s'.rxRingSize = s.rxRingSize) (hmax : s'.rxMaxRingIdx = s.rxMaxRingIdx)
    (hcons : s'.nic.rxCons = 0) : Bnx2Core N R (pos N s.kring.nrHwcur a) 0 a m s' := by
  refine ⟨hr.sized, ?_, ?_, ?_, pos_lt hr.sized.nonempty, ?_, ?_, ?_, hr.room, ?_, ?_⟩
  · rw [hk, dpaReset_nkrNumSlots, hr.slots]
  · rw [hsize, hr.ringSize]
  · rw [hmax, hr.maxRingIdx]
  · rw [hk, dpaReset_nkrHwofs]
    exact resetHwofs_eq hr.sized.bound hr.slots hr.hwcur_lt hr.hwavail hr.room
  · rw [hk, dpaReset_nrHwcur]
    exact hr.hwcur_lt
  · rw [hk, dpaReset_nrHwavail, hr.hwavail]
  · rw [hcons, place_zero]
  · rw [hring]
    exact hr.good

theorem Bnx2Resettable.cleared (hr : Bnx2Resettable N R a m s) :
    Bnx2Core N R (pos N s.kring.nrHwcur a) 0 a m s.cleared := by
  obtain ⟨hk, hring, hsize, hmax, hcons⟩ := clear_fields s (dpaReset s.clearRingStates.kring 0)
  exact hr.core (hk.trans (dpaReset_clearRingStates s)) hring hsize hmax hcons

theorem confRounds_succ (m : DpaModule) (s : Bnx2Queue β) (i : ℕ) :
    confRounds m s (i + 1) = s.cleared.confRound m (confRounds m s i) :=
  iterate_succ_apply' (s.cleared.confRound m) i _

theorem confRounds_prod (m : DpaModule) (s : Bnx2Queue β) (i : ℕ) :
    (confRounds m s i).prod = place 255 i % 65536 := by
  induction i with
  | zero => rfl
  | succ i ih =>
    rw [confRounds_succ, ← nextRxBd_place, ← ih]
    rfl

theorem Bnx2Resettable.conf_ringProd (hr : Bnx2Resettable N R a m s) (i : ℕ) :
    (confRounds m s i).ringProd = place 255 i % N := by
  cases i with
  | zero => exact (Nat.zero_mod N).symm
  | succ i =>
    rw [← hr.cleared.places.rxRingIdx, ← confRounds_prod m s (i + 1), confRounds_succ]
    rfl

theorem Bnx2Resettable.conf_bufRing (hr : Bnx2Resettable N R a m s) (hi : i ≤ R) {j : ℕ}
    (hj : j < i) : (confRounds m s i).rxBufRing (place 255 j) =
      (bufVpa m.bufs (s.ring.slot (pos N (pos N s.kring.nrHwcur a) (place 255 j)))).2 := by
  have hmono := place_strictMono (w := 255) (by decide)
  have hspan (k : ℕ) (hk : k < R) : place 255 k < N := by
    have hsized := hr.sized
    unfold place
    cases hsized <;> omega
  induction i with
  | zero => omega
  | succ i ih =>
    have hprod := hr.conf_ringProd i
    rw [Nat.mod_eq_of_lt (hspan i (by omega))] at hprod
    rw [confRounds_succ]
    change update (confRounds m s i).rxBufRing (confRounds m s i).ringProd
      (bufVpa m.bufs (s.ring.slot (s.cleared.slotOf (confRounds m s i).ringProd))).2 _ = _
    rcases Nat.lt_succ_iff_lt_or_eq.1 hj with hlt | rfl
    · rw [update_of_ne]
      · exact ih (by omega) hlt
      · rw [hprod]
        exact (hmono hlt).ne
    · have hslot := hr.cleared.places.slotOf (place 255 j)
      have hN := hr.sized.le
      have hlt := hspan j (by omega)
      rw [Nat.mod_eq_of_lt (by omega)] at hslot
      rw [hprod, update_self, hslot]

theorem Bnx2Resettable.reset (hr : Bnx2Resettable N R a m s) :
    Bnx2Core N R (pos N s.kring.nrHwcur a) 0 a m (s.reset m) := by
  obtain ⟨hk, hring, hsize, hmax, _, _, hcons, _⟩ := reset_fields m s
  exact hr.core (hk.trans (dpaReset_clearRingStates s)) hring hsize hmax hcons

theorem Bnx2User.reset (hu : Bnx2User N a s) : Bnx2User N a (s.reset m) := by
  obtain ⟨hk, hring, _⟩ := reset_fields m s
  replace hk := hk.trans (dpaReset_clearRingStates s)
  refine ⟨?_, ?_⟩
  · rw [hring]
    exact hu.avail
  · rw [hring, hk, dpaReset_nrHwcur]
    exact hu.cur

/-- The queue as `dpa_new_if` leaves it, before the driver first configures its ring. The module
was loaded for `n` descriptors. -/
structure Bnx2Registered (n : ℕ) (m : DpaModule) (s : Bnx2Queue β) : Prop where
  least : 256 ≤ n
  most : n ≤ 4096
  ringSize : s.rxRingSize = dpaRxRingCount n
  maxRingIdx : s.rxMaxRingIdx = bnx2FindMaxRing s.rxRingSize maxRxRings * rxDescCnt - 1
  slots : s.kring.nkrNumSlots = s.rxMaxRingIdx + 1
  numSlots : s.ring.numSlots = s.kring.nkrNumSlots
  hwcur : s.kring.nrHwcur = 0
  hwavail : s.kring.nrHwavail = 0
  cur : s.ring.cur = 0
  avail : s.ring.avail = 0
  reserved : s.ring.reserved = 0
  good : ∀ x < s.kring.nkrNumSlots, (bufVpa m.bufs (s.ring.slot x)).1 ≠ m.bufs.base
  harvested : s.harvested = []

theorem Bnx2Registered.resettable {n : ℕ} (hs : Bnx2Registered n m s) :
    Bnx2Resettable s.kring.nkrNumSlots s.rxRingSize 0 m s := by
  have hsized := Sized.of_count hs.least hs.most
  have hmax := hs.maxRingIdx
  rw [hs.ringSize] at hmax
  have hN : s.kring.nkrNumSlots = bnx2FindMaxRing (dpaRxRingCount n) maxRxRings * rxDescCnt := by
    rw [hs.slots, hmax]
    have := hsized.nonempty
    omega
  rw [← hN, ← hs.ringSize] at hsized
  refine ⟨hsized, rfl, rfl, ?_, hs.hwcur.trans_lt hsized.nonempty, hs.hwavail, hsized.nonempty,
    hs.good⟩
  rw [hs.slots, Nat.add_sub_cancel]

theorem Bnx2Registered.userSide {n : ℕ} (hs : Bnx2Registered n m s) :
    Bnx2User s.kring.nkrNumSlots 0 s := by
  have hN := hs.resettable.sized.nonempty
  refine ⟨?_, ?_⟩
  · rw [hs.avail, hs.reserved]
  · rw [hs.cur, hs.hwcur, hs.avail, pos_zero hN]

def pageBuffers : DpaModule where
  bufs :=
    { total := 2048
      vaddr := fun i ↦ 1000 + i
      paddr := fun i ↦ 5000 + i
      vaddr_inj := fun _ _ _ _ h ↦ Nat.add_left_cancel h
      paddr_inj := fun _ _ _ _ h ↦ Nat.add_left_cancel h }
  bufSize := 2048
  typeUpdate := false

def twoPages : Bnx2Queue ℕ where
  kring := ⟨0, 0, 0, 512, 0, 0, 0⟩
  ring := ⟨512, 0, 0, 0, 0, 2048, fun i ↦ ⟨i + 2, 0, 0⟩⟩
  nic := ⟨0, 0, 0, fun _ ↦ 0, 0, 0⟩
  rxRingSize := 510
  rxMaxRingIdx := 511
  rxMode := 0
  rxBufUseSize := 1500
  mem := fun _ ↦ ⟨0, 0, 0, 0⟩
  harvested := []

theorem twoPages_valid : ∀ x < 512, (twoPages.ring.slot x).bufIdx < pageBuffers.bufs.total := by
  intro x hx
  change x + 2 < 2048
  omega

theorem twoPages_registered : Bnx2Registered 256 pageBuffers twoPages := by
  refine ⟨by decide, by decide, by decide, by decide +kernel, rfl, rfl, rfl, rfl, rfl, rfl, rfl, ?_,
    rfl⟩
  intro x hx
  rw [bufVpa, if_neg (twoPages_valid x hx).not_ge]
  change 1000 + (x + 2) ≠ 1000 + 0
  omega

end Dpa.Driver
