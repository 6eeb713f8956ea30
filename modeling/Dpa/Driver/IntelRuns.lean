import Mathlib.Logic.Relation
import Dpa.Driver.IntelInvariant

namespace Dpa.Driver

open Kernel MachineWord Cyclic Function Relation

variable {N o a h : ℕ} {bits : RxBits} {m : DpaModule} {s s' s₀ : RxQueue} {drv : Intel}

/-- The queue as `dpa_new_if` leaves it, before the driver first configures its ring. -/
structure Registered (N : ℕ) (m : DpaModule) (s : RxQueue) : Prop where
  nonempty : 0 < N
  bound : N ≤ 2 ^ 30
  hwcur : s.kring.nrHwcur = 0
  hwavail : s.kring.nrHwavail = 0
  slots : s.kring.nkrNumSlots = N
  cur : s.ring.cur = 0
  avail : s.ring.avail = 0
  reserved : s.ring.reserved = 0
  good : GoodSlots N m s
  count : s.nic.count = N
  numRxDescs : s.numRxDescs = N

/-- What can happen to a queue while its carrier is up. -/
inductive Step (drv : Intel) (m : DpaModule) : RxQueue → RxQueue → Prop
  | complete (s : RxQueue) (d : AdvRxDesc) : s.nic.head ≠ s.nic.tail → d.done drv.bits = true →
      Step drv m s { s with nic := s.nic.complete d }
  | rxSync (s : RxQueue) (doLock : Bool) (code : ℕ) (s' : RxQueue) :
      drv.rxSync m true doLock s = some (code, s') → Step drv m s s'
  | consume (s : RxQueue) (count reserved : ℕ) : count ≤ s.ring.avail →
      reserved ≤ s.ring.reserved + count → Step drv m s (s.consume count reserved)
  | reset (s : RxQueue) : Step drv m s (drv.reset m s)

theorem rxSync_eq (drv : Intel) : drv.rxSync = RxQueue.rxSync drv.bits := by
  cases drv with
  | igb => rfl
  | ixgbe => rfl

def Ordered (N : ℕ) (drv : Intel) (m : DpaModule) (s : RxQueue) : Prop :=
  ∃ o a h, Core N o a h drv.bits m s ∧ UserSide N a s

theorem Registered.resettable (hs : Registered N m s) : Resettable N 0 m s :=
  ⟨hs.bound, hs.slots, hs.hwcur.trans_lt hs.nonempty, hs.hwavail, hs.nonempty, hs.count,
    hs.numRxDescs, hs.good⟩

theorem Registered.userSide (hs : Registered N m s) : UserSide N 0 s := by
  refine ⟨?_, ?_⟩
  · rw [hs.avail, hs.reserved]
  · rw [hs.cur, hs.hwcur, hs.avail, pos_zero hs.nonempty]

theorem Resettable.userSide (hr : Resettable N a m s) (hu : UserSide N a s) :
    UserSide N a (drv.reset m s) := by
  obtain ⟨hk, hring, _⟩ := hr.reset_fields drv
  refine ⟨?_, ?_⟩
  · rw [hring]
    exact hu.avail
  · rw [hring, hk, dpaReset_nrHwcur]
    exact hu.cur

theorem Registered.ordered (hs : Registered N m s) : Ordered N drv m (drv.reset m s) :=
  ⟨_, 0, 0, hs.resettable.reset drv drv.bits, hs.resettable.userSide hs.userSide⟩

theorem Core.withRing (hc : Core N o a h bits m s) {ring : DpaRing}
    (hslot : ring.slot = s.ring.slot) : Core N o a h bits m { s with ring := ring } where
  toIndexed := ⟨hc.nonempty, hc.bound, hc.slots, hc.ofs_lt, hc.hwofs, hc.clean_lt, hc.hwcur_lt⟩
  hwavail := hc.hwavail
  room := hc.room
  clean := hc.clean
  count := hc.count
  numRxDescs := hc.numRxDescs
  head := hc.head
  tail := hc.tail
  done := hc.done
  clear := hc.clear
  good := by
    intro x hx
    change (bufVpa m.bufs (ring.slot x)).1 ≠ _
    rw [hslot]
    exact hc.good x hx

theorem UserSide.consume (hu : UserSide N a s) {ring : DpaRing} {count : ℕ}
    (hcount : count ≤ s.ring.avail) (havail : ring.avail = s.ring.avail - count)
    (hres : ring.reserved ≤ s.ring.reserved + count) (hcur : ring.cur = pos N s.ring.cur count) :
    UserSide N a { s with ring := ring } := by
  have hav := hu.avail
  refine ⟨?_, ?_⟩
  · change ring.avail + ring.reserved ≤ a
    omega
  · change ring.cur = pos N s.kring.nrHwcur (a - ring.avail)
    rw [hcur, havail, hu.cur, pos_pos]
    congr 1
    omega

theorem Ordered.rxSync (hs : Ordered N drv m s) (doLock : Bool) :
    ∃ s', drv.rxSync m true doLock s = some (0, s') ∧ Ordered N drv m s' ∧
      s'.kring.nrHwavail = s'.ring.avail + s'.ring.reserved := by
  obtain ⟨o, a, h, hc, hu⟩ := hs
  have hav := hu.avail
  obtain ⟨s₁, s', heq, hv, hr, hchk⟩ := hc.rxSync hu doLock
  obtain ⟨h1, h2, _, hu'⟩ := hc.userSide hu hv hr hchk
  have hc' := (hc.harvested hv).released hr (by omega)
  have ha' : a + h - (a - s.ring.avail - s.ring.reserved) =
      s.ring.avail + s.ring.reserved + h := by
    omega
  rw [ha'] at hc'
  refine ⟨s', ?_, ⟨o, _, 0, hc', hu'⟩, ?_⟩
  · rw [rxSync_eq]
    exact heq
  · rw [hc'.hwavail, h1, h2]
    push_cast
    ring

theorem Ordered.step (hs : Ordered N drv m s) (hstep : Step drv m s s') : Ordered N drv m s' := by
  cases hstep with
  | complete d hne hd =>
    obtain ⟨o, a, h, hc, hu⟩ := hs
    exact ⟨o, a, h + 1, (hc.completed hne hd).1, hu.avail, hu.cur⟩
  | rxSync doLock code _ heq =>
    obtain ⟨s'', heq', hs', _⟩ := hs.rxSync doLock
    rw [heq, Option.some.injEq, Prod.mk.injEq] at heq'
    rw [heq'.2]
    exact hs'
  | consume count reserved hcount hres =>
    obtain ⟨o, a, h, hc, hu⟩ := hs
    refine ⟨o, a, h, hc.withRing rfl, hu.consume hcount rfl hres ?_⟩
    rw [hc.slots]
    rfl
  | reset =>
    obtain ⟨o, a, h, hc, hu⟩ := hs
    exact ⟨_, a, 0, hc.resettable.reset drv drv.bits, hc.resettable.userSide hu⟩

theorem Ordered.run (hs : Ordered N drv m s) (hr : ReflTransGen (Step drv m) s s') :
    Ordered N drv m s' := by
  induction hr with
  | refl => exact hs
  | tail _ hstep ih => exact ih.step hstep

/-- The hardware may still fill descriptor `n`: it lies from the head up to the tail. -/
def HwOwns (N : ℕ) (s : RxQueue) (n : ℕ) : Prop :=
  n < N ∧ ahead N s.nic.head n < ahead N s.nic.head s.nic.tail

structure Synchronised (N : ℕ) (drv : Intel) (m : DpaModule) (s : RxQueue) : Prop where
  hwavail : 0 ≤ s.kring.nrHwavail ∧ s.kring.nrHwavail ≤ N - 1
  clean : dpaIdxN2k s.kring s.nic.nextToClean = (s.kring.nrHwcur + s.kring.nrHwavail) % N
  tail : (s.nic.tail : ℤ) = (dpaIdxK2n s.kring s.kring.nrHwcur - 1) % N
  tail_clear : (s.nic.desc s.nic.tail).done drv.bits = false
  harvest : ∃ h, harvest drv.bits m s.nic.desc s.numSlots s.kring.nkrNumSlots s.beginHarvest =
    some h ∧ h.i ≤ N - 1
  apart : ∀ n, HwOwns N s n → ∀ j : ℕ, j < s.kring.nrHwavail →
    dpaIdxN2k s.kring n ≠ (s.kring.nrHwcur + j) % N

theorem sub_one_emod (hN : 0 < N) (x : ℕ) : ((x : ℤ) - 1) % N = (pos N x (N - 1) : ℕ) := by
  rw [pos, Int.natCast_emod, ← Int.add_emod_right]
  congr 1
  omega

theorem pos_cast (x i : ℕ) : ((pos N x i : ℕ) : ℤ) = (x + i) % N := by
  rw [pos, Int.natCast_emod, Nat.cast_add]

theorem Core.owned (hc : Core N o a h bits m s) {n : ℕ} (hn : HwOwns N s n) :
    ∃ i, a ≤ i ∧ i < N ∧ dpaIdxN2k s.kring n = (pos N s.kring.nrHwcur i : ℕ) := by
  have hN := hc.nonempty
  have hroom := hc.room
  have hcl := hc.clean_lt
  obtain ⟨hnN, hlt⟩ := hn
  have hhead := pos_lt (a := s.nic.nextToClean) (i := h) hN
  have htail : s.nic.tail = pos N (pos N s.nic.nextToClean h) (N - 1 - a - h) := by
    rw [hc.tail, pos_pos]
    congr 1
    omega
  rw [hc.head, htail, ahead_pos hhead (by omega)] at hlt
  have hn' := pos_ahead hhead hnN
  generalize ahead N (pos N s.nic.nextToClean h) n = i at hlt hn'
  refine ⟨a + (h + i), by omega, by omega, ?_⟩
  have hclean : pos N s.nic.nextToClean o = pos N s.kring.nrHwcur a := hc.clean
  have hmove : pos N n o = pos N (pos N s.nic.nextToClean o) (h + i) := by
    rw [← hn', pos_pos, pos_pos, pos_pos, show h + (i + o) = o + (h + i) by omega]
  rw [hc.n2k hnN, hmove, hclean, pos_pos]

theorem Core.synchronised (hc : Core N o a h drv.bits m s) : Synchronised N drv m s := by
  have hN := hc.nonempty
  have hroom := hc.room
  have hcl := hc.clean_lt
  have hwavail := hc.hwavail
  refine ⟨by omega, ?_, ?_, ?_, ?_, ?_⟩
  · rw [hc.n2k hcl, hc.hwavail, ← pos_cast]
    exact congrArg Nat.cast hc.clean
  · have hcur : dpaIdxK2n s.kring s.kring.nrHwcur = (Driver.nicCur N o s : ℕ) :=
      hc.k2n hc.hwcur_lt
    rw [hcur, sub_one_emod hN, hc.nicCur, hc.tail, pos_pos,
      show N - a + (N - 1) = N - 1 - a + N by omega, pos, pos, ← Nat.add_assoc, Nat.add_mod_right]
  · rw [hc.tail]
    exact eq_false_of_ne_true (hc.clear (N - 1 - a) (by omega) (by omega))
  · rw [hc.slots]
    refine ⟨_, hc.harvest_run (by omega) hc.done (hc.clear h le_rfl (by omega)), ?_⟩
    change h ≤ N - 1
    omega
  · intro n hn j hj heq
    obtain ⟨i, hai, hiN, hi⟩ := hc.owned hn
    rw [hi, ← pos_cast, Nat.cast_inj] at heq
    have := pos_injective hiN (by omega) heq
    omega

/-- In every state that a registered queue reaches the indices agree, and every `rx_sync`
returns with all that is pending divided between the user's share and its reservation. -/
theorem intel_synchronised (h₀ : Registered N m s₀)
    (hr : ReflTransGen (Step drv m) (drv.reset m s₀) s) :
    Synchronised N drv m s ∧ ∀ doLock, ∃ s', drv.rxSync m true doLock s = some (0, s') ∧
      s'.kring.nrHwavail = s'.ring.avail + s'.ring.reserved := by
  have hs : Ordered N drv m s := h₀.ordered.run hr
  refine ⟨?_, ?_⟩
  · obtain ⟨o, a, h, hc, _⟩ := hs
    exact hc.synchronised
  · intro doLock
    obtain ⟨s', heq, _, hsum⟩ := hs.rxSync doLock
    exact ⟨s', heq, hsum⟩

def eightBuffers : DpaModule where
  bufs :=
    { total := 8
      vaddr := fun i ↦ 1000 + i
      paddr := fun i ↦ 2000 + i
      vaddr_inj := by omega
      paddr_inj := by omega }
  bufSize := 2048
  typeUpdate := false

def fourSlots : RxQueue where
  kring := ⟨0, 0, 0, 4, 0, 0, 0⟩
  ring := ⟨4, 0, 0, 0, 0, 2048, fun i ↦ ⟨i + 2, 0, 0⟩⟩
  nic := ⟨fun _ ↦ ⟨0, 0, 0, 0⟩, 4, 0, 0, 0, 0, 0, 0, 0, 0, []⟩
  numRxDescs := 4

theorem fourSlots_registered : Registered 4 eightBuffers fourSlots :=
  ⟨by decide, by decide, rfl, rfl, rfl, rfl, rfl, rfl, by unfold GoodSlots; decide, rfl, rfl⟩

def fourSlotsFilled : RxQueue :=
  { Intel.igb.reset eightBuffers fourSlots with
    nic := (Intel.igb.reset eightBuffers fourSlots).nic.complete ⟨0, 1, 60, 0⟩ }

theorem fourSlots_run :
    ReflTransGen (Step .igb eightBuffers) (Intel.igb.reset eightBuffers fourSlots)
      fourSlotsFilled :=
  .single (.complete _ _ (by decide +kernel) (by decide))

theorem intel_synchronised_fourSlots : Synchronised 4 .igb eightBuffers fourSlotsFilled ∧
    ∀ doLock, ∃ s', Intel.igb.rxSync eightBuffers true doLock fourSlotsFilled = some (0, s') ∧
      s'.kring.nrHwavail = s'.ring.avail + s'.ring.reserved :=
  intel_synchronised fourSlots_registered fourSlots_run

end Dpa.Driver
