import Dpa.Driver.IntelOutcome

namespace Dpa.Driver

open Kernel MachineWord Cyclic Loop

variable {N o a h r i : ℕ} {bits : RxBits} {m : DpaModule} {s s' : RxQueue} {carrier doLock : Bool}

/-- The user's words ask for no more than is pending after the harvest, and the ring is not
overfull then. -/
def Harmless (N : ℕ) (bits : RxBits) (m : DpaModule) (carrier : Bool) (s : RxQueue) : Prop :=
  let pending := s.kring.nrHwavail + harvestable N bits s
  if carrier = false then s.ring.avail ≤ N - 1
  else if N ≤ s.ring.cur then True
  else if goodSlots N m s < asked N s then pending ≤ N - 1 ∧ goodSlots N m s ≤ pending
  else asked N s + heldBack N s ≤ pending ∧ pending ≤ N - 1 + asked N s

instance : Decidable (Harmless N bits m carrier s) := by
  unfold Harmless
  infer_instance

/-- What the kernel wants to be true after a call on a ring of `N` slots. -/
structure Contained (N : ℕ) (bits : RxBits) (m : DpaModule) (s s' : RxQueue) : Prop where
  hwavail : 0 ≤ s'.kring.nrHwavail ∧ s'.kring.nrHwavail ≤ N - 1
  hwcur : s'.kring.nrHwcur < N
  avail : s'.ring.avail ≤ N - 1
  released : ∃ given, s'.nic.given = s.nic.given ++ given ∧ ∀ x ∈ given, ∃ s₁,
    s.afterHarvest bits m = some s₁ ∧
      ∃ i : ℕ, i < s₁.kring.nrHwavail ∧ x = (s₁.kring.nrHwcur + i) % N

theorem mem_rounds {c j : ℕ} {p : ℤ} (hp : 0 ≤ p) (hj : j ≤ N) :
    (∀ x ∈ (List.range j).map (pos N c), ∃ i : ℕ, i < p ∧ x = (c + i) % N) ↔ j ≤ p := by
  refine ⟨?_, ?_⟩
  · intro h
    by_contra hlt
    have hmem : pos N c p.toNat ∈ (List.range j).map (pos N c) :=
      List.mem_map.2 ⟨p.toNat, List.mem_range.2 (by omega), rfl⟩
    obtain ⟨i, hi, heq⟩ := h _ hmem
    have : p.toNat = i := pos_injective (a := c) (by omega) (by omega) heq
    omega
  · intro h x hx
    obtain ⟨i, hi, rfl⟩ := List.mem_map.1 hx
    have := List.mem_range.1 hi
    exact ⟨i, by omega, rfl⟩

theorem released_iff (s' : RxQueue) {s₁ : RxQueue} {j : ℕ} (hj : j ≤ N) (hp : 0 ≤ s₁.kring.nrHwavail)
    (hharvest : s.afterHarvest bits m = some s₁)
    (hgiven : s'.nic.given = s.nic.given ++ (List.range j).map (pos N s₁.kring.nrHwcur)) :
    (∃ given, s'.nic.given = s.nic.given ++ given ∧ ∀ x ∈ given, ∃ s₂,
      s.afterHarvest bits m = some s₂ ∧
        ∃ i : ℕ, i < s₂.kring.nrHwavail ∧ x = (s₂.kring.nrHwcur + i) % N) ↔
      j ≤ s₁.kring.nrHwavail := by
  rw [← mem_rounds (c := s₁.kring.nrHwcur) hp hj]
  refine ⟨?_, ?_⟩
  · rintro ⟨given, hg, hall⟩ x hx
    rw [hgiven, List.append_cancel_left_eq] at hg
    subst hg
    obtain ⟨s₂, heq, hi⟩ := hall x hx
    obtain rfl : s₁ = s₂ := Option.some.inj (hharvest.symm.trans heq)
    exact hi
  · intro hall
    exact ⟨_, hgiven, fun x hx ↦ ⟨s₁, hharvest, hall x hx⟩⟩

/-- After the harvest: what a call that arrives leaves is contained exactly where what was asked
for was pending. -/
theorem arrived_iff {s₁ : RxQueue} (hs : Indexed N o s)
    (hharvest : s.afterHarvest bits m = some s₁) (hgiven : s₁.nic.given = s.nic.given)
    (h0 : 0 ≤ s₁.kring.nrHwavail)
    (hheld : s₁.checkedResvd s₁.ring.reserved < 2 * N) (hrN : r < N)
    (hr : Released N o m r s₁.ring.reserved s₁ s') :
    Contained N bits m s s' ↔ r + s₁.checkedResvd s₁.ring.reserved ≤ s₁.kring.nrHwavail ∧
      s₁.kring.nrHwavail ≤ N - 1 + r := by
  have hb := hs.bound
  have hrel := released_iff s' hrN.le h0 hharvest (hr.given.trans (by rw [hgiven]))
  have hav := hr.hwavail
  have havail := hr.avail
  generalize s₁.checkedResvd s₁.ring.reserved = held at *
  have hmod : (s'.ring.avail : ℤ) = (s₁.kring.nrHwavail - r - held) % 4294967296 := by
    rw [havail]
    unfold u32
    omega
  refine ⟨?_, ?_⟩
  · rintro ⟨⟨h1, h2⟩, _, h3, h4⟩
    have hrA := hrel.1 h4
    rw [hav] at h1 h2
    refine ⟨?_, by omega⟩
    by_contra hlt
    omega
  · rintro ⟨h1, h2⟩
    refine ⟨⟨by omega, by omega⟩, ?_, by omega, hrel.2 (by omega)⟩
    rw [hr.hwcur]
    exact pos_lt hs.nonempty

theorem stopped_iff {s₁ : RxQueue} (hs : Indexed N o s) (hs₁ : Indexed N o s₁)
    (hharvest : s.afterHarvest bits m = some s₁) (hgiven : s₁.nic.given = s.nic.given)
    (h0 : 0 ≤ s₁.kring.nrHwavail) (hN : s₁.kring.nrHwavail < 2 * N) (hi : i ≤ N)
    (hkring : s'.kring = s₁.kring) (havail : s'.ring.avail = u32 s₁.kring.nrHwavail)
    (hgiven' : s'.nic.given = s₁.nic.given ++ (List.range i).map (pos N s₁.kring.nrHwcur)) :
    Contained N bits m s s' ↔ s₁.kring.nrHwavail ≤ N - 1 ∧ i ≤ s₁.kring.nrHwavail := by
  have hb := hs.bound
  have hrel := released_iff s' hi h0 hharvest (hgiven'.trans (by rw [hgiven]))
  have hav : s'.ring.avail = s₁.kring.nrHwavail.toNat := by
    rw [havail, u32_of_mem h0 (by omega)]
  refine ⟨?_, ?_⟩
  · rintro ⟨⟨_, h2⟩, _, _, h4⟩
    rw [hkring] at h2
    exact ⟨h2, hrel.1 h4⟩
  · rintro ⟨h1, h2⟩
    refine ⟨?_, ?_, by omega, hrel.2 h2⟩
    · rw [hkring]
      exact ⟨h0, h1⟩
    · rw [hkring]
      exact hs₁.hwcur_lt

/-- A call on a queue whose user words may be anything, from a kernel state in order: it keeps
the kernel's bounds exactly where the user's words are harmless. -/
theorem contained_iff_harmless {drv : Intel} {code : ℕ} (hs : Indexed N o s)
    (h0 : 0 ≤ s.kring.nrHwavail) (hN : s.kring.nrHwavail ≤ N - 1) (hw : Words s)
    (heq : drv.rxSync m carrier doLock s = some (code, s')) :
    Contained N drv.bits m s s' ↔ Harmless N drv.bits m carrier s := by
  have hb := hs.bound
  have hpos := hs.nonempty
  rw [rxSync_eq] at heq
  unfold Harmless
  cases carrier with
  | false =>
    rw [RxQueue.rxSync, rxSyncBody_down, Option.some.injEq, Prod.mk.injEq] at heq
    obtain ⟨_, rfl⟩ := heq
    simp only [if_true]
    refine ⟨fun h ↦ h.avail, fun h ↦ ⟨⟨h0, hN⟩, hs.hwcur_lt, h, [], ?_, List.forall_mem_nil _⟩⟩
    rw [List.append_nil]
  | true =>
    simp only [Bool.true_eq_false, if_false]
    by_cases hcur : N ≤ s.ring.cur
    · rw [RxQueue.rxSync, hs.rxSyncBody_reinit hcur, Option.some.injEq] at heq
      have hs' : s' = (s.reinit m true).2 := (congrArg Prod.snd heq).symm
      rw [if_pos hcur, hs', reinit_force, iff_true]
      refine ⟨⟨h0, hN⟩, hs.hwcur_lt, ?_, [], (List.append_nil _).symm, List.forall_mem_nil _⟩
      change u32 s.kring.nrHwavail ≤ N - 1
      rw [u32_of_mem h0 (by omega)]
      omega
    · rw [if_neg hcur]
      obtain ⟨hlt, hcont⟩ := hs.rxSync_outcome hw (not_le.1 hcur) heq
      have hharvest := hs.afterHarvest (m := m) hlt
      have hv : Harvested N o drv.bits m (harvestable N drv.bits s) s
          (harvestOf N o drv.bits m s) :=
        hs.endHarvest drv.bits m _ (by omega) (by omega)
      have hs₁ := hv.indexed hs
      have hchk := hv.gathered.checkedResvd hs
      have hr₁ := hv.gathered.words.2.2
      have h0₁ : 0 ≤ (harvestOf N o drv.bits m s).kring.nrHwavail := by
        rw [hv.hwavail]
        omega
      have hask := asked_le hpos s
      rw [← hv.hwavail]
      cases hcont with
      | stopped hbad hstop =>
        have havail : s'.ring.avail = u32 (harvestOf N o drv.bits m s).kring.nrHwavail := by
          rw [hstop.ring]
          rfl
        rw [if_pos hbad]
        exact stopped_iff hs hs₁ hharvest hv.given h0₁ (by rw [hv.hwavail]; omega) (by omega)
          hstop.kring havail hstop.given
      | arrived hgood hask harr =>
        have hheld_lt := heldBack_lt hask
        have hr := harr.released (by rw [hv.hwavail]; omega) (by rw [hv.hwavail]; omega)
        rw [if_neg (not_lt.2 hgood)]
        rw [← hr₁] at hchk hr
        have hiff := arrived_iff hs hharvest hv.given h0₁ (by rw [hchk]; omega) hask hr
        rwa [hchk] at hiff

/-- Four slots with nothing pending, whose user has moved `cur` three slots ahead. -/
def overrun : RxQueue :=
  { fourSlots with ring := { fourSlots.ring with cur := 3 } }

theorem overrun_indexed : Indexed 4 0 overrun :=
  ⟨by decide, by decide, rfl, by decide, rfl, by decide, by decide⟩

theorem overrun_words : Words overrun := ⟨by decide, by decide, by decide⟩

def overrunSynced : RxQueue :=
  match Intel.igb.rxSync eightBuffers true true overrun with
  | some r => r.2
  | none => overrun

theorem overrun_sync :
    Intel.igb.rxSync eightBuffers true true overrun = some (0, overrunSynced) := rfl

/-- The kernel gives three slots back that were never pending and ends with a negative count. -/
theorem rx_sync_overrun : 0 ≤ overrun.kring.nrHwavail ∧ overrun.kring.nrHwavail ≤ 4 - 1 ∧
    overrun.kring.nrHwcur < 4 ∧
    Intel.igb.rxSync eightBuffers true true overrun = some (0, overrunSynced) ∧
    ¬Contained 4 Intel.igb.bits eightBuffers overrun overrunSynced := by
  refine ⟨by decide, by decide, by decide, overrun_sync, ?_⟩
  intro hc
  have h := hc.hwavail.1
  revert h
  decide +kernel

theorem contained_iff_harmless_overrun :
    Contained 4 Intel.igb.bits eightBuffers overrun overrunSynced ↔
      Harmless 4 Intel.igb.bits eightBuffers true overrun :=
  contained_iff_harmless overrun_indexed (by decide) (by decide) overrun_words overrun_sync

end Dpa.Driver
