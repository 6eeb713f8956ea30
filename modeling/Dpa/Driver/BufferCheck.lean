import Dpa.Driver.IntelOutcome

namespace Dpa.Driver

open Kernel MachineWord Cyclic Loop

variable {N o r h : ℕ} {bits : RxBits} {m : DpaModule} {s s' s₁ : RxQueue} {carrier doLock : Bool}
  {code : ℕ} {slot : DpaSlot}

def releaseWindow (N : ℕ) (carrier : Bool) (s : RxQueue) : List ℕ :=
  if carrier = true ∧ s.ring.cur < N then (List.range (asked N s)).map (pos N s.kring.nrHwcur)
  else []

/-- Each descriptor given back since `s` holds the device address of a buffer that is neither of
the two first objects of the pool. -/
def RearmsBuffers (m : DpaModule) (s s' : RxQueue) : Prop :=
  ∃ given, s'.nic.given = s.nic.given ++ given ∧ ∀ x ∈ given, ∃ i, 2 ≤ i ∧ i < m.bufs.total ∧
    (s'.nic.desc (dpaIdxK2n s.kring x).toNat).lower = m.bufs.paddr i

theorem mem_releaseWindow {x : ℕ} (hcur : s.ring.cur < N) :
    x ∈ releaseWindow N true s ↔ ∃ j < asked N s, pos N s.kring.nrHwcur j = x := by
  simp [releaseWindow, hcur]

theorem rearmsBuffers_of_none (h : s'.nic.given = s.nic.given) : RearmsBuffers m s s' :=
  ⟨[], by rw [h, List.append_nil], nofun⟩

theorem Arrived.lower (hr : Arrived N o m r h s s') (hs : Indexed N o s) {j : ℕ} (hj : j < r)
    (hrN : r < N) : (s'.nic.desc (dpaIdxK2n s.kring (pos N s.kring.nrHwcur j)).toNat).lower =
      (bufVpa m.bufs (s.ring.slot (pos N s.kring.nrHwcur j))).2 := by
  have hlt : pos N s.kring.nrHwcur j < N := pos_lt hs.nonempty
  have hidx : (dpaIdxK2n s.kring (pos N s.kring.nrHwcur j)).toNat = pos N (nicCur N o s) j := by
    rw [hs.k2n hlt, Int.toNat_natCast, nicCur, pos, ahead, ahead, pos]
    have hofs := hs.ofs_lt
    have hcur := hs.hwcur_lt
    rw [Nat.add_sub_assoc hofs.le, Nat.mod_add_mod, Nat.add_sub_assoc hofs.le, Nat.mod_add_mod]
    congr 1
    omega
  rw [hr.desc, hidx]
  simp only [releaseAt]
  rw [swept_at hs.nicCur_lt hj hrN.le]
  rfl

/-- A call that has arrived points its descriptors at proper buffers exactly where no slot it
gave back holds index 1. -/
theorem Arrived.rearmsBuffers_iff (hr : Arrived N o m (asked N s) h s₁ s') (hs : Indexed N o s)
    (hg : Gathered N o bits m r s s₁) (hgood : asked N s ≤ goodSlots N m s) (hask : asked N s < N) :
    RearmsBuffers m s s' ↔ ∀ j < asked N s, (s.ring.slot (pos N s.kring.nrHwcur j)).bufIdx ≠ 1 := by
  have hs₁ := hg.indexed hs
  have hk2n (x : ℕ) : dpaIdxK2n s.kring x = dpaIdxK2n s₁.kring x := by
    unfold dpaIdxK2n
    rw [hg.slots, hg.hwofs]
  have hpass (j : ℕ) (hj : j < asked N s) :
      PassesInline m.bufs (s.ring.slot (pos N s.kring.nrHwcur j)) :=
    goodAt_of_lt (hj.trans_le hgood)
  have hlower (j : ℕ) (hj : j < asked N s) :
      (s'.nic.desc (dpaIdxK2n s.kring (pos N s.kring.nrHwcur j)).toNat).lower =
        m.bufs.paddr (s.ring.slot (pos N s.kring.nrHwcur j)).bufIdx := by
    rw [hk2n, ← hg.hwcur, hr.lower hs₁ hj hask, hg.ring, harvestAt_vpa, hg.hwcur]
    exact bufVpa_snd ((passesInline_iff m.bufs).1 (hpass j hj)).2
  have hgiven : s'.nic.given = s.nic.given ++ (List.range (asked N s)).map (pos N s.kring.nrHwcur) := by
    rw [hr.given, hg.given, hg.hwcur]
  refine ⟨?_, ?_⟩
  · rintro ⟨given, heq, hall⟩ j hj h1
    rw [hgiven, List.append_cancel_left_eq] at heq
    subst heq
    obtain ⟨i, h2, hi, hp⟩ := hall (pos N s.kring.nrHwcur j)
      (List.mem_map.2 ⟨j, List.mem_range.2 hj, rfl⟩)
    have htotal := ((passesInline_iff m.bufs).1 (hpass j hj)).2
    rw [hlower j hj] at hp
    have := m.bufs.paddr_inj _ htotal i hi hp
    omega
  · intro hne
    refine ⟨_, hgiven, ?_⟩
    intro x hx
    obtain ⟨j, hj, rfl⟩ := List.mem_map.1 hx
    have hj := List.mem_range.1 hj
    have hpass := (passesInline_iff m.bufs).1 (hpass j hj)
    have := hne j hj
    exact ⟨_, by omega, hpass.2, hlower j hj⟩

theorem releaseWindow_eq_nil (h : ¬(carrier = true ∧ s.ring.cur < N)) :
    releaseWindow N carrier s = [] :=
  if_neg h

theorem Indexed.given_of_early (hs : Indexed N o s)
    (hearly : ¬(carrier = true ∧ s.ring.cur < N))
    (heq : s.rxSync bits m carrier doLock = some (code, s')) : s'.nic.given = s.nic.given := by
  cases carrier with
  | false =>
    rw [RxQueue.rxSync, rxSyncBody_down, Option.some.injEq, Prod.mk.injEq] at heq
    rw [heq.2]
  | true =>
    have hcur : N ≤ s.ring.cur := not_lt.1 fun h ↦ hearly ⟨rfl, h⟩
    rw [RxQueue.rxSync, hs.rxSyncBody_reinit hcur, Option.some.injEq] at heq
    have hs' : s' = (s.reinit m true).2 := (congrArg Prod.snd heq).symm
    rw [hs', reinit_force]

/-- What the two checks do to the buffers of a call: it re-arms proper buffers only, exactly
where no slot of its window holds index 1, which is where the checks agree. A slot that fails the
test of the loop is always reported. -/
theorem rearms_iff {drv : Intel} (hs : Indexed N o s) (hw : Words s)
    (heq : drv.rxSync m carrier doLock s = some (code, s')) :
    (code = 0 → (RearmsBuffers m s s' ↔
      ∀ x ∈ releaseWindow N carrier s, (s.ring.slot x).bufIdx ≠ 1 ∨ m.bufs.total ≤ 1)) ∧
    ((∀ x ∈ releaseWindow N carrier s,
        (PassesInline m.bufs (s.ring.slot x) ↔ PassesReinit m.bufs (s.ring.slot x))) ↔
      ∀ x ∈ releaseWindow N carrier s, (s.ring.slot x).bufIdx ≠ 1 ∨ m.bufs.total ≤ 1) ∧
    ((∃ x ∈ releaseWindow N carrier s, ¬PassesInline m.bufs (s.ring.slot x)) → code = 1) := by
  rw [rxSync_eq] at heq
  by_cases hrun : carrier = true ∧ s.ring.cur < N
  · obtain ⟨rfl, hcur⟩ := hrun
    obtain ⟨_, hcont⟩ := hs.rxSync_outcome hw hcur heq
    simp only [mem_releaseWindow hcur, forall_exists_index, and_imp, forall_apply_eq_imp_iff₂]
    refine ⟨?_, by simp only [passes_iff], ?_⟩
    · rintro rfl
      cases hcont with
      | arrived hgood hask harr =>
        rw [harr.rearmsBuffers_iff hs (hs.gathers drv.bits m) hgood hask]
        refine forall₂_congr fun j hj ↦ ⟨Or.inl, fun h ↦ h.resolve_right ?_⟩
        have := (passesInline_iff m.bufs).1 (goodAt_of_lt (hj.trans_le hgood))
        omega
    · intro j hj hfail
      cases hcont with
      | stopped => rfl
      | arrived hgood _ _ => exact absurd (goodAt_of_lt (hj.trans_le hgood)) hfail
  · rw [releaseWindow_eq_nil hrun]
    refine ⟨fun _ ↦ iff_of_true (rearmsBuffers_of_none (hs.given_of_early hrun heq)) nofun,
      iff_of_true nofun nofun, ?_⟩
    rintro ⟨x, hx, _⟩
    cases hx

/-- Four slots whose user gives back the first with the index of the pool's second object. -/
def secondObject : RxQueue :=
  { fourSlots with ring := { fourSlots.ring with
      cur := 1
      slot := fun i ↦ if i = 0 then ⟨1, 0, 0⟩ else fourSlots.ring.slot i } }

def secondObjectSynced : RxQueue :=
  match Intel.igb.rxSync eightBuffers true true secondObject with
  | some r => r.2
  | none => secondObject

theorem secondObject_indexed : Indexed 4 0 secondObject :=
  ⟨by decide, by decide, rfl, by decide, rfl, by decide, by decide⟩

theorem secondObject_words : Words secondObject := ⟨by decide, by decide, by decide⟩

theorem secondObject_sync :
    Intel.igb.rxSync eightBuffers true true secondObject = some (0, secondObjectSynced) := rfl

/-- The call returns 0 and has put buffer 1 into a descriptor, which `dpa_ring_reinit` would have
reported. -/
theorem rx_sync_secondObject :
    Intel.igb.rxSync eightBuffers true true secondObject = some (0, secondObjectSynced) ∧
    releaseWindow 4 true secondObject = [0] ∧
    (secondObjectSynced.nic.desc 0).lower = eightBuffers.bufs.paddr 1 ∧
    ¬RearmsBuffers eightBuffers secondObject secondObjectSynced ∧
    PassesInline eightBuffers.bufs (secondObject.ring.slot 0) ∧
    ¬PassesReinit eightBuffers.bufs (secondObject.ring.slot 0) := by
  refine ⟨secondObject_sync, by decide +kernel, by decide +kernel, ?_, by unfold PassesInline; decide,
    by unfold PassesReinit; decide⟩
  rintro ⟨given, heq, hall⟩
  have hafter : secondObjectSynced.nic.given = [0] := by decide +kernel
  have hbefore : secondObject.nic.given = [] := rfl
  rw [hafter, hbefore, List.nil_append] at heq
  obtain ⟨i, h2, _, hp⟩ := hall 0 (by rw [← heq]; exact List.mem_singleton_self 0)
  have hlower : (secondObjectSynced.nic.desc 0).lower = 2001 := by decide +kernel
  have hp : (secondObjectSynced.nic.desc 0).lower = 2000 + i := hp
  omega

theorem rearms_iff_secondObject : ¬RearmsBuffers eightBuffers secondObject secondObjectSynced := by
  have h := (rearms_iff secondObject_indexed secondObject_words secondObject_sync).1 rfl
  rw [h]
  intro hall
  have := hall 0 (by decide)
  revert this
  decide

end Dpa.Driver
