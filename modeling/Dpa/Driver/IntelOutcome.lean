import Dpa.Library.Loop
import Dpa.Driver.IntelRuns

namespace Dpa.Driver

open Kernel MachineWord Cyclic Loop

variable {N o h r : ℕ} {bits : RxBits} {m : DpaModule} {s s' s₁ : RxQueue} {doLock : Bool}
  {code : ℕ} {slot : DpaSlot}

def harvestable (N : ℕ) (bits : RxBits) (s : RxQueue) : ℕ :=
  leading (fun j ↦ (s.nic.desc (pos N s.nic.nextToClean j)).done bits) N

def goodSlots (N : ℕ) (m : DpaModule) (s : RxQueue) : ℕ :=
  leading (fun j ↦ (bufVpa m.bufs (s.ring.slot (pos N s.kring.nrHwcur j))).1 ≠ m.bufs.base) N

/-- The user's `reserved`, or 0 where its 32-bit sum with `avail` exceeds the ring. -/
def heldBack (N : ℕ) (s : RxQueue) : ℕ :=
  if 0 < s.ring.reserved ∧ N ≤ (s.ring.reserved + s.ring.avail) % 2 ^ 32 then 0
  else s.ring.reserved

/-- The number of slots from `hwcur` to the one that the user's words point at, or `N` where
they point at none. -/
def asked (N : ℕ) (s : RxQueue) : ℕ :=
  if heldBack N s ≤ s.ring.cur + N then
    ahead N s.kring.nrHwcur ((s.ring.cur + N - heldBack N s) % N)
  else N

theorem Indexed.checkedResvd (hs : Indexed N o s) :
    s.checkedResvd s.ring.reserved = heldBack N s := by
  have hb := hs.bound
  have hN := hs.nonempty
  have hsum : u32 (s.ring.reserved + s.ring.avail) =
      (s.ring.reserved + s.ring.avail) % 2 ^ 32 := by
    unfold u32
    omega
  unfold RxQueue.checkedResvd Kernel.checkedResvd heldBack
  rw [hsum, hs.numSlots, u32_of_mem (by omega) (by omega)]
  have hcast : (((N - 1 : ℕ) : ℤ) + 1).toNat = N := by omega
  rw [hcast]

structure Words (s : RxQueue) : Prop where
  cur : s.ring.cur < 2 ^ 32
  avail : s.ring.avail < 2 ^ 32
  reserved : s.ring.reserved < 2 ^ 32

theorem heldBack_le (N : ℕ) (s : RxQueue) : heldBack N s ≤ s.ring.reserved := by
  unfold heldBack
  split_ifs <;> omega

/-- Where the release loop would stop: at the slot that the user's words point at, or at an
index outside of the ring. -/
theorem Indexed.releaseEnd (hs : Indexed N o s) (hw : Words s) (hcur : s.ring.cur < N) :
    (asked N s < N ∧ s.releaseEnd s.ring.cur (heldBack N s) = pos N s.kring.nrHwcur (asked N s)) ∨
      (asked N s = N ∧ N ≤ s.releaseEnd s.ring.cur (heldBack N s)) := by
  have hb := hs.bound
  have hN := hs.nonempty
  have hle := heldBack_le N s
  have hres := hw.reserved
  have hend : s.releaseEnd s.ring.cur (heldBack N s) =
      if heldBack N s ≤ s.ring.cur then s.ring.cur - heldBack N s
      else u32 (s.ring.cur + N - heldBack N s) := by
    unfold RxQueue.releaseEnd Kernel.releaseEnd
    rw [hs.numSlots]
    have hcast : ((N - 1 : ℕ) : ℤ) + 1 = N := by omega
    rw [add_assoc, hcast]
    split_ifs <;> first | rfl | omega
  by_cases hask : heldBack N s ≤ s.ring.cur + N
  · left
    have hasked : asked N s = ahead N s.kring.nrHwcur ((s.ring.cur + N - heldBack N s) % N) :=
      if_pos hask
    refine ⟨hasked.trans_lt (ahead_lt hN), ?_⟩
    rw [hasked, pos_ahead hs.hwcur_lt (Nat.mod_lt _ hN), hend]
    split_ifs with hc
    · rw [show s.ring.cur + N - heldBack N s = s.ring.cur - heldBack N s + N by omega,
        Nat.add_mod_right, Nat.mod_eq_of_lt (by omega)]
    · rw [u32_of_mem (by omega) (by omega), Nat.mod_eq_of_lt (by omega)]
      omega
  · right
    refine ⟨if_neg hask, ?_⟩
    rw [hend, if_neg (by omega)]
    unfold u32
    omega

def PassesInline (t : BufferTable) (slot : DpaSlot) : Prop := (bufVpa t slot).1 ≠ t.base

def PassesReinit (t : BufferTable) (slot : DpaSlot) : Prop :=
  ¬(slot.bufIdx < 2 ∨ slot.bufIdx ≥ t.total)

/-- The test by address lets every index of the table pass but that of its first object. -/
theorem passesInline_iff (t : BufferTable) :
    PassesInline t slot ↔ slot.bufIdx ≠ 0 ∧ slot.bufIdx < t.total := by
  unfold PassesInline bufVpa BufferTable.base
  split_ifs with hge
  · refine iff_of_false (not_not.2 rfl) ?_
    omega
  · refine ⟨fun hne ↦ ⟨?_, by omega⟩, ?_⟩
    · intro h0
      rw [h0] at hne
      exact hne rfl
    · rintro ⟨h0, _⟩ heq
      exact h0 (t.vaddr_inj _ (by omega) 0 (by omega) heq)

theorem passes_iff (t : BufferTable) :
    (PassesInline t slot ↔ PassesReinit t slot) ↔ (slot.bufIdx ≠ 1 ∨ t.total ≤ 1) := by
  rw [passesInline_iff, PassesReinit]
  omega

theorem reinitSlot_of_passes {size : ℕ} {t : BufferTable} (h : PassesReinit t slot) :
    reinitSlot t size slot = if slot.len > size then ({ slot with len := 0 }, true) else (slot, false) :=
  if_neg h

theorem reinitSlot_of_fails {size : ℕ} {t : BufferTable} (h : ¬PassesReinit t slot) :
    reinitSlot t size slot = ({ slot with bufIdx := 0, len := 0 }, true) :=
  if_pos (not_not.1 h)

def resynchronised (m : DpaModule) (s : RxQueue) : DpaRing :=
  { s.ring with
    slot := fun i ↦ if i < s.kring.nkrNumSlots then
      (reinitSlot m.bufs m.bufSize (s.ring.slot i)).1 else s.ring.slot i
    cur := s.kring.nrHwcur
    avail := u32 s.kring.nrHwavail
    hwOfs := s.kring.nkrHwofs }

def HasErrors (m : DpaModule) (s : RxQueue) : Prop :=
  ∃ x < s.kring.nkrNumSlots, (reinitSlot m.bufs m.bufSize (s.ring.slot x)).2 = true

theorem any_errors_iff (m : DpaModule) (s : RxQueue) :
    ((List.range s.kring.nkrNumSlots).any fun i ↦
      (reinitSlot m.bufs m.bufSize (s.ring.slot i)).2) = true ↔ HasErrors m s := by
  simp [HasErrors]

theorem reinit_of_errors (h : HasErrors m s) (forceSync : Bool) :
    s.reinit m forceSync = (1, { s with ring := resynchronised m s }) := by
  have hany := (any_errors_iff m s).2 h
  simp only [RxQueue.reinit, dpaRingReinit, hany, Bool.true_or, if_true]
  rfl

theorem reinit_force (m : DpaModule) (s : RxQueue) :
    (s.reinit m true).2 = { s with ring := resynchronised m s } := by
  simp only [RxQueue.reinit, dpaRingReinit, Bool.or_true, if_true]
  rfl

theorem hasErrors_of_fails {x : ℕ} (hx : x < s.kring.nkrNumSlots)
    (h : ¬PassesInline m.bufs (s.ring.slot x)) : HasErrors m s := by
  have hfail : ¬PassesReinit m.bufs (s.ring.slot x) := by
    rw [passesInline_iff] at h
    unfold PassesReinit
    omega
  exact ⟨x, hx, by rw [reinitSlot_of_fails hfail]⟩

theorem rxSyncBody_down (u resvd : ℕ) :
    s.rxSyncBody bits m false doLock u resvd = some (0, s) := rfl

theorem Indexed.rxSyncBody_reinit (hs : Indexed N o s) {u : ℕ} (hu : N ≤ u) (resvd : ℕ) :
    s.rxSyncBody bits m true doLock u resvd = some (s.reinit m true) := by
  have hN := hs.nonempty
  have hgt : u > s.numSlots := by
    rw [hs.numSlots]
    omega
  unfold RxQueue.rxSyncBody
  simp only [Bool.not_true, Bool.false_eq_true, if_false, hgt, if_true]

theorem Indexed.rxSyncBody_never (hs : Indexed N o s) {u : ℕ} (hu : u < N) (resvd : ℕ)
    (hd : ∀ j < N, DoneAt N bits s j) : s.rxSyncBody bits m true doLock u resvd = none := by
  have hlt : ¬u > s.numSlots := by
    rw [hs.numSlots]
    omega
  have hrun := hs.harvest_never (m := m) hd
  have hpend : dpaPendIntr = 0 := rfl
  unfold RxQueue.rxSyncBody
  simp only [Bool.not_true, Bool.false_eq_true, if_false, hlt, hpend, true_or, if_true]
  rw [RxQueue.afterHarvest, hs.slots, hrun]
  rfl

theorem Indexed.released_never (hs : Indexed N o s) {u resvd : ℕ}
    (hu : N ≤ s.releaseEnd u (s.checkedResvd resvd)) (hg : ∀ j < N, GoodAt N m s j) :
    s.releaseAndReport m u resvd = none := by
  have hne (j : ℕ) : pos N s.kring.nrHwcur j ≠ s.releaseEnd u (s.checkedResvd resvd) := by
    have := pos_lt (a := s.kring.nrHwcur) (i := j) hs.nonempty
    omega
  have hcur := hne 0
  rw [pos_zero hs.hwcur_lt] at hcur
  rw [releaseAndReport_eq, if_neg hcur, hs.slots, hs.release_never (fun j _ ↦ hne j) hg]

theorem asked_le (hN : 0 < N) (s : RxQueue) : asked N s ≤ N := by
  unfold asked
  split_ifs
  · exact (ahead_lt hN).le
  · exact le_rfl

theorem heldBack_lt (h : asked N s < N) : heldBack N s ≤ s.ring.cur + N := by
  unfold asked at h
  split_ifs at h with hle
  · exact hle
  · omega

/-- What a call that meets a bad buffer after `r` rounds of its release loop leaves. -/
structure Stopped (N o : ℕ) (m : DpaModule) (r resvd : ℕ) (s s' : RxQueue) : Prop where
  kring : s'.kring = s.kring
  ring : s'.ring = { resynchronised m s with
    reserved := if s.checkedResvd resvd = resvd then s.ring.reserved else 0 }
  clean : s'.nic.nextToClean = s.nic.nextToClean
  desc : s'.nic.desc = (releaseAt N o m s r).desc
  given : s'.nic.given = s.nic.given ++ (List.range r).map (pos N s.kring.nrHwcur)

theorem Indexed.stopped (hs : Indexed N o s) {u resvd : ℕ} (hr : r < N)
    (hu : ∀ j ≤ r, pos N s.kring.nrHwcur j ≠ s.releaseEnd u (s.checkedResvd resvd))
    (hg : ∀ j < r, GoodAt N m s j) (hb : ¬GoodAt N m s r) :
    ∃ s', s.releaseAndReport m u resvd = some (1, s') ∧ Stopped N o m r resvd s s' := by
  have hne : s.kring.nrHwcur ≠ s.releaseEnd u (s.checkedResvd resvd) := by
    have := hu 0 (Nat.zero_le r)
    rwa [pos_zero hs.hwcur_lt] at this
  have hrun := hs.release_bad hr hu hg hb
  have hdrop : (dropReserved s resvd).kring = s.kring ∧ (dropReserved s resvd).ring = { s.ring with
      reserved := if s.checkedResvd resvd = resvd then s.ring.reserved else 0 } := by
    unfold dropReserved
    split_ifs
    · exact ⟨rfl, rfl⟩
    · exact ⟨rfl, rfl⟩
  obtain ⟨hkr, hring⟩ := hdrop
  have hslots : (dropReserved s resvd).kring.nkrNumSlots = N := by rw [hkr, hs.slots]
  have hslot : (dropReserved s resvd).ring.slot = s.ring.slot := by rw [hring]
  rw [releaseAndReport_eq, if_neg hne, hs.slots, hrun]
  simp only
  rw [reinit_of_errors (hasErrors_of_fails (x := pos N s.kring.nrHwcur r) ?_ ?_)]
  · refine ⟨_, rfl, hkr, ?_, rfl, rfl, rfl⟩
    simp only [resynchronised, hkr, hring]
  · change _ < (dropReserved s resvd).kring.nkrNumSlots
    rw [hslots]
    exact pos_lt hs.nonempty
  · change ¬PassesInline m.bufs ((dropReserved s resvd).ring.slot _)
    rw [hslot]
    exact hb

theorem harvestAt_bufIdx (bits : RxBits) (m : DpaModule) (s : RxQueue) (i x : ℕ) :
    ((harvestAt N o bits m s i).slot x).bufIdx = (s.ring.slot x).bufIdx := by
  simp only [harvestAt, swept]
  split_ifs <;> rfl

theorem goodAt_of_lt {j : ℕ} (hj : j < goodSlots N m s) : GoodAt N m s j := by
  have hlead := of_lt_leading (p := fun j ↦
    (bufVpa m.bufs (s.ring.slot (pos N s.kring.nrHwcur j))).1 ≠ m.bufs.base) hj
  simpa only [GoodAt, ne_eq, decide_eq_true_eq] using hlead

theorem not_goodAt (h : goodSlots N m s < N) : ¬GoodAt N m s (goodSlots N m s) := by
  have hfail := leading_fails h
  simpa only [GoodAt, goodSlots, ne_eq, decide_eq_false_iff_not] using hfail

theorem Gathered.goodAt (hg : Gathered N o bits m h s s₁) (j : ℕ) :
    GoodAt N m s₁ j ↔ GoodAt N m s j := by
  unfold GoodAt
  rw [hg.hwcur, hg.ring, harvestAt_vpa]

theorem Gathered.words (hg : Gathered N o bits m h s s₁) :
    s₁.ring.cur = s.ring.cur ∧ s₁.ring.avail = s.ring.avail ∧
      s₁.ring.reserved = s.ring.reserved := by
  rw [hg.ring]
  exact ⟨rfl, rfl, rfl⟩

theorem Gathered.checkedResvd (hg : Gathered N o bits m h s s₁) (hs : Indexed N o s) :
    s₁.checkedResvd s.ring.reserved = heldBack N s := by
  obtain ⟨_, ha, hr⟩ := hg.words
  rw [← hr, (hg.indexed hs).checkedResvd, heldBack, ha, hr, heldBack]

theorem Gathered.releaseEnd (hg : Gathered N o bits m h s s₁) (hs : Indexed N o s) (hw : Words s)
    (hcur : s.ring.cur < N) :
    (asked N s < N ∧ s₁.releaseEnd s.ring.cur (s₁.checkedResvd s.ring.reserved) =
        pos N s₁.kring.nrHwcur (asked N s)) ∨
      (asked N s = N ∧ N ≤ s₁.releaseEnd s.ring.cur (s₁.checkedResvd s.ring.reserved)) := by
  have hs₁ := hg.indexed hs
  obtain ⟨hc, ha, hr⟩ := hg.words
  have hheld : heldBack N s₁ = heldBack N s := by rw [heldBack, ha, hr, heldBack]
  have hasked : asked N s₁ = asked N s := by rw [asked, hheld, hc, hg.hwcur, asked]
  have hw₁ : Words s₁ := ⟨by rw [hc]; exact hw.cur, by rw [ha]; exact hw.avail,
    by rw [hr]; exact hw.reserved⟩
  have hlast := hs₁.releaseEnd hw₁ (by rwa [hc])
  rwa [hasked, hheld, hc, ← hg.checkedResvd hs] at hlast

/-- How a call goes on after its harvest, whatever the user has written. -/
inductive Continues (N o : ℕ) (m : DpaModule) (s s₁ s' : RxQueue) : ℕ → Prop
  | stopped : goodSlots N m s < asked N s →
      Stopped N o m (goodSlots N m s) s.ring.reserved s₁ s' → Continues N o m s s₁ s' 1
  | arrived : asked N s ≤ goodSlots N m s → asked N s < N →
      Arrived N o m (asked N s) s.ring.reserved s₁ s' → Continues N o m s s₁ s' 0

theorem Gathered.continues (hg : Gathered N o bits m h s s₁) (hs : Indexed N o s) (hw : Words s)
    (hcur : s.ring.cur < N) (hend : goodSlots N m s < asked N s ∨ asked N s < N) :
    ∃ code s', s₁.releaseAndReport m s.ring.cur s.ring.reserved = some (code, s') ∧
      Continues N o m s s₁ s' code := by
  have hs₁ := hg.indexed hs
  have hlast := hg.releaseEnd hs hw hcur
  have hask := asked_le hs.nonempty s
  have hgood (j : ℕ) (hj : j < goodSlots N m s) : GoodAt N m s₁ j :=
    (hg.goodAt j).2 (goodAt_of_lt hj)
  by_cases hbad : goodSlots N m s < asked N s
  · have hbadAt : ¬GoodAt N m s₁ (goodSlots N m s) := by
      rw [hg.goodAt]
      exact not_goodAt (hbad.trans_le hask)
    have hmiss : ∀ j ≤ goodSlots N m s, pos N s₁.kring.nrHwcur j ≠
        s₁.releaseEnd s.ring.cur (s₁.checkedResvd s.ring.reserved) := by
      intro j hj heq
      rcases hlast with ⟨hlt, hlast⟩ | ⟨_, hlast⟩
      · rw [hlast] at heq
        have := pos_injective (by omega) hlt heq
        omega
      · have := pos_lt (a := s₁.kring.nrHwcur) (i := j) hs.nonempty
        omega
    obtain ⟨s', heq, hstop⟩ := hs₁.stopped (by omega) hmiss hgood hbadAt
    exact ⟨1, s', heq, .stopped hbad hstop⟩
  · have hlt : asked N s < N := hend.resolve_left hbad
    obtain ⟨s', heq, harr⟩ := hs₁.arrived hlt (hlast.resolve_right (by omega)).2
      (fun j hj ↦ hgood j (by omega))
    exact ⟨0, s', heq, .arrived (not_lt.1 hbad) hlt harr⟩

def harvestOf (N o : ℕ) (bits : RxBits) (m : DpaModule) (s : RxQueue) : RxQueue :=
  s.endHarvest (harvestAt N o bits m s (harvestable N bits s))

theorem Indexed.gathers (hs : Indexed N o s) (bits : RxBits) (m : DpaModule) :
    Gathered N o bits m (harvestable N bits s) s (harvestOf N o bits m s) :=
  hs.gathered bits m _

theorem doneAt_of_lt {j : ℕ} (hj : j < harvestable N bits s) : DoneAt N bits s j :=
  of_lt_leading hj

theorem not_doneAt (h : harvestable N bits s < N) : ¬DoneAt N bits s (harvestable N bits s) :=
  ne_true_of_eq_false (leading_fails h)

theorem Indexed.afterHarvest (hs : Indexed N o s) (h : harvestable N bits s < N) :
    s.afterHarvest bits m = some (harvestOf N o bits m s) := by
  have hrun := hs.harvest_run (m := m) h (fun _ hj ↦ doneAt_of_lt hj) (not_doneAt h)
  rw [RxQueue.afterHarvest, hs.slots, hrun]
  rfl

/-- A call with the carrier up and `cur` in the ring harvests and goes on from there. -/
theorem Indexed.rxSync_goes_on (hs : Indexed N o s) (hcur : s.ring.cur < N)
    (h : harvestable N bits s < N) (doLock : Bool) : s.rxSync bits m true doLock =
      (harvestOf N o bits m s).releaseAndReport m s.ring.cur s.ring.reserved :=
  hs.rxSyncBody hcur h (fun _ hj ↦ doneAt_of_lt hj) (not_doneAt h) doLock _

theorem Indexed.rxSync_ends (hs : Indexed N o s) (hw : Words s) (hcur : s.ring.cur < N)
    (h : harvestable N bits s < N) (hend : goodSlots N m s < asked N s ∨ asked N s < N)
    (doLock : Bool) : ∃ code s', s.rxSync bits m true doLock = some (code, s') ∧
      Continues N o m s (harvestOf N o bits m s) s' code := by
  rw [hs.rxSync_goes_on hcur h]
  exact (hs.gathers bits m).continues hs hw hcur hend

theorem Indexed.rxSync_never (hs : Indexed N o s) (hw : Words s) (hcur : s.ring.cur < N)
    (h : N ≤ harvestable N bits s ∨ asked N s ≤ goodSlots N m s ∧ N ≤ asked N s)
    (doLock : Bool) : s.rxSync bits m true doLock = none := by
  rcases le_or_gt N (harvestable N bits s) with hall | hlt
  · exact hs.rxSyncBody_never hcur _ (fun j hj ↦ doneAt_of_lt (by omega))
  · obtain ⟨hgood, hask⟩ := h.resolve_left (by omega)
    have hg := hs.gathers bits m
    rw [hs.rxSync_goes_on hcur hlt]
    refine (hg.indexed hs).released_never ((hg.releaseEnd hs hw hcur).resolve_left (by omega)).2 ?_
    intro j hj
    rw [hg.goodAt]
    exact goodAt_of_lt (by omega)

theorem Indexed.rxSync_outcome (hs : Indexed N o s) (hw : Words s) (hcur : s.ring.cur < N)
    (heq : s.rxSync bits m true doLock = some (code, s')) : harvestable N bits s < N ∧
      Continues N o m s (harvestOf N o bits m s) s' code := by
  have hask := asked_le hs.nonempty s
  by_cases hnever : N ≤ harvestable N bits s ∨ asked N s ≤ goodSlots N m s ∧ N ≤ asked N s
  · rw [hs.rxSync_never hw hcur hnever] at heq
    cases heq
  · have h : harvestable N bits s < N := by omega
    obtain ⟨code', s'', heq', hcont⟩ := hs.rxSync_ends (m := m) hw hcur h (by omega) doLock
    rw [heq', Option.some.injEq, Prod.mk.injEq] at heq
    obtain ⟨rfl, rfl⟩ := heq
    exact ⟨h, hcont⟩

end Dpa.Driver
