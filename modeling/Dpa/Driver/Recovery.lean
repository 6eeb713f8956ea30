import Dpa.Driver.IntelOutcome

namespace Dpa.Driver

open Kernel MachineWord Cyclic Loop Relation

variable {N o a t : ℕ} {bits : RxBits} {m : DpaModule} {s s' : RxQueue} {drv : Intel}
  {carrier doLock : Bool} {code : ℕ}

/-- What happens to a queue whose user only consumes packets: the hardware writes descriptors,
the user moves `cur` and `avail` by one amount, and calls are made. -/
inductive Consuming (drv : Intel) (m : DpaModule) : RxQueue → RxQueue → Prop
  | receive (s : RxQueue) (desc : ℕ → AdvRxDesc) :
      Consuming drv m s { s with nic := { s.nic with desc := desc } }
  | consume (s : RxQueue) (count : ℕ) : count ≤ s.ring.avail →
      Consuming drv m s (s.consume count s.ring.reserved)
  | rxSync (s : RxQueue) (carrier doLock : Bool) (code : ℕ) (s' : RxQueue) :
      drv.rxSync m carrier doLock s = some (code, s') → Consuming drv m s s'

/-- What a resynchronisation is for: the rings are in step, a call that follows gives nothing
back, and a user that only consumes is not answered with an error. -/
structure Recovers (N : ℕ) (drv : Intel) (m : DpaModule) (s : RxQueue) : Prop where
  hwavail : s.kring.nrHwavail = s.ring.avail + s.ring.reserved
  hwcur : (s.kring.nrHwcur : ℤ) = (s.ring.cur - s.ring.reserved) % N
  quiet : ∀ carrier doLock code s', drv.rxSync m carrier doLock s = some (code, s') →
    s'.nic.given = s.nic.given
  unanswered : ∀ s', ReflTransGen (Consuming drv m) s s' → ∀ carrier doLock code s'',
    drv.rxSync m carrier doLock s' = some (code, s'') → code = 0

theorem asked_eq (hs : Indexed N o s) (hres : s.ring.reserved = 0) (ht : t < N)
    (hcur : s.ring.cur = pos N s.kring.nrHwcur t) : asked N s = t := by
  have hheld : heldBack N s = 0 := by simp [heldBack, hres]
  have hlt : s.ring.cur < N := by
    rw [hcur]
    exact pos_lt hs.nonempty
  rw [asked, hheld, if_pos (Nat.zero_le _), Nat.sub_zero, Nat.add_mod_right, Nat.mod_eq_of_lt hlt,
    hcur, ahead_pos hs.hwcur_lt ht]

/-- A queue that gives no reason for an error: no slot is kept or bad, and `cur` is in range. -/
structure Steady (N o : ℕ) (m : DpaModule) (s : RxQueue) : Prop extends Indexed N o s where
  reserved : s.ring.reserved = 0
  cur_lt : s.ring.cur < N
  avail_lt : s.ring.avail < 2 ^ 32
  passes : ∀ x < N, PassesInline m.bufs (s.ring.slot x)

theorem Steady.words (hs : Steady N o m s) : Words s := by
  have hb := hs.bound
  have hcur := hs.cur_lt
  have hres := hs.reserved
  exact ⟨by omega, hs.avail_lt, by omega⟩

theorem Steady.not_stopped (hs : Steady N o m s) : ¬goodSlots N m s < asked N s := by
  intro hlt
  exact not_goodAt (hlt.trans_le (asked_le hs.nonempty s)) (hs.passes _ (pos_lt hs.nonempty))

theorem PassesInline.congr {t : BufferTable} {slot slot' : DpaSlot}
    (h : slot'.bufIdx = slot.bufIdx) : PassesInline t slot' ↔ PassesInline t slot := by
  rw [passesInline_iff, passesInline_iff, h]

theorem Steady.rxSync (hs : Steady N o m s)
    (heq : drv.rxSync m carrier doLock s = some (code, s')) : code = 0 ∧ Steady N o m s' := by
  rw [rxSync_eq] at heq
  cases carrier with
  | false =>
    rw [RxQueue.rxSync, rxSyncBody_down, Option.some.injEq, Prod.mk.injEq] at heq
    obtain ⟨rfl, rfl⟩ := heq
    exact ⟨rfl, hs⟩
  | true =>
    obtain ⟨_, hcont⟩ := hs.rxSync_outcome hs.words hs.cur_lt heq
    cases hcont with
    | stopped hbad => exact absurd hbad hs.not_stopped
    | arrived _ _ harr =>
      have hg := hs.gathers drv.bits m
      obtain ⟨hcur, _, hres⟩ := hg.words
      refine ⟨rfl, harr.indexed (hg.indexed hs.toIndexed), ?_, ?_, ?_, ?_⟩
      · rw [harr.reserved, hres, hs.reserved]
        split_ifs <;> rfl
      · rw [harr.cur, hcur]
        exact hs.cur_lt
      · rw [harr.avail]
        exact u32_lt _
      · intro x hx
        rw [harr.slot, hg.ring, PassesInline.congr (harvestAt_bufIdx drv.bits m s _ x)]
        exact hs.passes x hx

theorem Steady.step (hs : Steady N o m s) (hstep : Consuming drv m s s') : Steady N o m s' := by
  cases hstep with
  | receive desc =>
    exact ⟨⟨hs.nonempty, hs.bound, hs.slots, hs.ofs_lt, hs.hwofs, hs.clean_lt, hs.hwcur_lt⟩,
      hs.reserved, hs.cur_lt, hs.avail_lt, hs.passes⟩
  | consume count hcount =>
    have havail := hs.avail_lt
    refine ⟨⟨hs.nonempty, hs.bound, hs.slots, hs.ofs_lt, hs.hwofs, hs.clean_lt, hs.hwcur_lt⟩,
      hs.reserved, ?_, ?_, hs.passes⟩
    · change (s.ring.cur + count) % s.kring.nkrNumSlots < N
      rw [hs.slots]
      exact Nat.mod_lt _ hs.nonempty
    · change s.ring.avail - count < 2 ^ 32
      omega
  | rxSync carrier doLock code _ heq => exact (hs.rxSync heq).2

theorem Steady.run (hs : Steady N o m s) (hr : ReflTransGen (Consuming drv m) s s') :
    Steady N o m s' := by
  induction hr with
  | refl => exact hs
  | tail _ hstep ih => exact ih.step hstep

structure InStep (N o a : ℕ) (s : RxQueue) : Prop extends Indexed N o s where
  cur : s.ring.cur = s.kring.nrHwcur
  avail : s.ring.avail = a
  reserved : s.ring.reserved = 0
  hwavail : s.kring.nrHwavail = a
  room : a < N

/-- The user has passed `t` slots since the rings were in step, and no descriptor is done. -/
structure Passed (N o t : ℕ) (bits : RxBits) (s : RxQueue) : Prop extends Indexed N o s where
  cur : s.ring.cur = pos N s.kring.nrHwcur t
  avail : s.ring.avail = 0
  reserved : s.ring.reserved = 0
  hwavail : s.kring.nrHwavail = t
  lt : t < N
  idle : harvestable N bits s = 0

def SameSlots (s s' : RxQueue) : Prop :=
  s'.kring.nrHwcur = s.kring.nrHwcur ∧ ∀ x, (s'.ring.slot x).bufIdx = (s.ring.slot x).bufIdx

theorem SameSlots.goodSlots (h : SameSlots s s') : goodSlots N m s' = goodSlots N m s := by
  refine leading_congr fun j _ ↦ ?_
  rw [h.1]
  have hcongr := PassesInline.congr (t := m.bufs) (h.2 (pos N s.kring.nrHwcur j))
  simp only [PassesInline] at hcongr
  rw [decide_eq_decide]
  exact hcongr

def doneFrom (N n k : ℕ) : ℕ → AdvRxDesc := fun i ↦
  ⟨0, if ahead N n i < k then 1 else 0, 60, 0⟩

theorem harvestable_doneFrom (drv : Intel) {k : ℕ} (hs : Indexed N o s) (hk : k < N)
    (hdesc : s.nic.desc = doneFrom N s.nic.nextToClean k) : harvestable N drv.bits s = k := by
  have hdone (j : ℕ) (hj : j < N) :
      (s.nic.desc (pos N s.nic.nextToClean j)).done drv.bits = decide (j < k) := by
    rw [hdesc, doneFrom, ahead_pos hs.clean_lt hj]
    split_ifs with hlt
    · rw [decide_eq_true hlt]
      cases drv <;> rfl
    · rw [decide_eq_false hlt]
      cases drv <;> rfl
  refine leading_eq hk ?_ ?_
  · intro j hj
    rw [hdone j (by omega), decide_eq_true hj]
  · rw [hdone k hk, decide_eq_false (lt_irrefl k)]

theorem Indexed.withDesc (hs : Indexed N o s) (desc : ℕ → AdvRxDesc) :
    Indexed N o { s with nic := { s.nic with desc := desc } } :=
  ⟨hs.nonempty, hs.bound, hs.slots, hs.ofs_lt, hs.hwofs, hs.clean_lt, hs.hwcur_lt⟩

theorem InStep.rxSync (hs : InStep N o a s) (h : a + harvestable N drv.bits s < N) :
    ∃ s', drv.rxSync m true true s = some (0, s') ∧
      InStep N o (a + harvestable N drv.bits s) s' ∧ SameSlots s s' := by
  have hb := hs.bound
  have hcur := hs.cur
  have hlt := hs.hwcur_lt
  have hask : asked N s = 0 :=
    asked_eq hs.toIndexed hs.reserved hs.nonempty (by rw [pos_zero hlt, hcur])
  have hw : Words s := by
    have havail := hs.avail
    have hres := hs.reserved
    exact ⟨by omega, by omega, by omega⟩
  obtain ⟨code, s', heq, hcont⟩ := hs.rxSync_ends (m := m) hw (hcur ▸ hlt)
    (show harvestable N drv.bits s < N by omega) (Or.inr (by omega)) true
  have hwavail := hs.hwavail
  have hv := hs.endHarvest drv.bits m (harvestable N drv.bits s) (by omega) (by omega)
  have hg := hs.gathers drv.bits m
  obtain ⟨hgcur, _, hgres⟩ := hg.words
  cases hcont with
  | stopped hbad => omega
  | arrived _ _ harr =>
    rw [hask] at harr
    have hcount : s'.kring.nrHwavail = (a + harvestable N drv.bits s : ℕ) := by
      rw [harr.hwavail, if_pos rfl, harvestOf, hv.hwavail, hwavail, Nat.cast_add]
    have hhwcur : s'.kring.nrHwcur = s.kring.nrHwcur := by
      rw [harr.hwcur, hg.hwcur, pos_zero hlt]
    have hheld : heldBack N s = 0 := by simp [heldBack, hs.reserved]
    refine ⟨s', by rw [rxSync_eq]; exact heq, ⟨harr.indexed (hg.indexed hs.toIndexed), ?_, ?_, ?_,
      hcount, h⟩, hhwcur, ?_⟩
    · rw [harr.cur, hgcur, hcur, hhwcur]
    · rw [harr.avail, hcount, hg.checkedResvd hs.toIndexed, hheld, u32_of_mem (by omega) (by omega)]
      omega
    · rw [harr.reserved, hgres, hs.reserved]
      split_ifs <;> rfl
    · intro x
      rw [harr.slot, hg.ring]
      exact harvestAt_bufIdx drv.bits m s _ x

theorem InStep.quiet (hs : InStep N o a s)
    (heq : drv.rxSync m carrier doLock s = some (code, s')) : s'.nic.given = s.nic.given := by
  rw [rxSync_eq] at heq
  cases carrier with
  | false =>
    rw [RxQueue.rxSync, rxSyncBody_down, Option.some.injEq, Prod.mk.injEq] at heq
    rw [heq.2]
  | true =>
    have hb := hs.bound
    have hlt := hs.hwcur_lt
    have hcur := hs.cur
    have havail := hs.avail
    have hroom := hs.room
    have hres := hs.reserved
    have hask : asked N s = 0 :=
      asked_eq hs.toIndexed hres hs.nonempty (by rw [pos_zero hlt, hcur])
    obtain ⟨_, hcont⟩ := hs.rxSync_outcome ⟨by omega, by omega, by omega⟩ (hcur ▸ hlt) heq
    cases hcont with
    | stopped hbad => omega
    | arrived _ _ harr =>
      rw [harr.given, hask, (hs.gathers drv.bits m).given]
      exact List.append_nil _

theorem InStep.passes (hs : InStep N o a s) (drv : Intel) (m : DpaModule) (hat : a ≤ t)
    (ht : t < N) :
    ∃ s', ReflTransGen (Consuming drv m) s s' ∧ Passed N o t drv.bits s' ∧ SameSlots s s' := by
  have hfilled : InStep N o a { s with
      nic := { s.nic with desc := doneFrom N s.nic.nextToClean (t - a) } } :=
    ⟨hs.withDesc _, hs.cur, hs.avail, hs.reserved, hs.hwavail, hs.room⟩
  have hcount := harvestable_doneFrom drv hfilled.toIndexed
    (show t - a < N by omega) rfl
  obtain ⟨s₁, heq, hs₁, hcur₁, hslot₁⟩ := hfilled.rxSync (m := m) (by rw [hcount]; omega)
  rw [hcount, Nat.add_sub_cancel' hat] at hs₁
  have havail₁ := hs₁.avail
  have hrun : ReflTransGen (Consuming drv m) s (s₁.consume t s₁.ring.reserved) :=
    ((ReflTransGen.single (.receive s _)).tail (.rxSync _ true true 0 s₁ heq)).tail
      (.consume s₁ t havail₁.ge)
  refine ⟨_, hrun.tail (.receive _ (doneFrom N s₁.nic.nextToClean 0)), ?_, hcur₁, hslot₁⟩
  have hidx : Indexed N o (s₁.consume t s₁.ring.reserved) :=
    ⟨hs₁.nonempty, hs₁.bound, hs₁.slots, hs₁.ofs_lt, hs₁.hwofs, hs₁.clean_lt, hs₁.hwcur_lt⟩
  refine ⟨hidx.withDesc _, ?_, ?_, hs₁.reserved, hs₁.hwavail, ht, ?_⟩
  · change (s₁.ring.cur + t) % s₁.kring.nkrNumSlots = pos N s₁.kring.nrHwcur t
    rw [hs₁.cur, hs₁.slots]
    rfl
  · change s₁.ring.avail - t = 0
    omega
  · exact harvestable_doneFrom drv (hidx.withDesc _) hs.nonempty rfl

theorem Passed.asked (hp : Passed N o t bits s) : asked N s = t :=
  asked_eq hp.toIndexed hp.reserved hp.lt hp.cur

theorem Passed.words (hp : Passed N o t bits s) : Words s ∧ s.ring.cur < N := by
  have hb := hp.bound
  have havail := hp.avail
  have hres := hp.reserved
  have hcur : s.ring.cur < N := by
    rw [hp.cur]
    exact pos_lt hp.nonempty
  exact ⟨⟨by omega, by omega, by omega⟩, hcur⟩

theorem Passed.rxSync_ends (hp : Passed N o t drv.bits s) :
    ∃ code s', drv.rxSync m true true s = some (code, s') ∧
      Continues N o m s (harvestOf N o drv.bits m s) s' code := by
  obtain ⟨hw, hcur⟩ := hp.words
  have hidle := hp.idle
  have hN := hp.nonempty
  have hlt := hp.lt
  rw [rxSync_eq]
  exact hp.toIndexed.rxSync_ends hw hcur (by omega) (Or.inr (by rw [hp.asked]; exact hlt)) true

theorem Passed.answered (hp : Passed N o t drv.bits s) (hbad : goodSlots N m s < t) :
    ∃ s', drv.rxSync m true true s = some (1, s') := by
  obtain ⟨code, s', heq, hcont⟩ := hp.rxSync_ends (m := m)
  have hask := hp.asked
  cases hcont with
  | stopped => exact ⟨s', heq⟩
  | arrived hgood => omega

theorem Passed.moves_on (hp : Passed N o t drv.bits s) (hgood : t ≤ goodSlots N m s) :
    ∃ s', drv.rxSync m true true s = some (0, s') ∧ InStep N o 0 s' ∧
      s'.kring.nrHwcur = pos N s.kring.nrHwcur t ∧
      ∀ x, (s'.ring.slot x).bufIdx = (s.ring.slot x).bufIdx := by
  obtain ⟨code, s', heq, hcont⟩ := hp.rxSync_ends (m := m)
  have hask := hp.asked
  have hb := hp.bound
  have hlt := hp.lt
  have hwavail := hp.hwavail
  have hidle := hp.idle
  have hv := hp.toIndexed.endHarvest drv.bits m (harvestable N drv.bits s) (by omega) (by omega)
  have hg := hp.toIndexed.gathers drv.bits m
  obtain ⟨hgcur, _, hgres⟩ := hg.words
  cases hcont with
  | stopped hbad => omega
  | arrived _ _ harr =>
    rw [hask] at harr
    have hbefore : (harvestOf N o drv.bits m s).kring.nrHwavail = t := by
      rw [harvestOf, hv.hwavail, hwavail, hidle, Nat.cast_zero, add_zero]
    have hrel := harr.released (by rw [hbefore]; omega) (by rw [hbefore]; omega)
    have hcount : s'.kring.nrHwavail = (0 : ℕ) := by
      rw [hrel.hwavail, hbefore]
      omega
    have hhwcur : s'.kring.nrHwcur = pos N s.kring.nrHwcur t := by rw [harr.hwcur, hg.hwcur]
    have hheld : heldBack N s = 0 := by simp [heldBack, hp.reserved]
    refine ⟨s', heq, ⟨harr.indexed (hg.indexed hp.toIndexed), ?_, ?_, ?_, hcount, hp.nonempty⟩,
      hhwcur, ?_⟩
    · rw [harr.cur, hgcur, hp.cur, hhwcur]
    · rw [harr.avail, hcount, hg.checkedResvd hp.toIndexed, hheld]
      rfl
    · rw [harr.reserved, hgres, hp.reserved]
      split_ifs <;> rfl
    · intro x
      rw [harr.slot, hg.ring]
      exact harvestAt_bufIdx drv.bits m s _ x

/-- From rings in step, a user that only consumes comes to each bad slot in time. -/
theorem InStep.comes_to_bad (hs : InStep N o a s) (drv : Intel) (hN : 2 ≤ N) (hbad : goodSlots N m s < N) :
    ∃ s' s'', ReflTransGen (Consuming drv m) s s' ∧ drv.rxSync m true true s' = some (1, s'') := by
  have hroom := hs.room
  rcases Nat.lt_or_ge (goodSlots N m s + 1) N with hnear | hlast
  · obtain ⟨s₁, hrun, hp, hsame⟩ := hs.passes drv m
      (le_max_left a (goodSlots N m s + 1)) (by omega)
    obtain ⟨s₂, heq⟩ := hp.answered (m := m) (by rw [hsame.goodSlots]; omega)
    exact ⟨s₁, s₂, hrun, heq⟩
  · -- the bad slot is the one before `hwcur`, which no single round of packets comes to
    obtain ⟨s₁, hrun₁, hp₁, hsame₁⟩ := hs.passes drv m
      (show a ≤ N - 1 by omega) (by omega)
    obtain ⟨s₂, heq₂, hs₂, hcur₂, hslot₂⟩ := hp₁.moves_on (m := m)
      (by rw [hsame₁.goodSlots]; omega)
    have hfirst : goodSlots N m s₂ = 0 := by
      by_contra hne
      have hgood := goodAt_of_lt (Nat.pos_of_ne_zero hne)
      apply not_goodAt hbad
      unfold GoodAt at hgood ⊢
      rw [hcur₂, pos_pos, hsame₁.1, show N - 1 + 0 = goodSlots N m s by omega] at hgood
      exact (PassesInline.congr ((hslot₂ _).trans (hsame₁.2 _))).1 hgood
    obtain ⟨s₃, hrun₃, hp₃, hsame₃⟩ := hs₂.passes drv m (Nat.zero_le 1) hN
    obtain ⟨s₄, heq₄⟩ := hp₃.answered (m := m) (by rw [hsame₃.goodSlots, hfirst]; omega)
    exact ⟨s₃, s₄, (hrun₁.tail (.rxSync _ true true 0 s₂ heq₂)).trans hrun₃, heq₄⟩

theorem reinit_synchronises {forceSync : Bool} (h : forceSync = true ∨ HasErrors m s) :
    (s.reinit m forceSync).2 = { s with ring := resynchronised m s } := by
  rcases h with rfl | herr
  · exact reinit_force m s
  · rw [reinit_of_errors herr]

theorem Indexed.inStep (hs : Indexed N o s) (h0 : 0 ≤ s.kring.nrHwavail)
    (h1 : s.kring.nrHwavail ≤ N - 1) (hres : s.ring.reserved = 0) :
    InStep N o s.kring.nrHwavail.toNat { s with ring := resynchronised m s } := by
  have hb := hs.bound
  have hN := hs.nonempty
  refine ⟨⟨hN, hb, hs.slots, hs.ofs_lt, hs.hwofs, hs.clean_lt, hs.hwcur_lt⟩, rfl, ?_, hres, ?_,
    by omega⟩
  · exact u32_of_mem h0 (by omega)
  · exact (Int.toNat_of_nonneg h0).symm

/-- A slot that the kernel has looked at passes the test of the release loop exactly where its
index was a valid one. -/
theorem resynchronised_passes {x : ℕ} (hx : x < s.kring.nkrNumSlots) :
    PassesInline m.bufs ((resynchronised m s).slot x) ↔ PassesReinit m.bufs (s.ring.slot x) := by
  have hslot : (resynchronised m s).slot x = (reinitSlot m.bufs m.bufSize (s.ring.slot x)).1 :=
    if_pos hx
  rw [hslot, passesInline_iff]
  by_cases hp : PassesReinit m.bufs (s.ring.slot x)
  · have hidx : (reinitSlot m.bufs m.bufSize (s.ring.slot x)).1.bufIdx =
        (s.ring.slot x).bufIdx := by
      rw [reinitSlot_of_passes hp]
      split_ifs <;> rfl
    rw [hidx]
    unfold PassesReinit at hp ⊢
    omega
  · rw [reinitSlot_of_fails hp]
    exact iff_of_false (fun h ↦ h.1 rfl) hp

/-- What a resynchronisation achieves: the rings recover exactly where the user kept no slot and
left none with a bad buffer. -/
theorem recovers_iff {forceSync : Bool} (hs : Indexed N o s) (hN : 2 ≤ N)
    (h0 : 0 ≤ s.kring.nrHwavail) (h1 : s.kring.nrHwavail ≤ N - 1)
    (hsync : forceSync = true ∨ HasErrors m s) :
    Recovers N drv m (s.reinit m forceSync).2 ↔
      s.ring.reserved = 0 ∧ ∀ x < N, PassesReinit m.bufs (s.ring.slot x) := by
  have hb := hs.bound
  rw [reinit_synchronises hsync]
  refine ⟨?_, ?_⟩
  · intro hr
    have havail : (u32 s.kring.nrHwavail : ℤ) = s.kring.nrHwavail := by
      rw [u32_of_mem h0 (by omega), Int.toNat_of_nonneg h0]
    have hres : s.ring.reserved = 0 := by
      have hkept : s.kring.nrHwavail = (u32 s.kring.nrHwavail : ℤ) + s.ring.reserved := hr.hwavail
      omega
    have hstep := hs.inStep (m := m) h0 h1 hres
    refine ⟨hres, ?_⟩
    by_contra hbad
    obtain ⟨x, hx, hfail⟩ := not_forall₂.1 hbad
    rw [← resynchronised_passes (by rwa [hs.slots])] at hfail
    obtain ⟨s₁, s₂, hrun, heq⟩ := hstep.comes_to_bad drv (m := m) hN (by
      by_contra hall
      apply hfail
      have hgood := goodAt_of_lt ((ahead_lt (a := s.kring.nrHwcur) (b := x) hs.nonempty).trans_le
        (not_lt.1 hall))
      unfold GoodAt at hgood
      rwa [pos_ahead hs.hwcur_lt hx] at hgood)
    exact absurd (hr.unanswered s₁ hrun true true 1 s₂ heq) one_ne_zero
  · rintro ⟨hres, hpass⟩
    have hstep := hs.inStep (m := m) h0 h1 hres
    have hsteady : Steady N o m { s with ring := resynchronised m s } := by
      refine ⟨hstep.toIndexed, hres, hs.hwcur_lt, u32_lt _, ?_⟩
      intro x hx
      exact (resynchronised_passes (by rwa [hs.slots])).2 (hpass x hx)
    refine ⟨?_, ?_, fun _ _ _ _ heq ↦ hstep.quiet heq,
      fun s' hrun _ _ _ _ heq ↦ ((hsteady.run hrun).rxSync heq).1⟩
    · rw [hstep.avail, hstep.reserved, hstep.hwavail]
      simp
    · rw [hstep.cur, hstep.reserved, Nat.cast_zero, sub_zero, ← Int.natCast_mod,
        Nat.mod_eq_of_lt hstep.hwcur_lt]

/-- Four slots whose user has written an index out of the ring and keeps one slot. -/
def keepsOne : RxQueue :=
  { fourSlots with ring := { fourSlots.ring with cur := 4, reserved := 1 } }

/-- Four slots whose user has written an index out of the ring and a bad buffer into slot 0. -/
def badBuffer : RxQueue :=
  { fourSlots with ring := { fourSlots.ring with
      cur := 4
      slot := fun i ↦ if i = 0 then ⟨0, 0, 0⟩ else fourSlots.ring.slot i } }

def keepsOneSynced : RxQueue :=
  match Intel.igb.rxSync eightBuffers true true (keepsOne.reinit eightBuffers true).2 with
  | some r => r.2
  | none => keepsOne

theorem keepsOne_sync : Intel.igb.rxSync eightBuffers true true
    (keepsOne.reinit eightBuffers true).2 = some (0, keepsOneSynced) := rfl

theorem badBuffer_indexed : Indexed 4 0 badBuffer :=
  ⟨by decide, by decide, rfl, by decide, rfl, by decide, by decide⟩

/-- Neither recovers: the first has three slots given back by the very next call, the second has
its user answered with an error. -/
theorem reinit_not_recovers :
    (Intel.igb.rxSync eightBuffers true true (keepsOne.reinit eightBuffers true).2 =
      some (0, keepsOneSynced) ∧ keepsOneSynced.nic.given = [0, 1, 2] ∧
      ¬Recovers 4 .igb eightBuffers (keepsOne.reinit eightBuffers true).2) ∧
    ¬Recovers 4 .igb eightBuffers (badBuffer.reinit eightBuffers true).2 := by
  refine ⟨⟨keepsOne_sync, by decide +kernel, ?_⟩, ?_⟩
  · intro hr
    have h := hr.hwavail
    revert h
    decide
  · intro hr
    have hstep := badBuffer_indexed.inStep (m := eightBuffers) (by decide) (by decide) rfl
    obtain ⟨s₁, s₂, hrun, heq⟩ := hstep.comes_to_bad .igb (m := eightBuffers) (by decide)
      (by decide)
    rw [reinit_synchronises (Or.inl rfl)] at hr
    exact absurd (hr.unanswered s₁ hrun true true 1 s₂ heq) one_ne_zero

/-- Two packets are pending from slot 1 on, and the user has written an index out of the ring. -/
def strayed : RxQueue :=
  { fourSlots with
    kring := { fourSlots.kring with nrHwcur := 1, nrHwavail := 2 }
    ring := { fourSlots.ring with cur := 9 } }

theorem recovers_iff_strayed :
    (strayed.reinit eightBuffers true).2.ring.cur = 1 ∧
    (strayed.reinit eightBuffers true).2.ring.avail = 2 ∧
    Recovers 4 .igb eightBuffers (strayed.reinit eightBuffers true).2 := by
  have hs : Indexed 4 0 strayed :=
    ⟨by decide, by decide, rfl, by decide, rfl, by decide, by decide⟩
  refine ⟨rfl, rfl, ?_⟩
  exact (recovers_iff hs (by decide) (by decide) (by decide) (Or.inl rfl)).2
    ⟨rfl, by unfold PassesReinit; decide⟩

end Dpa.Driver
