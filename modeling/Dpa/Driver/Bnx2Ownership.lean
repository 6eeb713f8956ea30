import Dpa.Library.Machine
import Dpa.Driver.Bnx2Reset

namespace Dpa.Driver

open Kernel MachineWord Cyclic Paged Function Loop Library

variable {β : Type} {N R o T C Q K a i j resvd : ℕ} {m : DpaModule} {s s' s₁ : Bnx2Queue β}

inductive Bnx2Action (β : Type)
  | receive (frame : L2Frame β)
  | rxSync (carrier doLock : Bool)
  | consume (count reserved : ℕ)
  | reset

namespace Bnx2Queue

def act (m : DpaModule) (s : Bnx2Queue β) : Bnx2Action β → Option (Bnx2Queue β)
  | .receive frame =>
    if bnx2GetHwRxCons s.nic.hwRxCons ≠ s.nic.bidx then some (s.receive frame) else none
  | .rxSync carrier doLock => (s.bnx2DpaRxSync m carrier doLock).map Prod.snd
  | .consume count reserved =>
    if count ≤ s.ring.avail ∧ reserved ≤ s.ring.reserved + count then
      some (s.consume count reserved)
    else none
  | .reset => some (s.reset m)

def Pending (s : Bnx2Queue β) (x : ℕ) : Prop :=
  ∃ i : ℕ, (i : ℤ) < s.kring.nrHwavail ∧ x = pos s.kring.nkrNumSlots s.kring.nrHwcur i

/-- The slot of a descriptor from `rx_cons` on and before `rx_prod`. -/
def Posted (s : Bnx2Queue β) (x : ℕ) : Prop :=
  ∃ j, (∀ i ≤ j, nextRxBd^[i] s.nic.rxCons ≠ s.nic.rxProd) ∧
    x = s.slotOf (nextRxBd^[j] s.nic.rxCons)

/-- How far the pending window ends before the slot of `rx_cons`. -/
def shortfall (s : Bnx2Queue β) : ℕ :=
  ahead s.kring.nkrNumSlots
    (pos s.kring.nkrNumSlots s.kring.nrHwcur s.kring.nrHwavail.toNat) (s.slotOf s.nic.rxCons)

/-- What an event asks of the queue for the two sides to stay apart: a call of `rx_sync` does not
count more page links than keep the window behind `rx_cons`, and a reset finds pending only slots
to which it gives no descriptor. -/
def StaysApart (s : Bnx2Queue β) : Bnx2Action β → Prop
  | .rxSync carrier _ =>
    carrier = true → s.linksCounted s.ready ≤ s.linksPassed s.ready + s.shortfall
  | .reset => s.kring.nrHwavail ≤
    s.kring.nkrNumSlots - (s.rxRingSize / maxRxDescCnt * rxDescCnt : ℕ)
  | _ => True

instance (s : Bnx2Queue β) : (e : Bnx2Action β) → Decidable (s.StaysApart e)
  | .rxSync carrier _ => inferInstanceAs (Decidable (carrier = true → _ ≤ _))
  | .reset => inferInstanceAs (Decidable (_ ≤ _))
  | .receive _ => isTrue trivial
  | .consume _ _ => isTrue trivial

end Bnx2Queue

/-- The queue in the indices that run on from its last reset: `T` packets harvested, `C` received
by the chip, `Q` descriptors posted, and the window from slot `K` on. -/
structure Bnx2Owned (N R o T C Q K a : ℕ) (m : DpaModule) (s : Bnx2Queue β) : Prop where
  core : Bnx2Core N R o T a m s
  user : Bnx2User N a s
  hwcur : s.kring.nrHwcur = pos N o K
  behind : K + a ≤ place 255 T + N
  harvested_le : T ≤ C
  received_le : C ≤ Q
  posted : Q < used 255 (K + 1)
  prod : s.nic.rxProd = place 255 Q % 65536
  bidx : s.nic.bidx = place 255 Q % 65536
  head : bnx2GetHwRxCons s.nic.hwRxCons = place 255 C % 65536

theorem Bnx2Owned.posted_le (ho : Bnx2Owned N R o T C Q K a m s) : place 255 Q ≤ K :=
  Nat.le_of_lt_succ (place_lt_of_lt_used (by decide) ho.posted)

theorem Bnx2Owned.apart (ho : Bnx2Owned N R o T C Q K a m s) {x : ℕ} (hx : s.Posted x) :
    ¬s.Pending x := by
  rintro ⟨i, hi, hslot⟩
  obtain ⟨j, hj, rfl⟩ := hx
  have hmono := place_strictMono (w := 255) (by decide)
  have hle : place 255 T ≤ place 255 (T + j) := hmono.monotone (Nat.le_add_right T j)
  have hlt : place 255 (T + j) < place 255 Q := by
    apply hmono
    by_contra hge
    have hTQ := ho.harvested_le.trans ho.received_le
    apply hj (Q - T) (by omega)
    rw [ho.core.cons, ho.prod, nextRxBd_iterate, Nat.add_sub_cancel' hTQ]
  have hpost := ho.posted_le
  have hbehind := ho.behind
  rw [ho.core.hwavail] at hi
  rw [ho.core.cons, nextRxBd_iterate, ho.core.places.slotOf, ho.core.slots, ho.hwcur, pos_pos] at hslot
  exact pos_ne_of_lt (by omega) (by omega) hslot

theorem bnx2GetHwRxCons_place (t : ℕ) :
    bnx2GetHwRxCons (u16 (place 255 t % 65536 + 1)) = place 255 (t + 1) % 65536 := by
  have hlt := place_mod_lt (w := 255) (by decide) t
  rw [bnx2GetHwRxCons, and_maxRxDescCnt, place_succ (by decide), u16, u16]
  have hmax : maxRxDescCnt = 255 := rfl
  by_cases hlast : place 255 t % 256 = 254
  · rw [if_pos (by omega), if_pos hlast]
    omega
  · rw [if_neg (by omega), if_neg hlast]
    omega

theorem Bnx2Owned.receive (ho : Bnx2Owned N R o T C Q K a m s)
    (hne : bnx2GetHwRxCons s.nic.hwRxCons ≠ s.nic.bidx) (frame : L2Frame β) :
    Bnx2Owned N R o T (C + 1) Q K a m (s.receive frame) := by
  obtain ⟨hc, hu, hwcur, hbehind, hT, hC, hQ, hprod, hbidx, hhead⟩ := ho
  have hlt : C ≠ Q := by
    rintro rfl
    exact hne (hhead.trans hbidx.symm)
  refine ⟨⟨hc.sized, hc.slots, hc.ringSize, hc.maxRingIdx, hc.ofs_lt, hc.hwofs, hc.hwcur_lt,
    hc.hwavail, hc.room, hc.cons, hc.good⟩, ⟨hu.avail, hu.cur⟩, hwcur, hbehind, by omega, by omega,
    hQ, hprod, hbidx, ?_⟩
  change bnx2GetHwRxCons (u16 ((bnx2GetHwRxCons s.nic.hwRxCons : ℕ) + 1)) = _
  rw [hhead]
  exact bnx2GetHwRxCons_place C

theorem Bnx2Owned.ready_le (ho : Bnx2Owned N R o T C Q K a m s) : T + s.ready ≤ C := by
  by_contra hgt
  have hT := ho.harvested_le
  have hmore := (of_decide_eq_true (of_lt_leading (show C - T < s.ready by omega))).2
  rw [ho.core.cons, nextRxBd_iterate, Nat.add_sub_cancel' hT, ho.head] at hmore
  exact hmore rfl

theorem Bnx2Core.release_swProd (hc : Bnx2Core N R o T a m s)
    (hwcur : s.kring.nrHwcur = pos N o K) (hprod : s.nic.rxProd = place 255 Q % 65536) (r : ℕ) :
    ∃ Q', Q' + used 255 (K + 1) = Q + used 255 (K + r + 1) ∧
      (releaseRounds s r).swProd = place 255 Q' % 65536 := by
  induction r with
  | zero => exact ⟨Q, rfl, hprod⟩
  | succ r ih =>
    obtain ⟨Q', hQ', hprod'⟩ := ih
    have hN := hc.sized.nonempty
    have hle := hc.sized.le
    have hlt : pos N o (K + r + 1) < N := pos_lt hN
    have hk : (releaseRounds s (r + 1)).k = pos N o (K + r + 1) := by
      rw [hc.release_k, hwcur, pos_pos, ← Nat.add_assoc]
    have hlink : u32 (dpaIdxK2n s.kring (s32 (releaseRounds s (r + 1)).k)) &&& maxRxDescCnt =
        (K + r + 1) % 256 := by
      have hmod : (K + r + 1) % N < N := Nat.mod_lt _ hN
      rw [hk, s32_of_mem (by omega) (by omega), dpaIdxK2n_eq hc.sized.bound hc.slots hc.hwofs
        hc.ofs_lt hlt, ahead_pos_mod hc.ofs_lt, u32_natCast (by omega), and_maxRxDescCnt,
        Nat.mod_mod_of_dvd _ hc.sized.dvd]
    have hstep : (releaseRounds s (r + 1)).swProd =
        if (K + r + 1) % 256 ≠ 255 then nextRxBd (releaseRounds s r).swProd
        else (releaseRounds s r).swProd := by
      rw [← hlink, releaseRounds_succ]
      rfl
    have hused := used_succ 255 (K + r + 1)
    rw [hstep, hprod', nextRxBd_place]
    by_cases hlast : (K + r + 1) % 256 = 255
    · rw [if_pos hlast] at hused
      refine ⟨Q', hQ'.trans ?_, if_neg (not_not.2 hlast)⟩
      rw [← hused]
      rfl
    · rw [if_neg hlast] at hused
      refine ⟨Q' + 1, ?_, if_pos hlast⟩
      rw [← Nat.add_assoc K, hused]
      omega

theorem Bnx2Owned.counted_behind (ho : Bnx2Owned N R o T C Q K a m s)
    (hl : s.linksCounted s.ready ≤ s.linksPassed s.ready + s.shortfall) :
    K + a + (s.ready + s.linksCounted s.ready) ≤ place 255 (T + s.ready) + N := by
  have hbehind := ho.behind
  have hN := ho.core.sized.nonempty
  have hshort : s.shortfall ≤ place 255 T + N - (K + a) := by
    have hend : pos N o (place 255 T) = pos N (pos N o (K + a)) (place 255 T + N - (K + a)) := by
      rw [pos_pos, Nat.add_sub_cancel' hbehind, pos, pos, ← Nat.add_assoc, Nat.add_mod_right]
    rw [Bnx2Queue.shortfall, ho.core.hwavail, Int.toNat_natCast, ho.core.slots, ho.hwcur, pos_pos,
      ho.core.cons, ho.core.places.slotOf, hend, ahead_pos_mod (pos_lt hN)]
    exact Nat.mod_le _ _
  have hadd := ho.core.places.place_add s.ready
  omega

theorem Bnx2Owned.rxSync (ho : Bnx2Owned N R o T C Q K a m s)
    (hl : s.linksCounted s.ready ≤ s.linksPassed s.ready + s.shortfall) (doLock : Bool) :
    ∃ s' Q' K' a', s.bnx2DpaRxSync m true doLock = some (0, s') ∧
      Bnx2Owned N R o (T + s.ready) C Q' K' a' m s' := by
  have hav := ho.user.avail
  have hbehind := ho.counted_behind hl
  have hready := ho.ready_le
  obtain ⟨s₁, s', heq, hv, hr⟩ := ho.core.rxSync ho.user doLock
  obtain ⟨_, hc', hu'⟩ := ho.core.synced ho.user hv hr
  have hc₁ := ho.core.offsetTold.harvested hv (ho.core.places.ready_room ho.core.hwavail)
  have hcur₁ : s₁.kring.nrHwcur = pos N o K := hv.hwcur.trans ho.hwcur
  have hprod₁ : s₁.nic.rxProd = place 255 Q % 65536 := by
    rw [hv.nic]
    exact ho.prod
  have hbidx₁ : s₁.nic.bidx = place 255 Q % 65536 := by
    rw [hv.nic]
    exact ho.bidx
  obtain ⟨Q', hQ', hprod'⟩ := hc₁.release_swProd hcur₁ hprod₁
    (a - s.ring.avail - s.ring.reserved)
  have hmono := used_mono 255 (show K + 1 ≤ K + (a - s.ring.avail - s.ring.reserved) + 1 by omega)
  have hposted := ho.posted
  have hreceived := ho.received_le
  refine ⟨s', Q', K + (a - s.ring.avail - s.ring.reserved), _, heq, hc', hu', ?_, ?_, hready, ?_,
    ?_, ?_, ?_, ?_⟩
  · rw [hr.hwcur, hcur₁, pos_pos]
  · omega
  · omega
  · omega
  · rw [hr.nic]
    exact hprod'
  · rw [hr.nic, ← hprod']
    change (if _ then s₁.nic.bidx else _) = _
    split_ifs with h0
    · rw [h0]
      exact hbidx₁.trans hprod₁.symm
    · rfl
  · rw [hr.nic, hv.nic]
    exact ho.head

theorem Bnx2Owned.consume (ho : Bnx2Owned N R o T C Q K a m s) {count reserved : ℕ}
    (hcount : count ≤ s.ring.avail) (hres : reserved ≤ s.ring.reserved + count) :
    Bnx2Owned N R o T C Q K a m (s.consume count reserved) := by
  obtain ⟨hc, hu, hwcur, hbehind, hT, hC, hQ, hprod, hbidx, hhead⟩ := ho
  have hav := hu.avail
  refine ⟨⟨hc.sized, hc.slots, hc.ringSize, hc.maxRingIdx, hc.ofs_lt, hc.hwofs, hc.hwcur_lt,
    hc.hwavail, hc.room, hc.cons, hc.good⟩, ⟨?_, ?_⟩, hwcur, hbehind, hT, hC, hQ, hprod, hbidx,
    hhead⟩
  · change s.ring.avail - count + reserved ≤ a
    omega
  · change (s.ring.cur + count) % s.kring.nkrNumSlots =
      pos N s.kring.nrHwcur (a - (s.ring.avail - count))
    rw [hc.slots, hu.cur]
    change pos N (pos N s.kring.nrHwcur (a - s.ring.avail)) count = _
    rw [pos_pos]
    congr 1
    omega

/-- A reset that finds pending only slots to which it gives no descriptor. -/
theorem Bnx2Resettable.owned (hr : Bnx2Resettable N R a m s) (hu : Bnx2User N a s)
    (ha : place 255 R + a ≤ N) :
    Bnx2Owned N R (pos N s.kring.nrHwcur a) 0 0 R (N - a) a m (s.reset m) := by
  have hN := hr.sized.nonempty
  have hroom := hr.room
  obtain ⟨hk, _, _, _, _, _, _, hhw, hprod, hbidx, _⟩ := reset_fields m s
  replace hk := hk.trans (dpaReset_clearRingStates s)
  refine ⟨hr.reset, hu.reset, ?_, ?_, le_rfl, Nat.zero_le R, ?_, ?_, ?_, ?_⟩
  · rw [hk, dpaReset_nrHwcur, pos_pos, Nat.add_sub_cancel' hroom.le, pos, Nat.add_mod_right,
      Nat.mod_eq_of_lt hr.hwcur_lt]
  · rw [place_zero]
    omega
  · have hmod := place_mod_lt (w := 255) (by decide) R
    have hused := used_succ 255 (place 255 R)
    rw [if_neg hmod.ne, used_place (by decide)] at hused
    have hmono := used_mono 255 (show place 255 R + 1 ≤ N - a + 1 by omega)
    omega
  · rw [hprod, hr.ringSize, confRounds_prod]
  · rw [hbidx, hr.ringSize, confRounds_prod]
  · rw [hhw]
    rfl

variable {n : ℕ} {s₀ : Bnx2Queue β}

theorem Bnx2Owned.step (ho : Bnx2Owned N R o T C Q K a m s) {e : Bnx2Action β}
    (he : s.StaysApart e) (hs : s.act m e = some s') :
    ∃ o T C Q K a, Bnx2Owned N R o T C Q K a m s' := by
  cases e with
  | receive frame =>
    obtain ⟨hne, hs⟩ := Option.ite_none_right_eq_some.1 hs
    obtain rfl := Option.some.inj hs
    exact ⟨_, _, _, _, _, _, ho.receive hne frame⟩
  | rxSync carrier doLock =>
    obtain ⟨r, hr, rfl⟩ := Option.map_eq_some_iff.1 hs
    cases carrier with
    | false =>
      obtain rfl := Option.some.inj hr
      exact ⟨_, _, _, _, _, _, ho⟩
    | true =>
      obtain ⟨s', Q', K', a', heq, ho'⟩ := ho.rxSync (he rfl) doLock
      obtain rfl := Option.some.inj (heq.symm.trans hr)
      exact ⟨_, _, _, _, _, _, ho'⟩
  | consume count reserved =>
    obtain ⟨⟨hcount, hres⟩, hs⟩ := Option.ite_none_right_eq_some.1 hs
    obtain rfl := Option.some.inj hs
    exact ⟨_, _, _, _, _, _, ho.consume hcount hres⟩
  | reset =>
    obtain rfl := Option.some.inj hs
    have hpages : R / maxRxDescCnt * rxDescCnt = place 255 R := ho.core.sized.place_size.symm
    change s.kring.nrHwavail ≤ _ at he
    rw [ho.core.hwavail, ho.core.slots, ho.core.ringSize, hpages] at he
    exact ⟨_, _, _, _, _, _, ho.core.resettable.owned ho.user (by omega)⟩

/-- In a run whose every event finds the queue as the condition asks, no slot is both pending and
posted, and the chip is never told the index of a page link. -/
theorem bnx2_apart (h₀ : Bnx2Registered n m s₀) {es : List (Bnx2Action β)}
    (hes : Throughout (Bnx2Queue.act m) Bnx2Queue.StaysApart es (s₀.reset m))
    (hr : run (Bnx2Queue.act m) es (s₀.reset m) = some s) :
    (∀ carrier doLock, ∃ s', s.bnx2DpaRxSync m carrier doLock = some (0, s')) ∧
      (∀ x, s.Posted x → ¬s.Pending x) ∧ s.nic.bidx % rxDescCnt ≠ maxRxDescCnt := by
  have hle := h₀.resettable.sized.place_le
  obtain ⟨o, T, C, Q, K, a, ho⟩ : ∃ o T C Q K a,
      Bnx2Owned s₀.kring.nkrNumSlots s₀.rxRingSize o T C Q K a m s := by
    refine Throughout.preserves (P := fun s ↦ ∃ o T C Q K a, Bnx2Owned _ _ o T C Q K a m s) ?_ hes
      ⟨_, _, _, _, _, _, h₀.resettable.owned h₀.userSide hle⟩ hr
    intro s e s' ⟨o, T, C, Q, K, a, ho⟩ he hs
    exact ho.step he hs
  refine ⟨ho.core.rxSync_returns ho.user, fun x ↦ ho.apart, ?_⟩
  have hlt := place_mod_lt (w := 255) (by decide) Q
  change s.nic.bidx % 256 ≠ 255
  rw [ho.bidx]
  omega

/-- A page of packets and one behind its link, and a reset when all of them are released. -/
def twoPagesActions : List (Bnx2Action ℕ) :=
  List.replicate 256 (.receive ⟨0, 0, 64, 7⟩) ++
    [.rxSync true true, .consume 257 0, .rxSync true true, .reset, .receive ⟨0, 0, 74, 8⟩,
      .receive ⟨0, 0, 84, 9⟩, .rxSync true true, .consume 1 1]

set_option maxRecDepth 20000 in
theorem bnx2_apart_twoPages :
    ∃ s, run (Bnx2Queue.act pageBuffers) twoPagesActions (twoPages.reset pageBuffers) = some s ∧
      s.kring.nkrHwofs = 257 ∧ s.kring.nrHwavail = 2 ∧
      (∀ carrier doLock, ∃ s', s.bnx2DpaRxSync pageBuffers carrier doLock = some (0, s')) ∧
      (∀ x, s.Posted x → ¬s.Pending x) ∧ s.nic.bidx % rxDescCnt ≠ maxRxDescCnt := by
  have hrun : (run (Bnx2Queue.act pageBuffers) twoPagesActions (twoPages.reset pageBuffers)).map
      (fun s ↦ (s.kring.nkrHwofs, s.kring.nrHwavail)) = some (257, 2) := by
    decide +kernel
  have hes : Throughout (Bnx2Queue.act pageBuffers) Bnx2Queue.StaysApart twoPagesActions
      (twoPages.reset pageBuffers) := by
    decide +kernel
  obtain ⟨s, hr, hs⟩ := Option.map_eq_some_iff.1 hrun
  obtain ⟨hofs, havail⟩ := Prod.mk.inj hs
  exact ⟨s, hr, hofs, havail, bnx2_apart twoPages_registered hes hr⟩

theorem posted_of_place (hcons : s.nic.rxCons = place 255 T) (hprod : s.nic.rxProd = place 255 (T + Q))
    (hlt : place 255 (T + Q) < 65536) (hj : j < Q) : s.Posted (s.slotOf (place 255 (T + j))) := by
  have hmono := place_strictMono (w := 255) (by decide)
  have hT : place 255 T < 65536 := (hmono.monotone (Nat.le_add_right T Q)).trans_lt hlt
  have hiter (i : ℕ) (hi : i < Q) : nextRxBd^[i] s.nic.rxCons = place 255 (T + i) := by
    have hi' : place 255 (T + i) < place 255 (T + Q) := hmono (Nat.add_lt_add_left hi T)
    rw [hcons, ← Nat.mod_eq_of_lt hT, nextRxBd_iterate, Nat.mod_eq_of_lt (hi'.trans hlt)]
  refine ⟨j, fun i hi ↦ ?_, by rw [hiter j hj]⟩
  rw [hiter i (by omega), hprod]
  exact (hmono (show T + i < T + Q by omega)).ne

/-- A reset posts the descriptors of all the ring, those of the two pending slots too. Where only one
is pending its descriptor is a page link; but its release posts that of the next slot for a second
time. -/
theorem bnx2_pending_posted : Bnx2Registered 256 pageBuffers twoPages ∧
    (∃ s, run (Bnx2Queue.act pageBuffers)
        [.receive ⟨0, 0, 64, 7⟩, .receive ⟨0, 0, 64, 8⟩, .rxSync true true, .reset]
        (twoPages.reset pageBuffers) = some s ∧
      dpaIdxK2n s.kring 0 = 510 ∧ s.Posted 0 ∧ s.Pending 0) ∧
    ∃ s, run (Bnx2Queue.act pageBuffers)
        [.receive ⟨0, 0, 64, 7⟩, .rxSync true true, .reset, .consume 1 0, .rxSync true true,
          .receive ⟨0, 0, 64, 8⟩, .rxSync true true] (twoPages.reset pageBuffers) = some s ∧
      dpaIdxK2n s.kring 1 = 0 ∧ s.Posted 1 ∧ s.Pending 1 := by
  have htwo : (run (Bnx2Queue.act pageBuffers)
      [.receive ⟨0, 0, 64, 7⟩, .receive ⟨0, 0, 64, 8⟩, .rxSync true true, .reset]
      (twoPages.reset pageBuffers)).map (fun s ↦ (s.kring, s.nic.rxCons, s.nic.rxProd, s.slotOf 510)) =
        some (⟨0, 2, 0, 512, 2, 2, 120⟩, 0, 512, 0) := by
    decide +kernel
  have hone : (run (Bnx2Queue.act pageBuffers)
      [.receive ⟨0, 0, 64, 7⟩, .rxSync true true, .reset, .consume 1 0, .rxSync true true,
        .receive ⟨0, 0, 64, 8⟩, .rxSync true true] (twoPages.reset pageBuffers)).map
      (fun s ↦ (s.kring, s.nic.rxCons, s.nic.rxProd, s.slotOf 512)) =
        some (⟨1, 1, 0, 512, 1, 2, 120⟩, 1, 513, 1) := by
    decide +kernel
  refine ⟨twoPages_registered, ?_, ?_⟩
  · obtain ⟨s, hr, hs⟩ := Option.map_eq_some_iff.1 htwo
    simp only [Prod.mk.injEq] at hs
    obtain ⟨hk, hcons, hprod, hslot⟩ := hs
    have hposted := posted_of_place (T := 0) (Q := 510) (j := 509) hcons hprod (by decide) (by decide)
    refine ⟨s, hr, by rw [hk]; rfl, hslot ▸ hposted, 0, ?_, ?_⟩
    · rw [hk]
      decide
    · rw [hk]
      rfl
  · obtain ⟨s, hr, hs⟩ := Option.map_eq_some_iff.1 hone
    simp only [Prod.mk.injEq] at hs
    obtain ⟨hk, hcons, hprod, hslot⟩ := hs
    have hposted := posted_of_place (T := 1) (Q := 510) (j := 509) hcons hprod (by decide) (by decide)
    refine ⟨s, hr, by rw [hk]; rfl, hslot ▸ hposted, 0, ?_, ?_⟩
    · rw [hk]
      decide
    · rw [hk]
      rfl

end Dpa.Driver
