import Dpa.Driver.IntelUntrusted
import Dpa.Driver.Bnx2

namespace Dpa.Driver

open Kernel MachineWord Cyclic

variable {β : Type} {N : ℕ} {ring : DpaRing} {m : DpaModule}

structure RingWords (ring : DpaRing) : Prop where
  cur : ring.cur < 2 ^ 32
  avail : ring.avail < 2 ^ 32
  reserved : ring.reserved < 2 ^ 32

def releaseTarget (numSlots : ℕ) (ring : DpaRing) : ℕ :=
  releaseEnd numSlots ring.cur (checkedResvd numSlots ring ring.reserved)

/-- The user claims to keep more than a round of slots, and its sum with `avail` wraps around to
one that passes the check. -/
def Overshoots (N : ℕ) (ring : DpaRing) : Prop :=
  ring.cur < N ∧ ring.cur + N < ring.reserved ∧ (ring.reserved + ring.avail) % 2 ^ 32 < N

/-- Whether a release loop gets to its end: no call with `cur` outside of the ring begins one;
any other has a slot of the ring as its target and arrives after `N` rounds at the latest. -/
def ReleaseEnds (N : ℕ) (ring : DpaRing) (ends : ℕ → ℕ → Bool) : Prop :=
  ring.cur ≤ N - 1 →
    releaseTarget (N - 1) ring < N ∧ ends (releaseTarget (N - 1) ring) (N + 1) = true

theorem releaseTarget_lt_iff (hN : 0 < N) (hb : N < 2 ^ 32) (hw : RingWords ring)
    (hcur : ring.cur < N) : releaseTarget (N - 1) ring < N ↔ ¬Overshoots N ring := by
  have havail := hw.avail
  have hres := hw.reserved
  have hcast : (((N - 1 : ℕ) : ℤ) + 1) = N := by omega
  have hlast : u32 (((N - 1 : ℕ) : ℤ) + 1) = N := by rw [hcast, u32_natCast hb]
  have hsum : u32 (ring.reserved + ring.avail) = (ring.reserved + ring.avail) % 2 ^ 32 := by
    unfold u32
    omega
  have hend (h : ring.cur < ring.reserved) : u32 (ring.cur + (N - 1 : ℕ) + 1 - ring.reserved) =
      if ring.reserved ≤ ring.cur + N then ring.cur + N - ring.reserved
      else ring.cur + N + 2 ^ 32 - ring.reserved := by
    unfold u32
    split_ifs <;> omega
  unfold releaseTarget releaseEnd checkedResvd Overshoots
  rw [hlast, hsum]
  by_cases hchk : ring.reserved > 0 ∧ (ring.reserved + ring.avail) % 2 ^ 32 ≥ N
  · rw [if_pos hchk, if_neg (lt_irrefl 0)]
    refine iff_of_true hcur ?_
    rintro ⟨_, _, hlt⟩
    omega
  · rw [if_neg hchk]
    split_ifs with h0 hle
    · refine iff_of_true (by omega) ?_
      rintro ⟨_, hgt, _⟩
      omega
    · rw [hend (not_le.1 hle)]
      split_ifs with hround
      · exact iff_of_true (by omega) (fun h ↦ by omega)
      · exact iff_of_false (by omega) (not_not.2 ⟨hcur, by omega, by omega⟩)
    · exact iff_of_true hcur (fun h ↦ by omega)

section

variable {u : ℕ}

theorem numSlots_eq {kring : DpaKring} (hN : 0 < N) (hb : N < 2 ^ 32)
    (hslots : kring.nkrNumSlots = N) : u32 (kring.nkrNumSlots - 1) = N - 1 := by
  rw [hslots, u32_of_mem (by omega) (by omega)]
  omega

theorem release_walks (hb : N < 2 ^ 32) (m : DpaModule) (slot : ℕ → DpaSlot) (u : ℕ) :
    Walks N u (fun x ↦ (bufVpa m.bufs (slot x)).1 ≠ m.bufs.base) Release.k
      (fun r ↦
        { desc := Function.update r.desc r.n ((r.desc r.n).rearm (bufVpa m.bufs (slot r.k)).2)
          n := ringSucc (N - 1) r.n
          k := ringSucc (N - 1) r.k
          i := u32 (r.i + 1)
          given := r.given ++ [r.k] })
      (release m slot (N - 1) u) where
  zero := by
    intro r
    rfl
  stop := by
    intro n r h
    unfold release
    by_cases hu : r.k = u
    · rw [if_pos hu]
      rfl
    · rw [if_neg hu, if_pos (not_not.1 (h.resolve_left hu))]
      rfl
  go := by
    intro n r hu hg
    rw [release, if_neg hu, if_neg hg]
  step := fun _ hr ↦ ringSucc_next hb hr

theorem Bnx2Queue.release_walks {s : Bnx2Queue β} (hb : N < 2 ^ 32)
    (hring : s.rxMaxRingIdx = N - 1) (m : DpaModule) (u : ℕ) :
    Walks N u (fun x ↦ (bufVpa m.bufs (s.ring.slot x)).1 ≠ m.bufs.base) Bnx2Release.k
      s.releaseRound (s.release m u) where
  zero := by
    intro r
    rfl
  stop := by
    intro n r h
    unfold Bnx2Queue.release
    by_cases hu : r.k = u
    · rw [if_pos hu]
      rfl
    · rw [if_neg hu, if_pos (not_not.1 (h.resolve_left hu))]
      rfl
  go := by
    intro n r hu hg
    rw [Bnx2Queue.release, if_neg hu, if_neg hg]
  step := by
    intro r hr
    change ringSucc s.rxMaxRingIdx r.k = _
    rw [hring, ringSucc_next hb hr]

variable {σ τ : Type} {good : ℕ → Prop} {k : σ → ℕ} {next : σ → σ} {walk : ℕ → ℕ → σ → Option τ}
  {r : σ}

/-- A loop that walks the ring from a slot of it ends exactly where the words of the user do not
overshoot. -/
theorem releaseEnds_iff (hN : 0 < N) (hb : N < 2 ^ 32) (hw : RingWords ring)
    (hwalk : ∀ u, Walks N u good k next (walk u)) (hr : k r < N) :
    ReleaseEnds N ring (fun u n ↦ (walk u n r).isSome) ↔ ¬Overshoots N ring := by
  by_cases hcur : ring.cur < N
  · rw [← releaseTarget_lt_iff hN hb hw hcur]
    refine ⟨fun h ↦ (h (by omega)).1, fun h _ ↦ ⟨h, ?_⟩⟩
    exact (hwalk _).mono hr N.le_succ ((hwalk _).ends hr h)
  · exact iff_of_true (fun h ↦ absurd h (by omega)) (fun h ↦ hcur h.1)

theorem release_never_of_overshoots (hN : 0 < N) (hb : N < 2 ^ 32) (hw : RingWords ring)
    (hwalk : ∀ u, Walks N u good k next (walk u)) (hr : k r < N) (ho : Overshoots N ring)
    (hg : ∀ x < N, good x) (n : ℕ) : walk (releaseTarget (N - 1) ring) n r = none := by
  have htarget := (not_congr (releaseTarget_lt_iff hN hb hw ho.1)).2 (not_not.2 ho)
  exact (hwalk _).never hr (not_lt.1 htarget) hg n

end

def RxQueue.releaseLoop (m : DpaModule) (s : RxQueue) (u n : ℕ) : Option (Release × Bool) :=
  release m s.ring.slot s.numSlots u n s.beginRelease

def Bnx2Queue.releaseLoop (m : DpaModule) (s : Bnx2Queue β) (u n : ℕ) :
    Option (Bnx2Release × Bool) :=
  s.release m u n s.beginRelease

/-- After its harvest a call goes on to the loop with the target that the user's words give. -/
theorem RxQueue.releaseAndReport_never {s : RxQueue} (hne : s.kring.nrHwcur ≠
    releaseTarget s.numSlots s.ring) (hloop : s.releaseLoop m (releaseTarget s.numSlots s.ring)
    s.kring.nkrNumSlots = none) : s.releaseAndReport m s.ring.cur s.ring.reserved = none := by
  have hrun : release m s.ring.slot s.numSlots
      (s.releaseEnd s.ring.cur (s.checkedResvd s.ring.reserved)) s.kring.nkrNumSlots
      s.beginRelease = none := hloop
  rw [releaseAndReport_eq, hrun]
  exact if_neg hne

theorem Bnx2Queue.releaseAndReport_never {s : Bnx2Queue β} (hne : s.kring.nrHwcur ≠
    releaseTarget s.numSlots s.ring) (hloop : s.releaseLoop m (releaseTarget s.numSlots s.ring)
    s.kring.nkrNumSlots = none) : s.releaseAndReport m s.ring.cur s.ring.reserved = none := by
  have hslot (u n : ℕ) (reserved : ℕ) (r : Bnx2Release) :
      ({ s with ring := { s.ring with reserved := reserved } } : Bnx2Queue β).release m u n r =
        s.release m u n r := by
    induction n generalizing r with
    | zero => rfl
    | succ n ih =>
      unfold Bnx2Queue.release
      rw [ih]
      rfl
  change s.release m (releaseEnd s.numSlots s.ring.cur
    (checkedResvd s.numSlots s.ring s.ring.reserved)) s.kring.nkrNumSlots s.beginRelease = none
    at hloop
  unfold Bnx2Queue.releaseAndReport
  by_cases hc : checkedResvd s.numSlots s.ring s.ring.reserved = s.ring.reserved
  · simp only [hc, if_true] at hloop hne ⊢
    rw [hloop]
    exact if_neg (by rwa [releaseTarget, hc] at hne)
  · simp only [hc, if_false]
    refine (if_neg hne).trans ?_
    have hrun := (hslot _ _ 0 s.beginRelease).trans hloop
    split
    · rfl
    · next heq => exact absurd (hrun.symm.trans heq) nofun
    · next heq => exact absurd (hrun.symm.trans heq) nofun

/-- The release loops of the three drivers, whatever the user has written: each has a slot of
the ring as its target and arrives there exactly where the user's words do not overshoot. Where
they do, it goes around for ever unless a bad buffer stops it, and the call with it. -/
theorem release_ends_iff (m : DpaModule) (hN : 0 < N) (hb : N < 2 ^ 32) (hw : RingWords ring) :
    (∀ s : RxQueue, s.ring = ring → s.kring.nkrNumSlots = N → s.kring.nrHwcur < N →
      (ReleaseEnds N ring (fun u n ↦ (s.releaseLoop m u n).isSome) ↔ ¬Overshoots N ring) ∧
      (Overshoots N ring → (∀ x < N, (bufVpa m.bufs (ring.slot x)).1 ≠ m.bufs.base) →
        (∀ n, s.releaseLoop m (releaseTarget s.numSlots ring) n = none) ∧
        s.releaseAndReport m ring.cur ring.reserved = none)) ∧
    (∀ s : Bnx2Queue β, s.ring = ring → s.kring.nkrNumSlots = N → s.rxMaxRingIdx = N - 1 →
      s.kring.nrHwcur < N →
      (ReleaseEnds N ring (fun u n ↦ (s.releaseLoop m u n).isSome) ↔ ¬Overshoots N ring) ∧
      (Overshoots N ring → (∀ x < N, (bufVpa m.bufs (ring.slot x)).1 ≠ m.bufs.base) →
        (∀ n, s.releaseLoop m (releaseTarget s.numSlots ring) n = none) ∧
        s.releaseAndReport m ring.cur ring.reserved = none)) := by
  have hfar (ho : Overshoots N ring) : N ≤ releaseTarget (N - 1) ring :=
    not_lt.1 ((not_congr (releaseTarget_lt_iff hN hb hw ho.1)).2 (not_not.2 ho))
  refine ⟨?_, ?_⟩
  · rintro s rfl hslots hcur
    have hnum : s.numSlots = N - 1 := numSlots_eq hN hb hslots
    have hwalk := release_walks hb m s.ring.slot
    have hnever (ho : Overshoots N s.ring)
        (hg : ∀ x < N, (bufVpa m.bufs (s.ring.slot x)).1 ≠ m.bufs.base) (n : ℕ) :
        s.releaseLoop m (releaseTarget s.numSlots s.ring) n = none := by
      rw [RxQueue.releaseLoop, hnum]
      exact release_never_of_overshoots hN hb hw hwalk hcur ho hg n
    refine ⟨?_, fun ho hg ↦ ⟨hnever ho hg, ?_⟩⟩
    · simp only [RxQueue.releaseLoop, hnum]
      exact releaseEnds_iff hN hb hw hwalk hcur
    · refine RxQueue.releaseAndReport_never ?_ (hnever ho hg _)
      have := hfar ho
      rw [hnum]
      omega
  · rintro s rfl hslots hring hcur
    have hnum : s.numSlots = N - 1 := numSlots_eq hN hb hslots
    have hwalk := s.release_walks hb hring m
    have hnever (ho : Overshoots N s.ring)
        (hg : ∀ x < N, (bufVpa m.bufs (s.ring.slot x)).1 ≠ m.bufs.base) (n : ℕ) :
        s.releaseLoop m (releaseTarget s.numSlots s.ring) n = none := by
      rw [hnum]
      exact release_never_of_overshoots hN hb hw hwalk hcur ho hg n
    refine ⟨releaseEnds_iff hN hb hw hwalk hcur, fun ho hg ↦ ⟨hnever ho hg, ?_⟩⟩
    refine Bnx2Queue.releaseAndReport_never ?_ (hnever ho hg _)
    have := hfar ho
    rw [hnum]
    omega

/-- Four slots with nothing pending, whose user claims to keep almost 2 ^ 32 of them. -/
def overshooting : RxQueue :=
  { fourSlots with ring := { fourSlots.ring with avail := 1, reserved := 0xFFFFFFFF } }

theorem overshooting_words : RingWords overshooting.ring := ⟨by decide, by decide, by decide⟩

theorem overshooting_overshoots : Overshoots 4 overshooting.ring :=
  ⟨by decide, by decide, by decide⟩

theorem overshooting_good :
    ∀ x < 4, (bufVpa eightBuffers.bufs (overshooting.ring.slot x)).1 ≠ eightBuffers.bufs.base := by
  decide

/-- The target of a call on it is slot 5 of four, its release loop goes around for ever, and the
call does not return. -/
theorem rx_sync_overshooting : overshooting.kring.nrHwcur < 4 ∧
    releaseTarget overshooting.numSlots overshooting.ring = 5 ∧
    ¬ReleaseEnds 4 overshooting.ring
      (fun u n ↦ (overshooting.releaseLoop eightBuffers u n).isSome) ∧
    (∀ n, overshooting.releaseLoop eightBuffers 5 n = none) ∧
    Intel.igb.rxSync eightBuffers true true overshooting = none := by
  have hwalk := release_walks (N := 4) (by decide) eightBuffers overshooting.ring.slot
  have hiff := releaseEnds_iff (by decide) (by decide) overshooting_words hwalk
    (r := overshooting.beginRelease) (by decide)
  have hnever := release_never_of_overshoots (by decide) (by decide) overshooting_words hwalk
    (r := overshooting.beginRelease) (by decide) overshooting_overshoots overshooting_good
  exact ⟨by decide, rfl, fun h ↦ hiff.1 h overshooting_overshoots, hnever, rfl⟩

/-- Three packets are pending; the client has passed them all and keeps the last. -/
def passed : RxQueue :=
  { fourSlots with
    kring := { fourSlots.kring with nrHwavail := 3 }
    ring := { fourSlots.ring with cur := 3, reserved := 1 } }

theorem release_ends_iff_passed : releaseTarget passed.numSlots passed.ring = 2 ∧
    ReleaseEnds 4 passed.ring (fun u n ↦ (passed.releaseLoop eightBuffers u n).isSome) ∧
    (passed.releaseLoop eightBuffers 2 5).map (fun r ↦ (r.1.k, r.1.n, r.2)) = some (2, 2, false) := by
  have hpassed : ¬Overshoots 4 passed.ring := fun h ↦ absurd h.2.1 (by decide)
  have hiff := ((release_ends_iff (β := Unit) eightBuffers (by decide) (by decide)
    ⟨by decide, by decide, by decide⟩).1 passed rfl rfl (by decide)).1
  exact ⟨by decide, hiff.2 hpassed, by decide⟩

end Dpa.Driver
