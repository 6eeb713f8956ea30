import Mathlib.Logic.Relation
import Dpa.Driver.Intel
import Dpa.Library.Machine

namespace Dpa.Driver

open Kernel MachineWord Function Relation

/-- Where a loop of `rx_sync` is in the ring of the NIC and in the kernel's, and how many rounds it has
made. -/
structure Cursors where
  n : ℕ
  k : ℕ
  i : ℕ
  deriving DecidableEq

def Cursors.next (numSlots : ℕ) (c : Cursors) : Cursors :=
  ⟨ringSucc numSlots c.n, ringSucc numSlots c.k, u32 (c.i + 1)⟩

/-- Where a call of `rx_sync` is. It looks at the user's words once on entry, as `u` and `resvd`, and
from then on at `avail` and at the slots as they are when it comes to them. -/
inductive SyncPc
  | returned (code : ℕ)
  | harvest (u resvd : ℕ) (c : Cursors) (bytes : ℕ)
  | counts (u resvd : ℕ) (c : Cursors) (bytes : ℕ)
  | clean (u resvd : ℕ)
  | release (u resvd : ℕ) (c : Cursors)
  | report (resvd : ℕ)
  | reinit (force : Bool) (i : ℕ) (errors : Bool)
  deriving DecidableEq

/-- What the kernel touches: a slot of the user's ring, a descriptor, a descriptor that it gives an
address for the NIC to write to, and the tail register. -/
inductive Access
  | slot (k : ℕ)
  | desc (n : ℕ)
  | arm (n paddr : ℕ)
  | tail (n : ℕ)

namespace RxQueue

def withSlots (q : RxQueue) (slot : ℕ → DpaSlot) : RxQueue :=
  { q with ring := { q.ring with slot := slot } }

def withDesc (q : RxQueue) (desc : ℕ → AdvRxDesc) (given : List ℕ) : RxQueue :=
  { q with nic := { q.nic with desc := desc, given := given } }

def told (q : RxQueue) (checked resvd : ℕ) : RxQueue :=
  { q with ring := { q.ring with reserved := if checked = resvd then q.ring.reserved else 0 } }

def turn (q : RxQueue) (u checked : ℕ) : SyncPc :=
  let last := q.releaseEnd u checked
  if q.kring.nrHwcur = last then .report checked
  else .release last checked ⟨q.beginRelease.n, q.beginRelease.k, 0⟩

def resynced (q : RxQueue) : RxQueue :=
  { q with ring := { q.ring with
      cur := q.kring.nrHwcur
      avail := u32 q.kring.nrHwavail
      hwOfs := q.kring.nkrHwofs } }

end RxQueue

structure SyncState where
  queue : RxQueue
  pc : SyncPc

namespace SyncState

def step (bits : RxBits) (m : DpaModule) (s : SyncState) : List Access × SyncState :=
  let q := s.queue
  match s.pc with
  | .returned _ => ([], s)
  | .harvest u resvd c bytes =>
    let d := q.nic.desc c.n
    if d.done bits then
      ([.desc c.n, .slot c.k],
        ⟨q.withSlots (update q.ring.slot c.k (d.harvestInto bits m.typeUpdate (q.ring.slot c.k))),
          .counts u resvd c bytes⟩)
    else ([.desc c.n], ⟨q.endHarvest ⟨q.ring.slot, c.n, c.k, c.i, bytes⟩, .clean u resvd⟩)
  | .counts u resvd c bytes =>
    -- the length is read back from the ring
    ([.slot c.k],
      ⟨q, .harvest u resvd (c.next q.numSlots) (u32 (bytes + (q.ring.slot c.k).len))⟩)
  | .clean u resvd =>
    let checked := q.checkedResvd resvd
    ([], ⟨q.told checked resvd, q.turn u checked⟩)
  | .release u resvd c =>
    if c.k = u then
      let q := q.endRelease u ⟨q.nic.desc, c.n, c.k, c.i, q.nic.given⟩
      ([.tail q.nic.tail], ⟨q, .report resvd⟩)
    else
      let vpa := bufVpa m.bufs (q.ring.slot c.k)
      if vpa.1 = m.bufs.base then ([.slot c.k], ⟨q, .reinit false 0 false⟩)
      else
        ([.slot c.k, .desc c.n, .arm c.n vpa.2],
          ⟨q.withDesc (update q.nic.desc c.n ((q.nic.desc c.n).rearm vpa.2)) (q.nic.given ++ [c.k]),
            .release u resvd (c.next q.numSlots)⟩)
  | .report resvd =>
    ([], ⟨{ q with ring := { q.ring with avail := u32 (q.kring.nrHwavail - resvd) } },
      .returned 0⟩)
  | .reinit force i errors =>
    if i < q.kring.nkrNumSlots then
      let r := reinitSlot m.bufs m.bufSize (q.ring.slot i)
      ([.slot i], ⟨q.withSlots (update q.ring.slot i r.1), .reinit force (i + 1) (errors || r.2)⟩)
    else
      ([], ⟨if errors || force then q.resynced else q, .returned (if errors then 1 else 0)⟩)

def enter (carrier : Bool) (u resvd : ℕ) (q : RxQueue) : SyncPc :=
  if !carrier then .returned 0
  else if u > q.numSlots then .reinit true 0 false
  else .harvest u resvd ⟨q.beginHarvest.n, q.beginHarvest.k, 0⟩ 0

end SyncState

variable {bits : RxBits} {m : DpaModule} {q q' : RxQueue} {s s' : SyncState} {u resvd fuel code : ℕ}

section

variable {c : Cursors} {bytes : ℕ}

theorem step_fills (hd : (q.nic.desc c.n).done bits = true) :
    SyncState.step bits m ⟨q, .harvest u resvd c bytes⟩ =
      ([.desc c.n, .slot c.k],
        ⟨q.withSlots (update q.ring.slot c.k
          ((q.nic.desc c.n).harvestInto bits m.typeUpdate (q.ring.slot c.k))),
          .counts u resvd c bytes⟩) :=
  if_pos hd

theorem step_gathers (hd : ¬(q.nic.desc c.n).done bits = true) :
    SyncState.step bits m ⟨q, .harvest u resvd c bytes⟩ =
      ([.desc c.n], ⟨q.endHarvest ⟨q.ring.slot, c.n, c.k, c.i, bytes⟩, .clean u resvd⟩) :=
  if_neg hd

theorem step_arrives (hu : c.k = u) :
    SyncState.step bits m ⟨q, .release u resvd c⟩ =
      ([.tail (q.endRelease u ⟨q.nic.desc, c.n, c.k, c.i, q.nic.given⟩).nic.tail],
        ⟨q.endRelease u ⟨q.nic.desc, c.n, c.k, c.i, q.nic.given⟩, .report resvd⟩) :=
  if_pos hu

theorem step_stops (hu : c.k ≠ u) (hbad : (bufVpa m.bufs (q.ring.slot c.k)).1 = m.bufs.base) :
    SyncState.step bits m ⟨q, .release u resvd c⟩ =
      ([.slot c.k], ⟨q, .reinit false 0 false⟩) :=
  (if_neg hu).trans (if_pos hbad)

theorem step_rearms (hu : c.k ≠ u) (hgood : (bufVpa m.bufs (q.ring.slot c.k)).1 ≠ m.bufs.base) :
    SyncState.step bits m ⟨q, .release u resvd c⟩ =
      ([.slot c.k, .desc c.n, .arm c.n (bufVpa m.bufs (q.ring.slot c.k)).2],
        ⟨q.withDesc (update q.nic.desc c.n
          ((q.nic.desc c.n).rearm (bufVpa m.bufs (q.ring.slot c.k)).2)) (q.nic.given ++ [c.k]),
          .release u resvd (c.next q.numSlots)⟩) :=
  (if_neg hu).trans (if_neg hgood)

end

theorem step_looks {force errors : Bool} {i : ℕ} (hi : i < q.kring.nkrNumSlots) :
    SyncState.step bits m ⟨q, .reinit force i errors⟩ =
      ([.slot i], ⟨q.withSlots (update q.ring.slot i
        (reinitSlot m.bufs m.bufSize (q.ring.slot i)).1),
        .reinit force (i + 1) (errors || (reinitSlot m.bufs m.bufSize (q.ring.slot i)).2)⟩) :=
  if_pos hi

theorem step_looked {force errors : Bool} {i : ℕ} (hi : ¬i < q.kring.nkrNumSlots) :
    SyncState.step bits m ⟨q, .reinit force i errors⟩ =
      ([], ⟨if errors || force then q.resynced else q, .returned (if errors then 1 else 0)⟩) :=
  if_neg hi

def Undisturbed (bits : RxBits) (m : DpaModule) : SyncState → SyncState → Prop :=
  ReflTransGen fun s s' ↦ (s.step bits m).2 = s'

theorem Undisturbed.trans {s₁ : SyncState} (h₁ : Undisturbed bits m s s₁)
    (h₂ : Undisturbed bits m s₁ s') : Undisturbed bits m s s' :=
  ReflTransGen.trans h₁ h₂

theorem Undisturbed.one (h : (s.step bits m).2 = s') : Undisturbed bits m s s' :=
  ReflTransGen.single h

section

variable (q) (u resvd)

def harvesting (h : Harvest) : SyncState :=
  ⟨q.withSlots h.slot, .harvest u resvd ⟨h.n, h.k, h.i⟩ h.bytes⟩

def releasing (r : Release) : SyncState :=
  ⟨q.withDesc r.desc r.given, .release u resvd ⟨r.n, r.k, r.i⟩⟩

end

theorem harvesting_round {h : Harvest} (hd : (q.nic.desc h.n).done bits = true) :
    Undisturbed bits m (harvesting q u resvd h)
      (harvesting q u resvd
        { slot := update h.slot h.k ((q.nic.desc h.n).harvestInto bits m.typeUpdate (h.slot h.k))
          n := ringSucc q.numSlots h.n
          k := ringSucc q.numSlots h.k
          i := u32 (h.i + 1)
          bytes := u32 (h.bytes + (q.nic.desc h.n).length) }) := by
  let filled := update h.slot h.k
    ((q.nic.desc h.n).harvestInto bits m.typeUpdate (h.slot h.k))
  have hfill : Undisturbed bits m (harvesting q u resvd h)
      ⟨q.withSlots filled, .counts u resvd ⟨h.n, h.k, h.i⟩ h.bytes⟩ :=
    .one (congrArg Prod.snd (step_fills hd))
  refine hfill.trans (.one ?_)
  simp only [SyncState.step, harvesting, RxQueue.withSlots, filled, update_self]
  rfl

theorem harvesting_runs {h h' : Harvest}
    (hrun : harvest bits m q.nic.desc q.numSlots fuel h = some h') (u resvd : ℕ) :
    Undisturbed bits m (harvesting q u resvd h) (harvesting q u resvd h') ∧
      (q.nic.desc h'.n).done bits = false := by
  induction fuel generalizing h with
  | zero => cases hrun
  | succ fuel ih =>
    rw [harvest] at hrun
    split_ifs at hrun with hd
    · obtain ⟨hrest, hclear⟩ := ih hrun
      exact ⟨(harvesting_round hd).trans hrest, hclear⟩
    · obtain rfl : h = h' := Option.some.inj hrun
      exact ⟨.refl, Bool.eq_false_iff.2 hd⟩

theorem releasing_round {r : Release} (hu : r.k ≠ u)
    (hgood : (bufVpa m.bufs (q.ring.slot r.k)).1 ≠ m.bufs.base) :
    Undisturbed bits m (releasing q u resvd r)
      (releasing q u resvd
        { desc := update r.desc r.n ((r.desc r.n).rearm (bufVpa m.bufs (q.ring.slot r.k)).2)
          n := ringSucc q.numSlots r.n
          k := ringSucc q.numSlots r.k
          i := u32 (r.i + 1)
          given := r.given ++ [r.k] }) := by
  refine .one ?_
  exact congrArg Prod.snd (step_rearms hu hgood)

/-- Where the loop ends: at slot `u`, or at one with a bad buffer. -/
theorem releasing_runs {r r' : Release} {stopped : Bool}
    (hrun : release m q.ring.slot q.numSlots u fuel r = some (r', stopped)) :
    (∀ resvd, Undisturbed bits m (releasing q u resvd r) (releasing q u resvd r')) ∧
      (stopped = false → r'.k = u) ∧
      (stopped = true → r'.k ≠ u ∧ (bufVpa m.bufs (q.ring.slot r'.k)).1 = m.bufs.base) := by
  induction fuel generalizing r with
  | zero => cases hrun
  | succ fuel ih =>
    rw [release] at hrun
    split_ifs at hrun with hu hbad
    · cases hrun
      exact ⟨fun _ ↦ .refl, fun _ ↦ hu, fun h ↦ absurd h Bool.false_ne_true⟩
    · cases hrun
      exact ⟨fun _ ↦ .refl, fun h ↦ absurd h.symm Bool.false_ne_true, fun _ ↦ ⟨hu, hbad⟩⟩
    · obtain ⟨hrest, hend⟩ := ih hrun
      exact ⟨fun resvd ↦ (releasing_round hu hbad).trans (hrest resvd), hend⟩

section

variable (m) (q)

/-- The ring after `dpa_ring_reinit` has looked at the first `i` slots, and whether it has counted an
error. -/
def lookedAt (i : ℕ) : RxQueue :=
  q.withSlots fun x ↦
    if x < i then (reinitSlot m.bufs m.bufSize (q.ring.slot x)).1 else q.ring.slot x

def errorsIn (i : ℕ) : Bool :=
  (List.range i).any fun x ↦ (reinitSlot m.bufs m.bufSize (q.ring.slot x)).2

end

theorem lookedAt_zero : lookedAt m q 0 = q := by
  simp only [lookedAt, Nat.not_lt_zero, if_false]
  rfl

theorem lookedAt_succ (i : ℕ) :
    lookedAt m q (i + 1) = (lookedAt m q i).withSlots (update (lookedAt m q i).ring.slot i
      (reinitSlot m.bufs m.bufSize ((lookedAt m q i).ring.slot i)).1) := by
  simp only [lookedAt, RxQueue.withSlots]
  congr 2
  funext x
  by_cases hx : x = i
  · simp [hx]
  · rw [update_of_ne hx]
    have hiff : x < i + 1 ↔ x < i := by omega
    simp only [hiff]

theorem errorsIn_succ (i : ℕ) :
    errorsIn m q (i + 1) =
      (errorsIn m q i || (reinitSlot m.bufs m.bufSize ((lookedAt m q i).ring.slot i)).2) := by
  simp [errorsIn, lookedAt, RxQueue.withSlots, List.range_succ]

theorem reinit_rounds {force : Bool} {i : ℕ} (hi : i ≤ q.kring.nkrNumSlots) :
    Undisturbed bits m ⟨q, .reinit force 0 false⟩
      ⟨lookedAt m q i, .reinit force i (errorsIn m q i)⟩ := by
  induction i with
  | zero =>
    rw [lookedAt_zero]
    exact .refl
  | succ i ih =>
    refine (ih (Nat.le_of_succ_le hi)).trans (.one ?_)
    rw [lookedAt_succ, errorsIn_succ]
    have hlt : i < (lookedAt m q i).kring.nkrNumSlots := hi
    exact congrArg Prod.snd (step_looks hlt)

theorem reinit_eq (force : Bool) :
    q.reinit m force = (if errorsIn m q q.kring.nkrNumSlots then 1 else 0,
      if errorsIn m q q.kring.nkrNumSlots || force then (lookedAt m q q.kring.nkrNumSlots).resynced
      else lookedAt m q q.kring.nkrNumSlots) := by
  have hring : q.reinit m force = (if errorsIn m q q.kring.nkrNumSlots then 1 else 0,
      { q with ring :=
          if errorsIn m q q.kring.nkrNumSlots || force then
            (lookedAt m q q.kring.nkrNumSlots).resynced.ring
          else (lookedAt m q q.kring.nkrNumSlots).ring }) := rfl
  rw [hring]
  by_cases hsync : (errorsIn m q q.kring.nkrNumSlots || force) = true
  · rw [if_pos hsync, if_pos hsync]
    rfl
  · rw [if_neg hsync, if_neg hsync]
    rfl

theorem reinit_runs (force : Bool) :
    Undisturbed bits m ⟨q, .reinit force 0 false⟩
      ⟨(q.reinit m force).2, .returned (q.reinit m force).1⟩ := by
  refine (reinit_rounds le_rfl).trans (.one ?_)
  rw [reinit_eq]
  have hlast : ¬q.kring.nkrNumSlots < (lookedAt m q q.kring.nkrNumSlots).kring.nkrNumSlots :=
    lt_irrefl _
  exact congrArg Prod.snd (step_looked hlast)

theorem report_runs (resvd : ℕ) :
    Undisturbed bits m ⟨q, .report resvd⟩
      ⟨{ q with ring := { q.ring with avail := u32 (q.kring.nrHwavail - resvd) } }, .returned 0⟩ :=
  .one rfl

theorem told_eq (checked resvd : ℕ) :
    q.told checked resvd =
      if checked = resvd then q else { q with ring := { q.ring with reserved := 0 } } := by
  rw [RxQueue.told]
  split_ifs
  · rfl
  · rfl

theorem clean_runs (hrun : q.releaseAndReport m u resvd = some (code, q')) :
    Undisturbed bits m ⟨q, .clean u resvd⟩ ⟨q', .returned code⟩ := by
  rw [RxQueue.releaseAndReport] at hrun
  dsimp only at hrun
  rw [← told_eq] at hrun
  have hclean : Undisturbed bits m ⟨q, .clean u resvd⟩
      ⟨q.told (q.checkedResvd resvd) resvd, q.turn u (q.checkedResvd resvd)⟩ := .one rfl
  refine hclean.trans ?_
  rw [RxQueue.turn]
  generalize q.checkedResvd resvd = checked at hrun
  have hcur : q.kring.nrHwcur = (q.told checked resvd).kring.nrHwcur := rfl
  rw [hcur]
  have hbegin : q.beginRelease = (q.told checked resvd).beginRelease := rfl
  rw [hbegin]
  generalize q.told checked resvd = told at hrun
  by_cases hnone : told.kring.nrHwcur = q.releaseEnd u checked
  · rw [if_pos hnone]
    rw [if_pos hnone, Option.some.injEq] at hrun
    cases hrun
    exact report_runs checked
  · rw [if_neg hnone]
    rw [if_neg hnone] at hrun
    cases hloop : release m told.ring.slot told.numSlots (q.releaseEnd u checked)
      told.kring.nkrNumSlots told.beginRelease with
    | none =>
      rw [hloop] at hrun
      cases hrun
    | some r =>
      obtain ⟨r, stopped⟩ := r
      rw [hloop] at hrun
      obtain ⟨hrounds, harrived, hstopped⟩ := releasing_runs hloop
      refine Undisturbed.trans (hrounds checked) ?_
      cases stopped with
      | false =>
        cases hrun
        have hend : Undisturbed bits m (releasing told (q.releaseEnd u checked) checked r)
            ⟨told.endRelease (q.releaseEnd u checked) r, .report checked⟩ :=
          .one (congrArg Prod.snd (step_arrives (harrived rfl)))
        exact hend.trans (report_runs checked)
      | true =>
        cases hrun
        obtain ⟨hu, hbad⟩ := hstopped rfl
        have hend : Undisturbed bits m (releasing told (q.releaseEnd u checked) checked r)
            ⟨told.withDesc r.desc r.given, .reinit false 0 false⟩ :=
          .one (congrArg Prod.snd (step_stops hu hbad))
        exact hend.trans (reinit_runs false)

/-- A call that nothing disturbs does what `rx_sync` does as a whole. -/
theorem rxSyncBody_runs {carrier doLock : Bool}
    (hrun : q.rxSyncBody bits m carrier doLock u resvd = some (code, q')) :
    Undisturbed bits m ⟨q, SyncState.enter carrier u resvd q⟩ ⟨q', .returned code⟩ := by
  rw [RxQueue.rxSyncBody] at hrun
  cases carrier with
  | false =>
    cases hrun
    exact .refl
  | true =>
    simp only [SyncState.enter, Bool.not_true, Bool.false_eq_true, if_false] at hrun ⊢
    by_cases hu : u > q.numSlots
    · rw [if_pos hu]
      rw [if_pos hu, Option.some.injEq] at hrun
      have hreinit : Undisturbed bits m ⟨q, .reinit true 0 false⟩
          ⟨(q.reinit m true).2, .returned (q.reinit m true).1⟩ := reinit_runs true
      rwa [hrun] at hreinit
    · rw [if_neg hu]
      rw [if_neg hu, if_pos (.inl rfl), RxQueue.afterHarvest] at hrun
      cases hloop : harvest bits m q.nic.desc q.numSlots q.kring.nkrNumSlots q.beginHarvest with
      | none =>
        rw [hloop] at hrun
        cases hrun
      | some h =>
        rw [hloop] at hrun
        obtain ⟨hrounds, hclear⟩ := harvesting_runs hloop u resvd
        have hend : Undisturbed bits m (harvesting q u resvd h) ⟨q.endHarvest h, .clean u resvd⟩ :=
          .one (congrArg Prod.snd (step_gathers (ne_true_of_eq_false hclear)))
        exact (Undisturbed.trans hrounds hend).trans (clean_runs hrun)

end Dpa.Driver
