import Dpa.Kernel.Poll
import Dpa.Library.LockOrder

namespace Dpa.Kernel

open Function Library

variable {dadp : PollAdapter} {l : Set SpinLock} {i : ℕ}

def enxio : ℕ := 6

/-- What `rx_sync` with `do_lock` meets: no carrier, a `cur` that is out of range, or else maybe a
slot with a bad buffer. `shifted` is whether bnx2 finds that the user has changed `hw_ofs`, and
`avail` is what `dpa_ring_reinit` sets it to, where it does. -/
inductive SyncCase
  | noCarrier
  | badCur (avail : ℕ)
  | badBuffer (shifted : Bool) (avail : Option ℕ)
  | done (shifted : Bool)

/-- What a `DIOCRXSYNC` writes to a ring outside of its `q_lock`. -/
inductive BareWrite
  | hwOfs
  | reinit (avail : Option ℕ)
  | ts

/-- What the calls on the rings do to shared state. The body of an `rx_sync` that comes to a slot
with a bad buffer is `cutShort`: it leaves `avail` alone. -/
inductive RingAccess
  | poll (a : PollAccess)
  | cutShort (i : ℕ)
  | bare (i : ℕ) (w : BareWrite)

abbrev RingAccess.Answer : RingAccess → Type
  | poll a => a.Answer
  | _ => Unit

abbrev RingProgram := Program RingAccess RingAccess.Answer

/-- `rx_sync` with `do_lock`: `dpa_ring_reinit` is called before the lock is taken, or after it has
been given back. -/
def rxSyncLocked (i : ℕ) : SyncCase → RingProgram Unit
  | .noCarrier => pure ()
  | .badCur avail => .perform (RingAccess.bare i (.reinit (some avail)))
  | .badBuffer shifted avail => do
    Program.onlyIf shifted (.perform (RingAccess.bare i .hwOfs))
    .perform (RingAccess.poll (.lock (.queue i)))
    .perform (RingAccess.cutShort i)
    .perform (RingAccess.poll (.unlock (.queue i)))
    .perform (RingAccess.bare i (.reinit avail))
  | .done shifted => do
    Program.onlyIf shifted (.perform (RingAccess.bare i .hwOfs))
    .perform (RingAccess.poll (.lock (.queue i)))
    let _ ← .perform (RingAccess.poll (.rxSync i))
    .perform (RingAccess.poll (.unlock (.queue i)))

def ioctlRxSync (dadp : PollAdapter) (meets : ℕ → SyncCase) : Option DpaPriv → RingProgram ℕ
  | none => pure enxio
  | some priv => do
    Program.forEach (fun i ↦ do
        rxSyncLocked i (meets i)
        .perform (RingAccess.bare i .ts))
      (List.range' priv.rfirst (pollMaxRx dadp priv - priv.rfirst))
    pure 0

/-- `meets` is what a `DIOCRXSYNC` meets on every ring. -/
inductive RingCall
  | poll (k : PollCall)
  | rxSync (priv : Option DpaPriv) (meets : ℕ → SyncCase)

def ringExec (t : ℕ) : (a : RingAccess) → PollState → Option (a.Answer × PollState)
  | .poll a, s => pollExec t a s
  | .cutShort i, s => some ((), s.setRing i { s.rings i with pendIntr := false })
  | .bare i (.reinit (some avail)), s => some ((), s.setRing i { s.rings i with avail := avail })
  | .bare _ _, s => some ((), s)

/-- All that enters the rings of an adapter once it is registered: `dpa_poll`, `dpa_rx_irq` and
`DIOCRXSYNC`. -/
def ringCalls (dadp : PollAdapter) :
    Threads ℕ RingCall PollEvent PollState ℕ RingAccess RingAccess.Answer where
  enter t
    | .poll k, s => ((polling dadp).enter t k s).map fun r ↦ (r.1.embed .poll, r.2)
    | .rxSync priv meets, s =>
      if s.asleep t = none then some (ioctlRxSync dadp meets priv, s) else none
  exec := ringExec
  leave t
    | .poll k, x, s => (polling dadp).leave t k x s
    | .rxSync _ _, _, s => some s
  outside := (polling dadp).outside

/-- `queued` is whether every `rx_sync` is to happen under the `q_lock` of its ring. -/
def PollAccess.use (queued : Bool) : PollAccess → LockUse SpinLock
  | lock x => .acquire x
  | unlock x => .release x
  | rxSync i => .under (if queued then some (.queue i) else none)
  | _ => .under none

def RingAccess.use (queued : Bool) : RingAccess → LockUse SpinLock
  | poll a => a.use queued
  | cutShort i => .under (if queued then some (.queue i) else none)
  | bare _ _ => .under none

def SpinLock.rank : SpinLock → ℕ
  | core => 0
  | queue _ => 1

/-- Orderly as the kernel's programs are to be. -/
abbrev LockSafe {α : Type} (queued : Bool) (Q : α → Set SpinLock → Prop) (p : PollProgram α)
    (l : Set SpinLock) : Prop :=
  p.Orderly (PollAccess.use queued) SpinLock.rank Q l

variable {queued : Bool}

theorem lockSafe_lock {x : SpinLock} (hx : ∀ y ∈ l, y.rank < x.rank) :
    LockSafe queued (fun _ l' ↦ l' = insert x l) (.perform (PollAccess.lock x)) l :=
  ⟨hx, fun _ ↦ rfl⟩

theorem lockSafe_unlock {x : SpinLock} (hx : x ∈ l) :
    LockSafe queued (fun _ l' ↦ l' = l \ {x}) (.perform (PollAccess.unlock x)) l :=
  ⟨hx, fun _ ↦ rfl⟩

theorem lockSafe_other {a : PollAccess} (ha : a.use queued = .under none) :
    LockSafe queued (fun _ l' ↦ l' = l) (.perform a) l := by
  refine ⟨?_, fun r ↦ ?_⟩
  · rw [ha]
    exact fun y hy ↦ by cases hy
  · rw [ha]
    rfl

theorem lockSafe_rxSync (hq : queued = true → .queue i ∈ l) :
    LockSafe queued (fun _ l' ↦ l' = l) (.perform (PollAccess.rxSync i)) l := by
  refine ⟨?_, fun r ↦ rfl⟩
  intro y hy
  cases queued with
  | false => cases hy
  | true =>
    cases hy
    exact hq rfl

/-- What is done between the lock and the unlock of the only lock held. -/
theorem lockSafe_section {α : Type} {x : SpinLock} {p : PollProgram Unit} {f : Unit → PollProgram α}
    {Q : α → Set SpinLock → Prop}
    (hp : LockSafe queued (fun _ l ↦ l = insert x ∅) p (insert x ∅))
    (hf : LockSafe queued Q (f ()) ∅) :
    LockSafe queued Q
      (.perform (PollAccess.lock x) >>= fun _ ↦ p >>= fun _ ↦
        .perform (PollAccess.unlock x) >>= f) ∅ :=
  .section rfl rfl hp fun _ ↦ hf

/-- A call on the rings that leaves no lock behind. -/
abbrev RingSafe {α : Type} (queued : Bool) (p : RingProgram α) : Prop :=
  p.Orderly (RingAccess.use queued) SpinLock.rank (fun _ l ↦ l = ∅) ∅

theorem ringSafe_section {a : RingAccess} {f : Unit → RingProgram Unit}
    (ha : a.use queued = .under (if queued then some (.queue i) else none))
    (hf : RingSafe queued (f ())) :
    RingSafe queued
      (.perform (RingAccess.poll (.lock (.queue i))) >>= fun _ ↦ .perform a >>= fun _ ↦
        .perform (RingAccess.poll (.unlock (.queue i))) >>= f) := by
  have hbody : (Program.perform a : RingProgram (a.Answer)).Orderly (RingAccess.use queued)
      SpinLock.rank (fun _ l ↦ l = insert (.queue i) ∅) (insert (.queue i) ∅) := by
    refine ⟨?_, fun _ ↦ ?_⟩
    · rw [ha]
      cases queued with
      | false => exact fun y hy ↦ by cases hy
      | true =>
        intro y hy
        cases hy
        exact Set.mem_insert _ _
    · rw [ha]
      rfl
  exact .section rfl rfl hbody fun _ ↦ hf

theorem ringSafe_bare (w : BareWrite) :
    RingSafe queued (.perform (RingAccess.bare i w)) := by
  refine ⟨fun y hy ↦ ?_, fun _ ↦ rfl⟩
  cases hy

theorem ringSafe_rxSyncLocked (i : ℕ) (m : SyncCase) :
    RingSafe queued (rxSyncLocked i m) := by
  have hofs (shifted : Bool) :
      RingSafe queued (Program.onlyIf shifted (.perform (RingAccess.bare i .hwOfs))) :=
    .onlyIf (fun _ ↦ ringSafe_bare .hwOfs) fun _ ↦ rfl
  cases m with
  | noCarrier => rfl
  | badCur avail => exact ringSafe_bare _
  | badBuffer shifted avail =>
    refine (hofs shifted).bind ?_
    rintro - l rfl
    exact ringSafe_section rfl (ringSafe_bare _)
  | done shifted =>
    refine (hofs shifted).bind ?_
    rintro - l rfl
    exact ringSafe_section (f := Program.ret) rfl rfl

theorem ringSafe_ioctlRxSync (meets : ℕ → SyncCase) (priv : Option DpaPriv) :
    RingSafe queued (ioctlRxSync dadp meets priv) := by
  cases priv with
  | none => rfl
  | some priv =>
    refine Program.Orderly.bind (.forEach fun i _ ↦ ?_) ?_
    · refine (ringSafe_rxSyncLocked i (meets i)).bind ?_
      rintro - l rfl
      exact ringSafe_bare .ts
    · rintro - l rfl
      rfl

theorem lockSafe_dpaRxIrq (i : ℕ) :
    LockSafe queued (fun _ l ↦ l = ∅) (dpaRxIrq dadp i) ∅ := by
  unfold dpaRxIrq
  split_ifs with henabled hexcl
  · rfl
  · refine (lockSafe_other rfl).bind ?_
    rintro - l rfl
    refine lockSafe_section (lockSafe_other rfl) ?_
    refine Program.Orderly.bind (P := fun _ l ↦ l = ∅) (.onlyIf (fun _ ↦ ?_) fun _ ↦ rfl) ?_
    · exact lockSafe_section (f := Program.ret) (lockSafe_other rfl) rfl
    · rintro - l rfl
      rfl
  · refine (lockSafe_other rfl).bind ?_
    rintro - l rfl
    refine lockSafe_section (p := do
      .perform (PollAccess.wakeUp (.ring i))
      Program.onlyIf (decide (dadp.numRxRings > 0)) (.perform (PollAccess.wakeUp .rx))) ?_ rfl
    refine (lockSafe_other rfl).bind ?_
    rintro - l rfl
    exact .onlyIf (fun _ ↦ lockSafe_other rfl) fun _ ↦ rfl

theorem lockSafe_availLoop (n i doRx revents : ℕ) :
    LockSafe queued (fun _ l ↦ l = ∅) (availLoop n i doRx revents) ∅ := by
  induction n generalizing i doRx revents with
  | zero => rfl
  | succ n ih =>
    unfold availLoop
    split_ifs
    · rfl
    · refine (lockSafe_other rfl).bind ?_
      rintro avail l rfl
      split_ifs
      · exact ih _ _ _
      · exact ih _ _ _

def CoreLock.Held (l : Set SpinLock) (coreLock : CoreLock) : Prop :=
  l = if coreLock = .lockedCl then {.core} else ∅

namespace CoreLock

variable {c : CoreLock}

def taken (c : CoreLock) : CoreLock := if c = .needCl then .lockedCl else c

theorem Held.core_only (h : c.Held l) : ∀ y ∈ l, y = .core := by
  intro y hy
  rw [h] at hy
  split_ifs at hy
  · exact hy
  · exact hy.elim

theorem Held.queue_notMem (h : c.Held l) (i : ℕ) : .queue i ∉ l :=
  fun hi ↦ by cases h.core_only _ hi

theorem Held.below_queue (h : c.Held l) (i : ℕ) : ∀ y ∈ l, y.rank < (SpinLock.queue i).rank := by
  intro y hy
  rw [h.core_only y hy]
  exact Nat.zero_lt_one

theorem Held.take (h : c.Held l) :
    LockSafe queued (fun _ l' ↦ c.taken.Held l')
      (Program.onlyIf (decide (c = .needCl)) (.perform (PollAccess.lock .core))) l := by
  refine .onlyIf (fun hc ↦ ?_) fun hc ↦ ?_
  · obtain rfl := of_decide_eq_true hc
    obtain rfl : l = ∅ := h
    refine (lockSafe_lock fun y hy ↦ hy.elim).mono fun _ l' hl' ↦ ?_
    exact hl'.trans (insert_empty_eq _)
  · have hne : c ≠ .needCl := of_decide_eq_false hc
    rw [taken, if_neg hne]
    exact h

end CoreLock

/-- What a round does to a ring, between the lock of its queue and the unlock. -/
theorem lockSafe_round {α : Type} {p : PollProgram α} {f : α → PollProgram (CoreLock × ℕ)}
    {Q : CoreLock × ℕ → Set SpinLock → Prop} (hi : .queue i ∉ l)
    (hrank : ∀ y ∈ l, y.rank < (SpinLock.queue i).rank) (excl : Bool)
    (hp : ∀ l', (excl = true → .queue i ∈ l') → LockSafe queued (fun _ l'' ↦ l'' = l') p l')
    (hf : ∀ x, LockSafe queued Q (f x) l) :
    LockSafe queued Q
      (Program.onlyIf excl (.perform (PollAccess.lock (.queue i))) >>= fun _ ↦ p >>= fun x ↦
        Program.onlyIf excl (.perform (PollAccess.unlock (.queue i))) >>= fun _ ↦ f x) l := by
  cases excl with
  | false =>
    refine (hp l fun h ↦ by cases h).bind ?_
    rintro x l' rfl
    exact hf x
  | true =>
    refine (lockSafe_lock hrank).bind ?_
    rintro - l' rfl
    refine (hp _ fun _ ↦ Set.mem_insert _ _).bind ?_
    rintro x l' rfl
    refine (lockSafe_unlock (Set.mem_insert _ _)).bind ?_
    rintro - l' rfl
    rw [Set.insert_sdiff_self_of_notMem hi]
    exact hf x

theorem lockSafe_sync (hq : queued = true → .queue i ∈ l) (all : Bool) :
    LockSafe queued (fun _ l' ↦ l' = l) (do
      let error ← .perform (PollAccess.rxSync i)
      let avail ← .perform (PollAccess.loadAvail i)
      Program.onlyIf (decide (avail = 0) && !all) (.perform (PollAccess.pollWait (.ring i)))
      pure (error, avail)) l := by
  refine (lockSafe_rxSync hq).bind ?_
  rintro error _ rfl
  refine (lockSafe_other rfl).bind ?_
  rintro avail l rfl
  refine Program.Orderly.bind (P := fun _ l' ↦ l' = l)
    (.onlyIf (fun _ ↦ lockSafe_other rfl) fun _ ↦ rfl) ?_
  rintro - _ rfl
  rfl

theorem lockSafe_syncLoop (hq : queued = true → dadp.exclLocks = true) (all : Bool) (doRx n i : ℕ)
    (coreLock : CoreLock) (revents : ℕ) (hl : coreLock.Held l) :
    LockSafe queued (fun r l ↦ r.1.Held l) (syncLoop dadp all doRx n i coreLock revents) l := by
  induction n generalizing i coreLock revents l with
  | zero => exact hl
  | succ n ih =>
    refine hl.take.bind fun _ l' hl' ↦ ?_
    have hround := lockSafe_round (Q := fun r l ↦ r.1.Held l)
      (f := fun r : Bool × ℕ ↦
        let revents := if r.1 then revents ||| pollErr else revents
        let revents := if r.2 > 0 then revents ||| doRx else revents
        syncLoop dadp all doRx n (i + 1) coreLock.taken revents)
      (hl'.queue_notMem i) (hl'.below_queue i) dadp.exclLocks
      (fun _ hheld ↦ lockSafe_sync (fun h ↦ hheld (hq h)) all) fun _ ↦ ih _ _ _ hl'
    simp only [bind_assoc, pure_bind] at hround
    exact hround

theorem lockSafe_dpaPoll (hq : queued = true → dadp.enabled = true → dadp.exclLocks = true)
    (priv : Option DpaPriv) (pwait : Option ℕ) :
    LockSafe queued (fun _ l ↦ l = ∅) (dpaPoll dadp priv pwait) ∅ := by
  cases priv with
  | none => rfl
  | some priv =>
    unfold dpaPoll
    dsimp only
    cases henabled : dadp.enabled with
    | false => rfl
    | true =>
      refine (lockSafe_availLoop _ _ _ _).bind ?_
      rintro ⟨doRx, revents⟩ _ rfl
      refine Program.Orderly.bind (P := fun r l ↦ r.1.Held l) ?_ ?_
      · have hfree : CoreLock.Held ∅
            (if checkAll dadp priv || !dadp.exclLocks then .needCl else .noCl) := by
          split_ifs <;> rfl
        dsimp only
        by_cases hdo : doRx = 0
        · rw [if_pos hdo]
          exact hfree
        · rw [if_neg hdo]
          exact lockSafe_syncLoop (fun h ↦ hq h henabled) _ _ _ _ _ _ hfree
      · rintro ⟨coreLock, revents⟩ l hl
        refine Program.Orderly.bind (P := fun _ l' ↦ l' = l)
          (.onlyIf (fun _ ↦ lockSafe_other rfl) fun _ ↦ rfl) ?_
        rintro - l rfl
        refine Program.Orderly.bind (P := fun _ l' ↦ l' = ∅) (.onlyIf (fun hc ↦ ?_) fun hc ↦ ?_) ?_
        · rw [CoreLock.Held, if_pos (of_decide_eq_true hc)] at hl
          subst hl
          refine (lockSafe_unlock (Set.mem_singleton _)).mono fun _ l' hl' ↦ ?_
          exact hl'.trans Set.sdiff_self
        · rw [CoreLock.Held, if_neg (of_decide_eq_false hc)] at hl
          exact hl
        · rintro - _ rfl
          rfl

theorem short_pure {α : Type} (x : α) : (pure x : PollProgram α).Short 0 := trivial

theorem short_rxSyncLocked (i : ℕ) (m : SyncCase) : (rxSyncLocked i m).Short 5 := by
  have hofs (shifted : Bool) : (Program.onlyIf shifted (.perform (RingAccess.bare i .hwOfs)) :
      RingProgram Unit).Short 1 :=
    .onlyIf (Program.short_perform _)
  cases m with
  | noCarrier => trivial
  | badCur avail => exact fun _ ↦ trivial
  | badBuffer shifted avail => exact (hofs shifted).bind (n := 4) fun _ _ _ _ _ ↦ trivial
  | done shifted => exact (hofs shifted).bind (n := 4) fun _ _ _ _ ↦ trivial

theorem short_ioctlRxSync (meets : ℕ → SyncCase) (priv : Option DpaPriv) :
    ∃ n, (ioctlRxSync dadp meets priv).Short n := by
  cases priv with
  | none => exact ⟨0, trivial⟩
  | some priv =>
    have hring (i : ℕ) : (rxSyncLocked i (meets i) >>= fun _ ↦
        (.perform (RingAccess.bare i .ts) : RingProgram Unit)).Short (5 + 1) :=
      (short_rxSyncLocked i (meets i)).bind fun _ ↦ Program.short_perform _
    exact ⟨_, Program.Short.bind (n := 0) (.forEach hring _) fun _ ↦ trivial⟩

theorem short_dpaRxIrq (i : ℕ) : (dpaRxIrq dadp i).Short 7 := by
  unfold dpaRxIrq
  split_ifs with henabled hexcl
  · trivial
  · have hmain : (Program.onlyIf (decide (dadp.numRxRings > 0)) (do
        .perform (PollAccess.lock .core)
        .perform (PollAccess.wakeUp .rx)
        .perform (PollAccess.unlock .core)) : PollProgram Unit).Short 3 :=
      .onlyIf fun _ _ _ ↦ trivial
    intro _ _ _ _
    exact hmain.bind fun _ ↦ short_pure 1
  · have hmain : (Program.onlyIf (decide (dadp.numRxRings > 0))
        (.perform (PollAccess.wakeUp .rx)) : PollProgram Unit).Short 1 :=
      .onlyIf fun _ ↦ trivial
    intro _ _ _
    refine Program.Short.mono (hmain.bind (n := 1) fun _ _ ↦ short_pure 1) (by decide)

theorem short_availLoop (n i doRx revents : ℕ) : (availLoop n i doRx revents).Short n := by
  induction n generalizing i doRx revents with
  | zero => trivial
  | succ n ih =>
    unfold availLoop
    split_ifs
    · trivial
    · intro avail
      change (if avail > 0 then _ else _ : PollProgram (ℕ × ℕ)).Short n
      split_ifs
      · exact ih _ _ _
      · exact ih _ _ _

theorem short_syncLoop (all : Bool) (doRx n i : ℕ) (coreLock : CoreLock) (revents : ℕ) :
    (syncLoop dadp all doRx n i coreLock revents).Short (6 * n) := by
  induction n generalizing i coreLock revents with
  | zero => trivial
  | succ n ih =>
    have hif {b : Bool} {p : PollProgram Unit} (h : p.Short 1) : (Program.onlyIf b p).Short 1 :=
      .onlyIf h
    rw [show 6 * (n + 1) = 1 + (1 + (1 + (1 + (1 + (1 + 6 * n))))) by omega]
    refine .bind (hif fun _ ↦ trivial) fun _ ↦ .bind (hif fun _ ↦ trivial) fun _ ↦ ?_
    refine .bind (Program.short_perform _) fun _ ↦ .bind (Program.short_perform _) fun _ ↦ ?_
    refine .bind (hif fun _ ↦ trivial) fun _ ↦ .bind (hif fun _ ↦ trivial) fun _ ↦ ?_
    exact ih _ _ _

theorem short_dpaPoll (priv : Option DpaPriv) (pwait : Option ℕ) :
    ∃ n, (dpaPoll dadp priv pwait).Short n := by
  cases priv with
  | none => exact ⟨0, trivial⟩
  | some priv =>
    have hif {b : Bool} {p : PollProgram Unit} (h : p.Short 1) : (Program.onlyIf b p).Short 1 :=
      .onlyIf h
    unfold dpaPoll
    dsimp only
    cases henabled : dadp.enabled with
    | false => exact ⟨0, trivial⟩
    | true =>
      refine ⟨pollMaxRx dadp priv - priv.rfirst + (6 * (pollMaxRx dadp priv - priv.rfirst) +
        (1 + (1 + 0))), ?_⟩
      refine .bind (short_availLoop _ _ _ _) fun r ↦ .bind ?_ fun r' ↦ ?_
      · by_cases hdo : r.1 = 0
        · simp only [hdo, if_true]
          trivial
        · simp only [hdo, if_false]
          exact short_syncLoop _ _ _ _ _ _
      · refine .bind (hif fun _ ↦ trivial) fun _ ↦ .bind (hif fun _ ↦ trivial) fun _ ↦ ?_
        exact short_pure _

theorem pollExec_under {t : ℕ} {a : PollAccess} {x : Option SpinLock} (s : PollState)
    (ha : a.use queued = .under x) : ∃ r, pollExec t a s = some r ∧ r.2.owner = s.owner := by
  cases a with
  | lock => cases ha
  | unlock => cases ha
  | loadAvail => exact ⟨_, rfl, rfl⟩
  | rxSync => exact ⟨_, rfl, rfl⟩
  | pollWait => exact ⟨_, rfl, rfl⟩
  | wakeUp => exact ⟨_, rfl, rfl⟩
  | pendIntr => exact ⟨_, rfl, rfl⟩

theorem polling_enter {t : ℕ} {k : PollCall} {s : PollState} {r : PollProgram ℕ × PollState}
    (hq : queued = true → dadp.enabled = true → dadp.exclLocks = true)
    (h : (polling dadp).enter t k s = some r) : r.2.owner = s.owner ∧
      LockSafe queued (fun _ l ↦ l = ∅) r.1 ∅ ∧ ∃ n, r.1.Short n := by
  cases k with
  | poll priv pwait =>
    obtain ⟨-, hr⟩ := Option.ite_none_right_eq_some.1 h
    cases hr
    exact ⟨rfl, lockSafe_dpaPoll hq priv pwait, short_dpaPoll priv pwait⟩
  | giveUp =>
    cases h
    exact ⟨rfl, rfl, 0, trivial⟩
  | rxIrq i n =>
    obtain ⟨-, hr⟩ := Option.ite_none_right_eq_some.1 h
    cases hr
    exact ⟨rfl, lockSafe_dpaRxIrq i, 7, short_dpaRxIrq i⟩

theorem polling_leave (dadp : PollAdapter) (t : ℕ) (k : PollCall) (x : ℕ) (s : PollState) :
    ∃ s', (polling dadp).leave t k x s = some s' ∧ s'.owner = s.owner := by
  cases k with
  | poll priv pwait =>
    change ∃ s', (if x = 0 then _ else _ : Option PollState) = some s' ∧ _
    split_ifs <;> exact ⟨_, rfl, rfl⟩
  | giveUp => exact ⟨_, rfl, rfl⟩
  | rxIrq i n => exact ⟨_, rfl, rfl⟩

theorem polling_outside (dadp : PollAdapter) {e : PollEvent} {s s' : PollState}
    (h : (polling dadp).outside e s = some s') : s'.owner = s.owner := by
  cases e with
  | arrive i =>
    cases h
    rfl
  | consume i n =>
    obtain ⟨-, hs⟩ := Option.ite_none_right_eq_some.1 h
    cases hs
    rfl
  | spoil i bad =>
    cases h
    rfl

theorem pollExec_lock (t : ℕ) (x : SpinLock) (s : PollState) :
    pollExec t (.lock x) s =
      if s.owner x = none then some ((), { s with owner := update s.owner x (some t) }) else none := by
  cases h : s.owner x with
  | none => simp only [pollExec, h, if_true]
  | some u => simp only [pollExec, h, reduceCtorEq, if_false]

theorem ringExec_under {t : ℕ} {a : RingAccess} {x : Option SpinLock} (s : PollState)
    (ha : a.use queued = .under x) : ∃ r, ringExec t a s = some r ∧ r.2.owner = s.owner := by
  cases a with
  | poll a => exact pollExec_under s ha
  | cutShort i => exact ⟨_, rfl, rfl⟩
  | bare i w =>
    cases w with
    | reinit avail => cases avail <;> exact ⟨_, rfl, rfl⟩
    | hwOfs | ts => exact ⟨_, rfl, rfl⟩

theorem use_acquire {a : RingAccess} {x : SpinLock}
    (ha : a.use queued = .acquire x) : a = .poll (.lock x) := by
  cases a with
  | poll a =>
    cases a with
    | lock y =>
      cases ha
      rfl
    | unlock | loadAvail | rxSync | pollWait | wakeUp | pendIntr => cases ha
  | cutShort | bare => cases ha

theorem use_release {a : RingAccess} {x : SpinLock}
    (ha : a.use queued = .release x) : a = .poll (.unlock x) := by
  cases a with
  | poll a =>
    cases a with
    | unlock y =>
      cases ha
      rfl
    | lock | loadAvail | rxSync | pollWait | wakeUp | pendIntr => cases ha
  | cutShort | bare => cases ha

theorem ringCalls_spin (hq : queued = true → dadp.enabled = true → dadp.exclLocks = true) :
    (ringCalls dadp).Spin PollState.owner (RingAccess.use queued) SpinLock.rank where
  acquire := by
    intro t a x s ha hfree
    obtain rfl := use_acquire ha
    exact ⟨((), { s with owner := update s.owner x (some t) }),
      (pollExec_lock t x s).trans (if_pos hfree)⟩
  acquired := by
    intro t a x s r ha hr
    obtain rfl := use_acquire ha
    obtain ⟨hfree, hr⟩ := Option.ite_none_right_eq_some.1 ((pollExec_lock t x s).symm.trans hr)
    cases hr
    exact ⟨hfree, rfl⟩
  release := by
    intro t a x s ha
    obtain rfl := use_release ha
    exact ⟨_, rfl, rfl⟩
  under := fun t a x s ha ↦ ringExec_under s ha
  enter := by
    intro t k s r h
    cases k with
    | poll k =>
      obtain ⟨r', hr', rfl⟩ := Option.map_eq_some_iff.1 h
      obtain ⟨hown, hsafe, n, hn⟩ := polling_enter hq hr'
      exact ⟨hown, Program.Orderly.embed hsafe, n, Program.Short.embed hn⟩
    | rxSync priv meets =>
      obtain ⟨-, hr⟩ := Option.ite_none_right_eq_some.1 h
      cases hr
      exact ⟨rfl, ringSafe_ioctlRxSync meets priv, short_ioctlRxSync meets priv⟩
  leave := by
    intro t k x s
    cases k with
    | poll k => exact polling_leave dadp t k x s
    | rxSync priv meets => exact ⟨s, rfl, rfl⟩
  outside := fun _ _ _ h ↦ polling_outside dadp h

theorem ringCalls_locked :
    Threads.Locked PollState.owner (RingAccess.use queued) SpinLock.rank
      (Threads.Config.start PollState.start :
        Threads.Config ℕ RingCall PollState ℕ RingAccess RingAccess.Answer) where
  stands := fun t ↦ Set.eq_empty_of_forall_notMem fun x hx ↦ by cases hx
  finite := ⟨∅, fun t ht ↦ absurd rfl ht⟩

theorem rank_le (x : SpinLock) : x.rank ≤ 1 := by
  cases x with
  | core => exact Nat.zero_le _
  | queue i => exact le_rfl

/-- Whatever polls, interrupts and synchronisations there are, those in progress all return after so
many steps of their own, and leave no lock behind. -/
theorem ring_calls_return (dadp : PollAdapter)
    {es : List (Threads.Event ℕ RingCall PollEvent)}
    {c : Threads.Config ℕ RingCall PollState ℕ RingAccess RingAccess.Answer}
    (hrun : run (ringCalls dadp).next es (.start .start) = some c) :
    ∃ B, ∀ (ts : List ℕ) c', run (ringCalls dadp).next (ts.map .step) c = some c' →
      ts.length ≤ B ∧ ((∀ t, (ringCalls dadp).next c' (.step t) = none) →
        (∀ t, c'.tasks t = none) ∧ ∀ x, c'.shared.owner x = none) :=
  ((@ringCalls_locked false).run (ringCalls_spin fun h ↦ by cases h) hrun).ends
    (ringCalls_spin fun h ↦ by cases h) rank_le

/-- A poll of both rings that has taken both locks it needs, and an interrupt handler that waits for
one of them. -/
def pollMeetsIrq : List (Threads.Event ℕ RingCall PollEvent) :=
  [.call 0 (.poll (.poll (some ⟨0, dpaRingFlagAll⟩) none)), .step 0, .step 0, .step 0, .step 0,
    .call 1 (.poll (.rxIrq 0 0)), .step 1]

theorem ring_calls_return_irq :
    ∃ c, run (ringCalls ⟨true, true, 2⟩).next pollMeetsIrq (.start .start) = some c ∧
      (c.shared.owner .core = some 0 ∧ c.shared.owner (.queue 0) = some 0 ∧
        ((ringCalls ⟨true, true, 2⟩).next c (.step 1)).isNone) ∧
      ∃ B, ∀ (ts : List ℕ) c', run (ringCalls ⟨true, true, 2⟩).next (ts.map .step) c = some c' →
        ts.length ≤ B ∧ ((∀ t, (ringCalls ⟨true, true, 2⟩).next c' (.step t) = none) →
          (∀ t, c'.tasks t = none) ∧ ∀ x, c'.shared.owner x = none) :=
  ⟨_, rfl, ⟨rfl, rfl, rfl⟩, @ring_calls_return ⟨true, true, 2⟩ pollMeetsIrq _ rfl⟩

def About (c : Threads.Config ℕ RingCall PollState ℕ RingAccess RingAccess.Answer) (t : ℕ)
    (a : RingAccess) : Prop :=
  ∃ k next, c.tasks t = some (k, .act a next)

def Syncing (c : Threads.Config ℕ RingCall PollState ℕ RingAccess RingAccess.Answer) (i t : ℕ) :
    Prop :=
  About c t (.poll (.rxSync i)) ∨ About c t (.cutShort i)

def SyncCase.writes : SyncCase → BareWrite → Prop
  | badCur avail, w => w = .reinit (some avail) ∨ w = .ts
  | badBuffer shifted avail, w => shifted = true ∧ w = .hwOfs ∨ w = .reinit avail ∨ w = .ts
  | done shifted, w => shifted = true ∧ w = .hwOfs ∨ w = .ts
  | noCarrier, w => w = .ts

def RingCall.Does : RingCall → RingAccess → Prop
  | rxSync _ meets, .bare i w => (meets i).writes w
  | poll _, .bare _ _ => False
  | _, _ => True

theorem writes_ts (m : SyncCase) : m.writes .ts := by
  cases m with
  | noCarrier => exact rfl
  | badCur => exact .inr rfl
  | badBuffer => exact .inr (.inr rfl)
  | done => exact .inr rfl

theorem only_rxSyncLocked (priv : Option DpaPriv) (meets : ℕ → SyncCase) (i : ℕ) :
    (rxSyncLocked i (meets i)).Only (RingCall.rxSync priv meets).Does := by
  have hofs {shifted : Bool} (h : shifted = true → (meets i).writes .hwOfs) :
      (Program.onlyIf shifted (.perform (RingAccess.bare i .hwOfs)) : RingProgram Unit).Only
        (RingCall.rxSync priv meets).Does :=
    .onlyIf fun hs ↦ ⟨h hs, fun _ ↦ trivial⟩
  have hdoes (w : BareWrite) (h : (meets i).writes w) :
      (RingCall.rxSync priv meets).Does (.bare i w) := h
  cases hm : meets i with
  | noCarrier => trivial
  | badCur avail =>
    rw [hm] at hdoes
    exact ⟨hdoes _ (.inl rfl), fun _ ↦ trivial⟩
  | badBuffer shifted avail =>
    rw [hm] at hofs hdoes
    refine (hofs fun hs ↦ .inl ⟨hs, rfl⟩).bind fun _ ↦ ?_
    exact ⟨trivial, fun _ ↦ ⟨trivial, fun _ ↦ ⟨trivial, fun _ ↦
      ⟨hdoes _ (.inr (.inl rfl)), fun _ ↦ trivial⟩⟩⟩⟩
  | done shifted =>
    rw [hm] at hofs
    refine (hofs fun hs ↦ .inl ⟨hs, rfl⟩).bind fun _ ↦ ?_
    exact ⟨trivial, fun _ ↦ ⟨trivial, fun _ ↦ ⟨trivial, fun _ ↦ trivial⟩⟩⟩

theorem only_enter {t : ℕ} {k : RingCall} {s : PollState} {r : RingProgram ℕ × PollState}
    (h : (ringCalls dadp).enter t k s = some r) : r.1.Only k.Does := by
  cases k with
  | poll k =>
    obtain ⟨r', -, rfl⟩ := Option.map_eq_some_iff.1 h
    exact Program.only_embed (R := RingAccess.Answer) (g := .poll) (fun _ ↦ trivial) r'.1
  | rxSync priv meets =>
    obtain ⟨-, hr⟩ := Option.ite_none_right_eq_some.1 h
    cases hr
    cases priv with
    | none => trivial
    | some priv =>
      refine (Program.only_forEach fun i _ ↦ ?_).bind fun _ ↦ trivial
      exact (only_rxSyncLocked _ meets i).bind fun _ ↦ ⟨writes_ts (meets i), fun _ ↦ trivial⟩

/-- A poll of the first ring, and a `DIOCRXSYNC` that comes in between. -/
def syncingTwice : List (Threads.Event ℕ RingCall PollEvent) :=
  [.call 0 (.poll (.poll (some ⟨0, 1⟩) none)), .step 0, .step 0,
    .call 1 (.rxSync (some ⟨0, 1⟩) fun _ ↦ .done false), .step 1]

theorem syncing_twice (n : ℕ) :
    ∃ c, run (ringCalls ⟨true, false, n⟩).next syncingTwice (.start .start) = some c ∧
      Syncing c 0 0 ∧ Syncing c 0 1 :=
  ⟨_, rfl, .inl ⟨_, _, rfl⟩, .inl ⟨_, _, rfl⟩⟩

/-- A `DIOCRXSYNC` under the lock of its ring, and another that has found `cur` out of range. -/
def reinitBeside : List (Threads.Event ℕ RingCall PollEvent) :=
  [.call 0 (.rxSync (some ⟨0, 1⟩) fun _ ↦ .done false), .step 0,
    .call 1 (.rxSync (some ⟨0, 1⟩) fun _ ↦ .badCur 3)]

theorem reinit_beside (dadp : PollAdapter) :
    ∃ c, run (ringCalls dadp).next reinitBeside (.start .start) = some c ∧
      Syncing c 0 0 ∧ About c 1 (.bare 0 (.reinit (some 3))) :=
  ⟨_, rfl, .inl ⟨_, _, rfl⟩, ⟨_, _, rfl⟩⟩

/-- No two threads ever synchronise one ring at once just where the driver has a lock for every
queue, or nobody is to poll. What is written besides is written by a `DIOCRXSYNC` whose `rx_sync` met
the reason for it; but then `dpa_ring_reinit` may come beside a synchronisation whatever locks there
are. -/
theorem rxSync_exclusive_iff (dadp : PollAdapter) :
    ((∀ es c, run (ringCalls dadp).next es (.start .start) = some c →
      ∀ i t u, Syncing c i t → Syncing c i u → t = u) ↔
        (dadp.enabled = true → dadp.exclLocks = true)) ∧
      (∀ es c, run (ringCalls dadp).next es (.start .start) = some c →
        ∀ i t w, About c t (.bare i w) → ∃ priv meets next,
          c.tasks t = some (.rxSync priv meets, next) ∧ (meets i).writes w) ∧
      ∃ es c, run (ringCalls dadp).next es (.start .start) = some c ∧
        ∃ i t u avail, t ≠ u ∧ Syncing c i t ∧ About c u (.bare i (.reinit (some avail))) := by
  refine ⟨⟨?_, ?_⟩, ?_, ?_⟩
  · intro h henabled
    obtain ⟨enabled, exclLocks, n⟩ := dadp
    cases exclLocks with
    | true => rfl
    | false =>
      obtain rfl : enabled = true := henabled
      obtain ⟨c, hrun, h0, h1⟩ := syncing_twice n
      exact absurd (h _ c hrun 0 0 1 h0 h1) zero_ne_one
  · intro hq es c hrun i t u ht hu
    have hspin : (ringCalls dadp).Spin PollState.owner (RingAccess.use true) SpinLock.rank :=
      ringCalls_spin fun _ ↦ hq
    have hlocked := ringCalls_locked.run hspin hrun
    have hunder {t : ℕ} (ht : Syncing c i t) : ∃ k a next, c.tasks t = some (k, .act a next) ∧
        a.use true = .under (some (.queue i)) := by
      rcases ht with ⟨k, next, ht⟩ | ⟨k, next, ht⟩
      · exact ⟨k, _, next, ht, rfl⟩
      · exact ⟨k, _, next, ht, rfl⟩
    obtain ⟨k, a, next, ht, ha⟩ := hunder ht
    obtain ⟨k', a', next', hu, ha'⟩ := hunder hu
    exact hlocked.exclusive ht hu ha ha'
  · intro es c hrun i t w ⟨k, next, ht⟩
    have hdoes := (Threads.tasks_only (P := RingCall.Does) (fun _ _ _ _ h ↦ only_enter h)
      (fun _ _ _ hidle ↦ by cases hidle) hrun ht).1
    cases k with
    | poll k => exact hdoes.elim
    | rxSync priv meets => exact ⟨priv, meets, _, ht, hdoes⟩
  · obtain ⟨c, hrun, h0, h1⟩ := reinit_beside dadp
    exact ⟨_, c, hrun, 0, 0, 1, 3, zero_ne_one, h0, h1⟩

end Dpa.Kernel
