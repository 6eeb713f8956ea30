import Dpa.Library.Threads

namespace Dpa.Kernel

open Function Library

/-- The spin locks of an adapter: `core_lock` and the `q_lock` of every ring. -/
inductive SpinLock
  | core
  | queue (i : ℕ)
  deriving DecidableEq

/-- The wait queues of an adapter: `rx_wq` and the `wq` of every ring. -/
inductive WaitQueue
  | rx
  | ring (i : ℕ)
  deriving DecidableEq

inductive PollAccess
  | lock (x : SpinLock)
  | unlock (x : SpinLock)
  | loadAvail (i : ℕ)
  | rxSync (i : ℕ)
  | pollWait (q : WaitQueue)
  | wakeUp (q : WaitQueue)
  | pendIntr (i : ℕ)

abbrev PollAccess.Answer : PollAccess → Type
  | loadAvail _ => ℕ
  | rxSync _ => Bool
  | _ => Unit

abbrev PollProgram := Program PollAccess PollAccess.Answer

structure PollAdapter where
  enabled : Bool
  exclLocks : Bool
  numRxRings : ℕ

/-- `struct dpa_priv`, the rings that a descriptor is registered for. -/
structure DpaPriv where
  rfirst : ℕ
  rlast : ℕ

def dpaRingFlagAll : ℕ := 0x1000

def pollIn : ℕ := 0x1
def pollErr : ℕ := 0x8
def pollRdNorm : ℕ := 0x40

inductive CoreLock
  | noCl
  | needCl
  | lockedCl
  deriving DecidableEq

/-- `do_rx` at first; `pwait` is the key of the poll table, where there is one. -/
def pollDoRx (pwait : Option ℕ) : ℕ := pwait.getD pollIn &&& (pollIn ||| pollRdNorm)

section

variable (dadp : PollAdapter)

def checkAll (priv : DpaPriv) : Bool :=
  decide (priv.rlast = dpaRingFlagAll) && decide (dadp.numRxRings > 1)

/-- `max_rx` in the loops. -/
def pollMaxRx (priv : DpaPriv) : ℕ :=
  if priv.rlast ≠ dpaRingFlagAll then priv.rlast else dadp.numRxRings

/-- The loop that looks for a ring that still has packets: `do_rx` and `revents` after it. -/
def availLoop : ℕ → ℕ → ℕ → ℕ → PollProgram (ℕ × ℕ)
  | 0, _, doRx, revents => pure (doRx, revents)
  | n + 1, i, doRx, revents =>
    if doRx = 0 then pure (doRx, revents)
    else do
      let avail ← .perform (PollAccess.loadAvail i)
      if avail > 0 then availLoop n (i + 1) 0 (revents ||| doRx)
      else availLoop n (i + 1) doRx revents

/-- The loop that synchronises the rings: `core_lock` and `revents` after it. -/
def syncLoop (all : Bool) (doRx : ℕ) : ℕ → ℕ → CoreLock → ℕ → PollProgram (CoreLock × ℕ)
  | 0, _, coreLock, revents => pure (coreLock, revents)
  | n + 1, i, coreLock, revents => do
    Program.onlyIf (decide (coreLock = .needCl)) (.perform (PollAccess.lock .core))
    let coreLock := if coreLock = .needCl then .lockedCl else coreLock
    Program.onlyIf dadp.exclLocks (.perform (PollAccess.lock (.queue i)))
    let error ← .perform (PollAccess.rxSync i)
    let revents := if error then revents ||| pollErr else revents
    let avail ← .perform (PollAccess.loadAvail i)
    let revents := if avail > 0 then revents ||| doRx else revents
    Program.onlyIf (decide (avail = 0) && !all) (.perform (PollAccess.pollWait (.ring i)))
    Program.onlyIf dadp.exclLocks (.perform (PollAccess.unlock (.queue i)))
    syncLoop all doRx n (i + 1) coreLock revents

def dpaPoll (priv : Option DpaPriv) (pwait : Option ℕ) : PollProgram ℕ :=
  match priv with
  | none => pure pollErr
  | some priv =>
    if dadp.enabled = false then pure pollErr
    else do
      let all := checkAll dadp priv
      let coreLock := if all || !dadp.exclLocks then CoreLock.needCl else .noCl
      let n := pollMaxRx dadp priv - priv.rfirst
      let (doRx, revents) ← availLoop n priv.rfirst (pollDoRx pwait) 0
      let (coreLock, revents) ←
        (if doRx = 0 then pure (coreLock, revents)
        else syncLoop dadp all doRx n priv.rfirst coreLock revents)
      Program.onlyIf (all && decide (revents = 0) && decide (doRx ≠ 0))
        (.perform (PollAccess.pollWait .rx))
      Program.onlyIf (decide (coreLock = .lockedCl)) (.perform (PollAccess.unlock .core))
      pure revents

/-- `dpa_rx_irq`; what it returns is also what it has done. -/
def dpaRxIrq (i : ℕ) : PollProgram ℕ :=
  if dadp.enabled = false then pure 0
  else do
    .perform (PollAccess.pendIntr i)
    let mainWq := decide (dadp.numRxRings > 0)
    if dadp.exclLocks then do
      .perform (PollAccess.lock (.queue i))
      .perform (PollAccess.wakeUp (.ring i))
      .perform (PollAccess.unlock (.queue i))
      Program.onlyIf mainWq do
        .perform (PollAccess.lock .core)
        .perform (PollAccess.wakeUp .rx)
        .perform (PollAccess.unlock .core)
      pure 1
    else do
      .perform (PollAccess.lock .core)
      .perform (PollAccess.wakeUp (.ring i))
      Program.onlyIf mainWq (.perform (PollAccess.wakeUp .rx))
      .perform (PollAccess.unlock .core)
      pure 1

end

/-- A ring and its packets, numbered as they arrive. Those below `announced` have had a `dpa_rx_irq`
complete that began when they had arrived; `bad` is whether `rx_sync` finds something amiss. -/
structure RingTraffic where
  arrived : ℕ
  consumed : ℕ
  avail : ℕ
  announced : ℕ
  pendIntr : Bool
  bad : Bool

structure Sleeper where
  priv : Option DpaPriv
  doRx : ℕ

structure PollState where
  rings : ℕ → RingTraffic
  owner : SpinLock → Option ℕ
  waiting : WaitQueue → ℕ → Bool
  woken : ℕ → Bool
  asleep : ℕ → Option Sleeper

def PollState.setRing (s : PollState) (i : ℕ) (r : RingTraffic) : PollState :=
  { s with rings := update s.rings i r }

def pollExec (t : ℕ) : (a : PollAccess) → PollState → Option (a.Answer × PollState)
  | .lock x, s =>
    match s.owner x with
    | none => some ((), { s with owner := update s.owner x (some t) })
    | some _ => none
  | .unlock x, s => some ((), { s with owner := update s.owner x none })
  | .loadAvail i, s => some ((s.rings i).avail, s)
  | .rxSync i, s =>
    let r := s.rings i
    some (r.bad, s.setRing i { r with avail := r.arrived - r.consumed, pendIntr := false })
  | .pollWait q, s =>
    some ((), { s with waiting := update s.waiting q (update (s.waiting q) t true) })
  | .wakeUp q, s => some ((), { s with woken := fun u ↦ s.woken u || s.waiting q u })
  | .pendIntr i, s => some ((), s.setRing i { s.rings i with pendIntr := true })

/-- What a thread does. `n` packets have arrived on the ring when `rxIrq` begins, at least. -/
inductive PollCall
  | poll (priv : Option DpaPriv) (pwait : Option ℕ)
  | giveUp
  | rxIrq (i n : ℕ)

inductive PollEvent
  | arrive (i : ℕ)
  | consume (i n : ℕ)
  | spoil (i : ℕ) (bad : Bool)

def PollState.freeWait (s : PollState) (t : ℕ) : PollState :=
  { s with
    waiting := fun q ↦ update (s.waiting q) t false
    asleep := update s.asleep t none }

/-- Descriptors of an adapter, and the threads that use them or run its interrupt handler. A thread
that sleeps polls again when it has been woken, and stays on the wait queues meanwhile. -/
def polling (dadp : PollAdapter) :
    Threads ℕ PollCall PollEvent PollState ℕ PollAccess PollAccess.Answer where
  enter t
    | .poll priv pwait, s =>
      if s.asleep t = none ∨ s.woken t then
        some (dpaPoll dadp priv pwait,
          { s with
            woken := update s.woken t false
            asleep := update s.asleep t none })
      else none
    | .giveUp, s => some (pure 0, s.freeWait t)
    | .rxIrq i n, s =>
      if s.asleep t = none ∧ n ≤ (s.rings i).arrived then some (dpaRxIrq dadp i, s) else none
  exec := pollExec
  leave t
    | .poll priv pwait, revents, s =>
      if revents = 0 then
        some { s with asleep := update s.asleep t (some ⟨priv, pollDoRx pwait⟩) }
      else some (s.freeWait t)
    | .giveUp, _, s => some s
    | .rxIrq i n, _, s =>
      some (s.setRing i { s.rings i with announced := max (s.rings i).announced n })
  outside
    | .arrive i, s => some (s.setRing i { s.rings i with arrived := (s.rings i).arrived + 1 })
    | .consume i n, s =>
      let r := s.rings i
      if n ≤ r.avail then
        some (s.setRing i
          { r with
            consumed := r.consumed + n
            avail := r.avail - n })
      else none
    | .spoil i bad, s => some (s.setRing i { s.rings i with bad := bad })

def PollState.start : PollState where
  rings _ := ⟨0, 0, 0, 0, false, false⟩
  owner _ := none
  waiting _ _ := false
  woken _ := false
  asleep _ := none

end Dpa.Kernel
