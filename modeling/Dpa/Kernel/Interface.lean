import Dpa.Kernel.Ring
import Dpa.Kernel.PoolSpec

namespace Dpa.Kernel

open Function Library MachineWord

/-- A `struct dpa_kring` and the `struct dpa_ring` that its first field points to; `ringVa` is the
pointer. -/
structure RxRing where
  ringVa : ℕ
  kring : DpaKring
  bufOfs : ℤ
  ring : DpaRing

/-- `struct dpa_adapter`, less its locks, its wait queues and its callbacks. -/
structure DpaAdapter where
  refs : ℤ
  numRxRings : ℕ
  numRxDescs : ℕ
  rxRings : ℕ → RxRing

/-- `struct dpa_if`, less the name, with its address. -/
structure DpaIf where
  va : ℕ
  numRxRings : ℕ
  ringOfs : ℕ → ℤ

def sizeofDpaIf : ℕ := 24
def sizeofSsize : ℕ := 8
def sizeofDpaRing : ℕ := 48
def sizeofDpaSlot : ℕ := 8

def ifLen (nrx : ℕ) : ℕ := u32 (sizeofDpaIf + nrx * sizeofSsize)

def ringLen (ndesc : ℕ) : ℕ := u32 (sizeofDpaRing + ndesc * sizeofDpaSlot)

def zeroSlot : DpaSlot := ⟨0, 0, 0⟩

def zeroKring : DpaKring := ⟨0, 0, 0, 0, 0, 0, 0⟩

section

variable (pools : PoolId → DpaObjPool) (bufSize : ℕ)

def dpaIfOffset (va : ℕ) : ℤ := dpaObjOffset (pools .ifPool) va

def dpaRingOffset (va : ℕ) : ℤ :=
  (pools .ifPool).memTotal + dpaObjOffset (pools .ringPool) va

/-- The loop of `dpa_new_bufs` and its cleanup. -/
def newBufsLoop (n : ℕ) : ℕ → ℕ → (ℕ → DpaSlot) → PoolProgram (Bool × (ℕ → DpaSlot))
  | 0, _, slot => pure (true, slot)
  | m + 1, i, slot => do
    let vaddr ← dpaObjMalloc (pools .bufPool) .bufPool bufSize
    if vaddr = 0 then do
      Program.forEach (fun i ↦ dpaObjFree (pools .bufPool) .bufPool (slot i).bufIdx)
        (List.range i).reverse
      pure (false, fun j ↦ if j < n then zeroSlot else slot j)
    else
      newBufsLoop n m (i + 1) (update slot i
        { slot i with
          bufIdx := dpaBufIndex (pools .bufPool) vaddr
          len := u16 (pools .bufPool).objSize })

/-- `dpa_new_bufs`: whether it succeeds, and the slots it leaves. -/
def dpaNewBufs (slot : ℕ → DpaSlot) (n : ℕ) : PoolProgram (Bool × (ℕ → DpaSlot)) :=
  newBufsLoop pools bufSize n n 0 slot

def newRing (va ndesc : ℕ) : RxRing where
  ringVa := va
  kring := { zeroKring with nkrNumSlots := ndesc }
  bufOfs := u32 ((pools .ifPool).memTotal + (pools .ringPool).memTotal) - dpaRingOffset pools va
  ring :=
    { numSlots := ndesc
      avail := 0
      cur := 0
      reserved := 0
      hwOfs := 0
      bufSize := u16 bufSize
      slot := fun _ ↦ zeroSlot }

/-- The ring loop of `dpa_new_if`: the ring it fails at, if it does, and the rings it leaves. -/
def newRingsLoop (ndesc : ℕ) : ℕ → ℕ → (ℕ → RxRing) → PoolProgram (Option ℕ × (ℕ → RxRing))
  | 0, _, rx => pure (none, rx)
  | m + 1, i, rx => do
    let va ← dpaObjMalloc (pools .ringPool) .ringPool (ringLen ndesc)
    if va = 0 then pure (some i, update rx i { rx i with ringVa := 0, kring := zeroKring })
    else do
      let new := newRing pools bufSize va ndesc
      let (ok, slot) ← dpaNewBufs pools bufSize new.ring.slot ndesc
      let rx := update rx i { new with ring := { new.ring with slot := slot } }
      if ok then newRingsLoop ndesc m (i + 1) rx else pure (some i, rx)

def freeSlots (rx : RxRing) : PoolProgram Unit :=
  Program.forEach (fun j ↦ dpaFreeBuf (pools .bufPool) (rx.ring.slot j).bufIdx)
    (List.range rx.kring.nkrNumSlots)

def dpaFreeRings (nrx : ℕ) (rx : ℕ → RxRing) : PoolProgram Unit :=
  Program.forEach
    (fun i ↦
      if (rx i).ringVa = 0 then pure ()
      else dpaObjFreeVa (pools .ringPool) .ringPool (rx i).ringVa)
    (List.range nrx)

def dpaIfFree (va : ℕ) : PoolProgram Unit := dpaObjFreeVa (pools .ifPool) .ifPool va

def newIf (va : ℕ) (dadp : DpaAdapter) : DpaIf where
  va := va
  numRxRings := dadp.numRxRings
  ringOfs i := dpaRingOffset pools (dadp.rxRings i).ringVa - dpaIfOffset pools va

/-- `dpa_new_if`: the interface object, or `none`, and the adapter it leaves. -/
def dpaNewIf (dadp : DpaAdapter) : PoolProgram (Option DpaIf × DpaAdapter) := do
  .perform PoolAccess.lock
  let va ← dpaObjMalloc (pools .ifPool) .ifPool (ifLen dadp.numRxRings)
  if va = 0 then do
    .perform PoolAccess.unlock
    pure (none, dadp)
  else if dadp.refs > 0 then do
    let dadp := { dadp with refs := dadp.refs + 1 }
    .perform PoolAccess.unlock
    pure (some (newIf pools va dadp), dadp)
  else do
    let (failed, rx) ← newRingsLoop pools bufSize dadp.numRxDescs dadp.numRxRings 0 dadp.rxRings
    match failed with
    | none => do
      let dadp := { dadp with refs := dadp.refs + 1, rxRings := rx }
      .perform PoolAccess.unlock
      pure (some (newIf pools va dadp), dadp)
    | some i => do
      Program.forEach (fun i ↦ freeSlots pools (rx i)) (List.range i).reverse
      dpaFreeRings pools dadp.numRxRings rx
      dpaIfFree pools va
      .perform PoolAccess.unlock
      pure (none, { dadp with rxRings := rx })

/-- What `dpa_destructor_locked` does to the pools when `refs` has come to zero. -/
def freeAll (dadp : DpaAdapter) : PoolProgram Unit := do
  .perform PoolAccess.lock
  Program.forEach (fun i ↦ freeSlots pools (dadp.rxRings i)) (List.range dadp.numRxRings)
  .perform PoolAccess.unlock
  -- the lock is not held from here on
  dpaFreeRings pools dadp.numRxRings dadp.rxRings

end

end Dpa.Kernel
