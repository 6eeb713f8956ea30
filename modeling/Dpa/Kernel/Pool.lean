import Dpa.Library.Bitmap
import Dpa.Library.MachineWord
import Dpa.Library.Program

namespace Dpa.Kernel

open Function Library MachineWord Bitmap

structure AddrTblItem where
  vaddr : ℕ
  paddr : ℕ

/-- The fields of `struct dpa_obj_pool` that stay as `dpa_new_obj_allocator` leaves them, with the
number of words it allocates for the bitmap. -/
structure DpaObjPool where
  objTotal : ℕ
  clstNEntries : ℕ
  numClusters : ℕ
  clstSize : ℕ
  objSize : ℕ
  memTotal : ℕ
  addrTbl : ℕ → AddrTblItem
  bitmapLen : ℕ

/-- The fields of `struct dpa_obj_pool` that allocation and release change. `obj_free` is a natural
number: it is decremented only where it has been found positive. -/
structure PoolWords where
  objFree : ℕ
  bitmap : ℕ → BitVec 32

inductive PoolId
  | ifPool
  | ringPool
  | bufPool
  deriving DecidableEq

/-- What the pool functions do to shared memory. A store that ends a read-modify-write also carries
the value that its load saw. -/
inductive PoolAccess
  | loadWord (p : PoolId) (i : ℕ)
  | storeWord (p : PoolId) (i : ℕ) (seen word : BitVec 32)
  | loadFree (p : PoolId)
  | storeFree (p : PoolId) (seen count : ℕ)
  | lock
  | unlock
  | fault

abbrev PoolAccess.Answer : PoolAccess → Type
  | loadWord _ _ => BitVec 32
  | loadFree _ => ℕ
  | fault => Empty
  | _ => Unit

abbrev PoolProgram := Program PoolAccess PoolAccess.Answer

structure PoolMemory where
  words : PoolId → PoolWords
  locked : Bool

def PoolMemory.set (s : PoolMemory) (p : PoolId) (w : PoolWords) : PoolMemory :=
  { s with words := update s.words p w }

/-- An access to the memory; it cannot happen outside the bitmap, nor can the lock be taken twice. -/
def access (pools : PoolId → DpaObjPool) :
    (a : PoolAccess) → PoolMemory → Option (a.Answer × PoolMemory)
  | .loadWord p i, s =>
    if i < (pools p).bitmapLen then some ((s.words p).bitmap i, s) else none
  | .storeWord p i _ word, s =>
    if i < (pools p).bitmapLen then
      some ((), s.set p { s.words p with bitmap := update (s.words p).bitmap i word })
    else none
  | .loadFree p, s => some ((s.words p).objFree, s)
  | .storeFree p _ count, s => some ((), s.set p { s.words p with objFree := count })
  | .lock, s => if s.locked then none else some ((), { s with locked := true })
  | .unlock, s => some ((), { s with locked := false })
  | .fault, _ => none

section

variable (p : PoolId)

def loadWord (i : ℕ) : PoolProgram (BitVec 32) := .perform (PoolAccess.loadWord p i)

def loadFree : PoolProgram ℕ := .perform (PoolAccess.loadFree p)

/-- `pool->bitmap[i] = op(pool->bitmap[i])`. -/
def changeWord (i : ℕ) (op : BitVec 32 → BitVec 32) : PoolProgram Unit := do
  let word ← loadWord p i
  .perform (PoolAccess.storeWord p i word (op word))

def changeFree (op : ℕ → ℕ) : PoolProgram Unit := do
  let count ← loadFree p
  .perform (PoolAccess.storeFree p count (op count))

end

section

variable (pool : DpaObjPool) (p : PoolId)

def mallocLoop : ℕ → ℕ → PoolProgram ℕ
  | 0, _ => .act .fault Empty.elim
  | fuel + 1, i => do
    let cur ← loadWord p i
    if cur = 0 then mallocLoop fuel (i + 1)
    else do
      let j := lowest cur
      changeWord p i fun word ↦ word &&& ~~~(1#32 <<< j)
      changeFree p fun count ↦ count - 1
      let vaddr := (pool.addrTbl (i * 32 + j)).vaddr
      if vaddr = 0 then mallocLoop fuel i else pure vaddr

/-- `dpa_obj_malloc`: the address of the object, or 0. Every round of the loop leaves a word or
clears a bit, so the rounds given here end it or lead out of the bitmap. -/
def dpaObjMalloc (len : ℤ) : PoolProgram ℕ :=
  -- `len` is an `int` and `_obj_size` is not: C compares them without sign
  if u32 len > pool.objSize then pure 0
  else do
    let count ← loadFree p
    if count = 0 then pure 0 else mallocLoop pool p (33 * pool.bitmapLen + 1) 0

def dpaObjFree (j : ℕ) : PoolProgram Unit :=
  if j ≥ pool.objTotal then pure ()
  else do
    changeWord p (j / 32) fun word ↦ word ||| 1#32 <<< (j % 32)
    changeFree p fun count ↦ count + 1

end

section

variable (pool : DpaObjPool)

def clusterBase (c : ℕ) : ℕ := (pool.addrTbl (c * pool.clstNEntries)).vaddr

/-- The first of the clusters below `n` that holds `vaddr`, as both address loops look for it. -/
def findCluster (vaddr n : ℕ) : Option ℕ :=
  (List.range n).find? fun c ↦
    decide (clusterBase pool c ≤ vaddr ∧ vaddr < clusterBase pool c + pool.clstSize)

/-- `dpa_obj_offset`; its loop goes over `obj_total` in steps of `clst_n_entries`. -/
def dpaObjOffset (vaddr : ℕ) : ℕ :=
  match findCluster pool vaddr ((pool.objTotal + pool.clstNEntries - 1) / pool.clstNEntries) with
  | some c => c * pool.clstSize + (vaddr - clusterBase pool c)
  | none => 0

def vaIndex (vaddr : ℕ) : Option ℕ :=
  (findCluster pool vaddr (pool.memTotal / pool.clstSize)).map fun c ↦
    c * pool.clstNEntries + (vaddr - clusterBase pool c) / pool.objSize

def dpaObjFreeVa (p : PoolId) (vaddr : ℕ) : PoolProgram Unit :=
  match vaIndex pool vaddr with
  | some j => dpaObjFree pool p j
  | none => pure ()

def dpaFreeBuf (i : ℕ) : PoolProgram Unit :=
  if i < 2 ∨ i ≥ pool.objTotal then pure () else dpaObjFree pool .bufPool i

def dpaBufIndex (vaddr : ℕ) : ℕ := dpaObjOffset pool vaddr / pool.objSize

end

def clusterMaxSize : ℕ := 131072

def cacheLine : ℕ := 64

/-- `x` with what it lacks to a multiple of `a`, a power of two. -/
def roundUp (x a : ℕ) : ℕ := if x &&& (a - 1) = 0 then x else u32 (x + (a - (x &&& (a - 1)) : ℕ))

def entriesLoop (pageSize objSize : ℕ) : ℕ → ℕ → ℕ → ℕ
  | 0, _, entries => entries
  | fuel + 1, i, entries =>
    let used := u32 (i * objSize)
    if used > clusterMaxSize then entries
    else if used % pageSize = 0 then i
    else
      entriesLoop pageSize objSize fuel (i + 1)
        (if used % pageSize > u32 (entries * objSize) % pageSize then i else entries)

/-- An object takes a cache line at least, so 2048 of them fill a cluster. -/
def clusterEntries (pageSize objSize : ℕ) : ℕ := entriesLoop pageSize objSize 2049 1 0

section

variable (getFreePages virtToPhys : ℕ → ℕ)

/-- What `dpa_new_obj_allocator` keeps when the pages for the cluster at `i` cannot be had. -/
def rollBack (i : ℕ) (pool : DpaObjPool) (bitmap : ℕ → BitVec 32) :
    DpaObjPool × (ℕ → BitVec 32) :=
  let lim := i / 2
  let objTotal := u32 ((lim : ℤ) - 1)
  let numClusters := objTotal / pool.clstNEntries
  ({ pool with
      objTotal := objTotal
      numClusters := numClusters
      memTotal := u32 (numClusters * pool.clstSize) },
    (List.range' lim (i + 1 - lim)).foldl clearBit bitmap)

/-- The loop that gets the clusters; `getFreePages c` is the address of the pages for cluster `c`,
0 when there are none. -/
def clustersLoop : ℕ → ℕ → DpaObjPool → (ℕ → BitVec 32) → DpaObjPool × (ℕ → BitVec 32)
  | 0, _, pool, bitmap => (pool, bitmap)
  | fuel + 1, c, pool, bitmap =>
    let i := c * pool.clstNEntries
    if i ≥ pool.objTotal then (pool, bitmap)
    else if getFreePages c = 0 then rollBack i pool bitmap
    else
      let item := fun x ↦ getFreePages c + (x - i) * pool.objSize
      clustersLoop fuel (c + 1)
        { pool with
          addrTbl := fun x ↦
            if i ≤ x ∧ x < i + pool.clstNEntries then ⟨item x, virtToPhys (item x)⟩
            else pool.addrTbl x }
        ((List.range' i pool.clstNEntries).foldl setBit bitmap)

def emptyPool (pageSize objTotal objSize : ℕ) : DpaObjPool :=
  let objSize := roundUp objSize cacheLine
  let clstNEntries := clusterEntries pageSize objSize
  let clstSize := roundUp (u32 (clstNEntries * objSize)) pageSize
  let objTotal := u32 (objTotal + 2)
  let n := u32 ((objTotal : ℤ) + clstNEntries - 1) / clstNEntries
  let objTotal := u32 (n * clstNEntries)
  { objTotal := objTotal
    clstNEntries := clstNEntries
    numClusters := n
    clstSize := clstSize
    objSize := objSize
    memTotal := u32 (n * clstSize)
    addrTbl := fun _ ↦ ⟨0, 0⟩
    bitmapLen := (objTotal + 31) / 32 }

/-- `dpa_new_obj_allocator`, every allocation but those of the clusters succeeding. -/
def dpaNewObjAllocator (pageSize objTotal objSize : ℕ) : Option (DpaObjPool × PoolWords) :=
  if objSize ≥ clusterMaxSize then none
  else
    let pool := emptyPool pageSize objTotal objSize
    let built := clustersLoop getFreePages virtToPhys (pool.objTotal + 1) 0 pool fun _ ↦ 0
    some (built.1,
      { objFree := u32 ((built.1.objTotal : ℤ) - 2)
        bitmap := update built.2 0 (~~~3#32) })

end

end Dpa.Kernel
