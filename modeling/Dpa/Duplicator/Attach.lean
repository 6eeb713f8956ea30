import Dpa.Duplicator.Shm
import Dpa.Library.Machine
import Dpa.Library.Publication

namespace Dpa.Duplicator

open Function Library MachineWord

inductive QueueWrite
  | queueId (v : Int32)
  | numSlots (v : Int32)
  | slotSize (v : Int32)
  | widx (v : Int32)
  | ridx (v : Int32)
  | mask (v : Int32)
  | dropPackets (v : ℕ)
  | slotOffs (v : ℤ)

def QueueWrite.set (q : DupQueue) : QueueWrite → DupQueue
  | queueId v => { q with queueId := v }
  | numSlots v => { q with numSlots := v }
  | slotSize v => { q with slotSize := v }
  | widx v => { q with widx := v }
  | ridx v => { q with ridx := v }
  | mask v => { q with mask := v }
  | dropPackets v => { q with dropPackets := v }
  | slotOffs v => { q with slotOffs := v }

inductive HeaderWrite
  | magic (v : ℕ)
  | memSize (v : ℕ)
  | numQueues (v : ℕ)
  | queueSize (v : ℕ)
  | devCap (v : ℤ)

def HeaderWrite.set (h : DupShm) : HeaderWrite → DupShm
  | magic v => { h with magic := v }
  | memSize v => { h with memSize := v }
  | numQueues v => { h with numQueues := v }
  | queueSize v => { h with queueSize := v }
  | devCap v => { h with devCap := v }

inductive ShmWrite
  | resize (size : ℤ)
  | queue (i : ℕ) (w : QueueWrite)
  | header (w : HeaderWrite)

def emptyFile : ShmFile := ⟨0, ⟨0, 0, 0, 0, 0⟩, fun _ ↦ zeroQueue⟩

def ShmFile.write (f : ShmFile) : ShmWrite → ShmFile
  | .resize size => { f with size := size }
  | .queue i w =>
    { f with queue := update f.queue (dupShmQueue i) (w.set (f.queue (dupShmQueue i))) }
  | .header w => { f with header := w.set f.header }

structure InitArgs where
  pageSize : ℤ
  devName : Option String
  numQueues : Int32
  slotSize : Int32
  numSlots : Int32
  devCap : ℤ

namespace InitArgs

variable (a : InitArgs)

def built : Option ShmFile :=
  dupShmInit a.pageSize true a.devName a.numQueues a.slotSize a.numSlots a.devCap

def hdrSize : ℤ := shmHdrSize a.numQueues (roundPow a.slotSize)

def memSize : ℤ :=
  shmMemSize a.pageSize a.hdrSize a.numQueues (roundPow a.numSlots) (roundPow a.slotSize)

def queueWrites (i : ℕ) : List ShmWrite :=
  [.queue i (.queueId (Int32.ofNat i)), .queue i (.numSlots (roundPow a.numSlots)),
    .queue i (.slotSize (roundPow a.slotSize)), .queue i (.ridx 0), .queue i (.widx 0),
    .queue i (.mask (roundPow a.numSlots - 1)), .queue i (.dropPackets 0), .queue i (.dropPackets 0),
    .queue i (.slotOffs (a.hdrSize + i * (roundPow a.numSlots * roundPow a.slotSize).toInt -
      dupShmQueue i))]

/-- What `dup_shm_init` does to the file after it has truncated it to no bytes, up to the header. -/
def body : List ShmWrite :=
  .resize a.memSize :: (List.range a.numQueues.toInt.toNat).flatMap a.queueWrites

def header : List ShmWrite :=
  [.header (.magic dupMagic), .header (.memSize (u32 a.memSize)),
    .header (.numQueues (u32 a.numQueues.toInt)), .header (.queueSize (sizeof dupQueueT)),
    .header (.devCap a.devCap)]

end InitArgs

inductive AttachError
  | deviceNotExist
  | badFileSize
  | badFileContent
  | badQueueId
  deriving DecidableEq

/-- What `dup_open` leaves in `dpa_t`: the length of the mapping, with the generation of the file whose
size it is, and what it has read from the header. -/
structure AttachedInfo where
  gen : ℕ
  len : ℤ
  memSize : ℕ
  numQueues : ℕ
  devCap : ℤ
  deriving DecidableEq

/-- Where a client is in `dup_open`, after it or in `dup_loop`; a generation that it carries is the one
in which it made the read. -/
inductive ClientState
  | idle
  | opened
  | mapped (gen : ℕ) (len : ℤ)
  | known (gen : ℕ) (len : ℤ)
  | fits (gen : ℕ) (len : ℤ)
  | sized (gen : ℕ) (len : ℤ) (memSize : ℕ)
  | counted (gen : ℕ) (len : ℤ) (memSize numQueues : ℕ)
  | attached (info : AttachedInfo)
  | looping (info : AttachedInfo) (queueId : ℤ)
  | checked (info : AttachedInfo) (queueId : ℤ)
  | receives (info : AttachedInfo) (gen q : ℕ)
  | failed (e : AttachError)
  | killed
  deriving DecidableEq

/-- The next step of a client, which reads the file once. Where it has the file mapped and the file has
no bytes, it is killed. -/
def ClientState.next (gen : ℕ) (f : ShmFile) : ClientState → ClientState
  | opened => if f.size < sizeof dupShmT then failed .badFileSize else mapped gen f.size
  | mapped g len =>
    if f.size = 0 then killed
    else if f.header.magic ≠ dupMagic then failed .badFileContent else known g len
  | known g len =>
    if f.size = 0 then killed
    else if f.header.memSize > len then failed .badFileContent else fits g len
  | fits g len => if f.size = 0 then killed else sized g len f.header.memSize
  | sized g len m => if f.size = 0 then killed else counted g len m f.header.numQueues
  | counted g len m n => if f.size = 0 then killed else attached ⟨g, len, m, n, f.header.devCap⟩
  | looping info q =>
    if f.size = 0 then killed
    else if f.header.magic ≠ dupMagic then failed .badFileContent else checked info q
  | checked info q =>
    if f.size = 0 then killed
    else if q < 0 ∨ q ≥ s32 f.header.numQueues then failed .badQueueId
    else receives info gen q.toNat
  | c => c

/-- The shared memory of a name: the file, how often it has been truncated, and of the duplicator that
did so last its arguments, the stores that it has made and those to come. -/
structure Region where
  created : Bool
  file : ShmFile
  gen : ℕ
  args : InitArgs
  done : List ShmWrite
  todo : List ShmWrite
  alive : Bool
  clients : ℕ → ClientState

/-- `start` is a duplicator that gets the lock and truncates the file, `use` anybody who moves the
indices of a queue or counts what is dropped, `leave` a client that ends. -/
inductive RegionEvent
  | start (a : InitArgs)
  | write
  | die
  | use (i : ℕ) (widx ridx : Int32) (dropPackets dropBytes : ℕ)
  | dupOpen (k : ℕ)
  | dupLoop (k : ℕ) (queueId : ℤ)
  | step (k : ℕ)
  | leave (k : ℕ)

namespace Region

def start (a : InitArgs) : Region :=
  ⟨false, emptyFile, 0, a, [], [], false, fun _ ↦ .idle⟩

def setClient (s : Region) (k : ℕ) (c : ClientState) : Region :=
  { s with clients := update s.clients k c }

def exec (s : Region) : RegionEvent → Option Region
  | .start a =>
    if s.alive = false ∧ a.built.isSome then
      some
        { s with
          created := true
          file := emptyFile
          gen := s.gen + 1
          args := a
          done := []
          todo := a.body ++ a.header
          alive := true }
    else none
  | .write =>
    if s.alive then
      match s.todo with
      | [] => none
      | w :: ws => some { s with file := s.file.write w, done := s.done ++ [w], todo := ws }
    else none
  | .die => if s.alive then some { s with alive := false } else none
  | .use i widx ridx dropPackets dropBytes =>
    if s.file.size = 0 then none
    else
      let q := s.file.queue (dupShmQueue i)
      some
        { s with
          file :=
            { s.file with
              queue := update s.file.queue (dupShmQueue i)
                { q with
                  widx := widx
                  ridx := ridx
                  dropPackets := dropPackets
                  dropBytes := dropBytes } } }
  | .dupOpen k =>
    if s.clients k = .idle then
      some (s.setClient k (if s.created then .opened else .failed .deviceNotExist))
    else none
  | .dupLoop k queueId =>
    match s.clients k with
    | .attached info => some (s.setClient k (.looping info queueId))
    | _ => none
  | .step k => some (s.setClient k ((s.clients k).next s.gen s.file))
  | .leave k => some (s.setClient k .idle)

end Region

def DupQueue.fixed (q : DupQueue) : DupQueue :=
  { q with widx := 0, ridx := 0, dropPackets := 0, dropBytes := 0 }

def ShmFile.fixed (f : ShmFile) : ShmFile := { f with queue := fun a ↦ (f.queue a).fixed }

variable {a : InitArgs} {f f' : ShmFile} {w : ShmWrite} {done : List ShmWrite} {s s' : Region}
  {k gen q : ℕ} {c : ClientState}

theorem fixed_set {q q' : DupQueue} (h : q'.fixed = q.fixed) (w : QueueWrite) :
    (w.set q').fixed = (w.set q).fixed := by
  simp only [DupQueue.fixed, DupQueue.mk.injEq] at h
  obtain ⟨h1, h2, h3, -, -, h4, -, -, h5⟩ := h
  cases w <;> simp only [QueueWrite.set, DupQueue.fixed, h1, h2, h3, h4, h5]

theorem fixed_write (h : f'.fixed = f.fixed) (w : ShmWrite) : (f'.write w).fixed = (f.write w).fixed := by
  simp only [ShmFile.fixed, ShmFile.mk.injEq] at h
  obtain ⟨hsize, hheader, hqueue⟩ := h
  cases w with
  | resize size => simp only [ShmFile.write, ShmFile.fixed, hheader, hqueue]
  | header w => simp only [ShmFile.write, ShmFile.fixed, hsize, hheader, hqueue]
  | queue i w =>
    simp only [ShmFile.write, ShmFile.fixed, hsize, hheader, ShmFile.mk.injEq, true_and]
    funext x
    by_cases hx : x = dupShmQueue i
    · rw [hx, update_self, update_self]
      exact fixed_set (congrFun hqueue _) w
    · rw [update_of_ne hx, update_of_ne hx]
      exact congrFun hqueue x

theorem queueWrites_queue {i : ℕ} (h : w ∈ a.queueWrites i) : ∃ v, w = .queue i v := by
  simp only [InitArgs.queueWrites, List.mem_cons, List.not_mem_nil, or_false] at h
  rcases h with rfl | rfl | rfl | rfl | rfl | rfl | rfl | rfl | rfl <;> exact ⟨_, rfl⟩

theorem mem_body (h : w ∈ a.body) : w = .resize a.memSize ∨ ∃ i v, w = .queue i v := by
  rcases List.mem_cons.1 h with rfl | h
  · exact .inl rfl
  · obtain ⟨i, -, hw⟩ := List.mem_flatMap.1 h
    exact .inr ⟨i, queueWrites_queue hw⟩

theorem mem_header (h : w ∈ a.header) :
    ∃ v, w = .header v ∧ ∀ g : DupShm, (v.set g).numQueues = g.numQueues ∨
      (v.set g).numQueues = u32 a.numQueues.toInt := by
  simp only [InitArgs.header, List.mem_cons, List.not_mem_nil, or_false] at h
  rcases h with rfl | rfl | rfl | rfl | rfl
  · exact ⟨_, rfl, fun g ↦ .inl rfl⟩
  · exact ⟨_, rfl, fun g ↦ .inl rfl⟩
  · exact ⟨_, rfl, fun g ↦ .inr rfl⟩
  · exact ⟨_, rfl, fun g ↦ .inl rfl⟩
  · exact ⟨_, rfl, fun g ↦ .inl rfl⟩

/-- The header is what a client looks at, the queues what it relies on. -/
def publication (a : InitArgs) : Publication ShmFile ShmWrite (ℤ → DupQueue) where
  apply := ShmFile.write
  start := emptyFile
  body := a.body
  header := a.header
  seen f := f.header.numQueues ≠ 0
  view f := f.fixed.queue
  not_seen := fun h ↦ h rfl
  body_seen := by
    intro f w hw hseen
    rcases mem_body hw with rfl | ⟨i, v, rfl⟩
    · exact hseen
    · exact hseen
  header_view := by
    intro f w hw
    obtain ⟨v, rfl, -⟩ := mem_header hw
    rfl

def writeAll (done : List ShmWrite) : ShmFile := done.foldl ShmFile.write emptyFile

theorem size_write (hw : w ∈ a.body ++ a.header) (f : ShmFile) :
    (f.write w).size = f.size ∨ (f.write w).size = a.memSize := by
  rcases List.mem_append.1 hw with hbody | hheader
  · rcases mem_body hbody with rfl | ⟨i, v, rfl⟩
    · exact .inr rfl
    · exact .inl rfl
  · obtain ⟨v, rfl, -⟩ := mem_header hheader
    exact .inl rfl

theorem size_writeAll (hdone : done <+: a.body ++ a.header) :
    (writeAll done).size = 0 ∨ (writeAll done).size = a.memSize :=
  foldl_value (g := ShmFile.size) (fun f _ hw ↦ size_write (hdone.subset hw) f) emptyFile

/-- Once the queues are written the file has its size, which the first of the stores gives it. -/
theorem size_body (hdone : done <+: a.body ++ a.header) (hbody : a.body <+: done) :
    (writeAll done).size = a.memSize := by
  obtain ⟨l, rfl⟩ := hbody
  rw [InitArgs.body, List.cons_append] at hdone ⊢
  have hrest := foldl_value (g := ShmFile.size)
    (fun f _ hw ↦ size_write (hdone.subset (List.mem_cons_of_mem _ hw)) f)
    (emptyFile.write (.resize a.memSize))
  exact hrest.elim id id

theorem numQueues_writeAll (hdone : done <+: a.body ++ a.header) :
    (writeAll done).header.numQueues = 0 ∨
      (writeAll done).header.numQueues = u32 a.numQueues.toInt := by
  refine foldl_value (g := fun f ↦ f.header.numQueues) (fun f w hw ↦ ?_) emptyFile
  rcases List.mem_append.1 (hdone.subset hw) with hbody | hheader
  · rcases mem_body hbody with rfl | ⟨i, v, rfl⟩
    · exact .inl rfl
    · exact .inl rfl
  · obtain ⟨v, rfl, hv⟩ := mem_header hheader
    exact hv f.header

theorem foldl_queueWrites (f : ShmFile) (n i : ℕ) :
    ((List.range' i n).flatMap a.queueWrites).foldl ShmFile.write f =
      { f with
        queue := initQueues (roundPow a.numSlots) (roundPow a.slotSize) n i
          (a.hdrSize + i * (roundPow a.numSlots * roundPow a.slotSize).toInt) f.queue } := by
  induction n generalizing f i with
  | zero => rfl
  | succ n ih =>
    have haddr : (sizeof dupShmT : ℤ) + i * sizeof dupQueueT = dupShmQueue i := by
      rw [dupShmQueue, offsetof_queue, sizeof_dupShmT]
    have hone : (a.queueWrites i).foldl ShmFile.write f =
        { f with
          queue := update f.queue (dupShmQueue i)
            (dupQueueInit (f.queue (dupShmQueue i)) (Int32.ofNat i) (roundPow a.numSlots)
              (roundPow a.slotSize) (a.hdrSize +
                i * (roundPow a.numSlots * roundPow a.slotSize).toInt - dupShmQueue i)) } := by
      simp only [InitArgs.queueWrites, List.foldl_cons, List.foldl_nil, ShmFile.write, update_self,
        update_idem, QueueWrite.set, dupQueueInit]
    rw [List.range'_succ, List.flatMap_cons, List.foldl_append, hone, ih, initQueues, haddr]
    congr 2
    push_cast
    ring

theorem writeAll_built (h : a.built = some f) : writeAll (a.body ++ a.header) = f := by
  rw [InitArgs.built, dupShmInit] at h
  split_ifs at h with hargs hpage
  rw [Option.some.injEq] at h
  rw [← h, writeAll, InitArgs.body, List.cons_append, List.foldl_cons, List.foldl_append,
    List.range_eq_range', foldl_queueWrites]
  simp only [InitArgs.header, List.foldl_cons, List.foldl_nil, ShmFile.write, HeaderWrite.set,
    emptyFile, Nat.cast_zero, zero_mul, add_zero]
  rfl

def ClientState.mapping : ClientState → Option (ℕ × ℤ)
  | mapped g len | known g len | fits g len | sized g len _ | counted g len _ _ => some (g, len)
  | attached info | looping info _ | checked info _ | receives info _ _ => some (info.gen, info.len)
  | idle | opened | failed _ | killed => none

/-- A client that has the file open goes on with the mapping that it has, or gives up. -/
theorem mapping_kept (hc : c ≠ .opened) :
    (c.next gen f).mapping = none ∨ (c.next gen f).mapping = c.mapping := by
  cases c with
  | opened => exact absurd rfl hc
  | idle | attached | receives | failed | killed => exact .inr rfl
  | _ =>
    simp only [ClientState.next]
    split_ifs <;> simp [ClientState.mapping]

theorem mapping_next {g : ℕ} {len : ℤ} (h : (c.next gen f).mapping = some (g, len)) :
    c.mapping = some (g, len) ∨ g = gen ∧ len = f.size ∧ f.size ≠ 0 := by
  by_cases hc : c = .opened
  · subst hc
    simp only [ClientState.next] at h
    split_ifs at h with hsize
    · cases h
    · cases h
      refine .inr ⟨rfl, rfl, fun h0 ↦ hsize ?_⟩
      rw [h0, sizeof_dupShmT]
      decide
  · rcases mapping_kept hc with hnone | hsame
    · rw [hnone] at h
      cases h
    · exact .inl (hsame.symm.trans h)

theorem receives_next {info : AttachedInfo} {g : ℕ} (h : c.next gen f = .receives info g q) :
    c = .receives info g q ∨ g = gen ∧ (q : ℤ) < s32 f.header.numQueues := by
  cases c with
  | checked info' q' =>
    simp only [ClientState.next] at h
    split_ifs at h with h0 hq
    cases h
    exact .inr ⟨rfl, by omega⟩
  | receives => exact .inl h
  | idle | attached | failed | killed => cases h
  | _ =>
    simp only [ClientState.next] at h
    split_ifs at h

/-- The file is as far as the stores of its last generation have come, what a client has found in this
generation is as it was left, and the queue that a client receives from in it is written. -/
structure Region.Ordered (s : Region) : Prop where
  built : s.alive = true ∨ s.done ≠ [] → s.args.built.isSome = true
  order : s.done <+: s.args.body ++ s.args.header
  todo : s.alive = true → s.done ++ s.todo = s.args.body ++ s.args.header
  file : s.file.fixed = (writeAll s.done).fixed
  mapping : ∀ k g len, (s.clients k).mapping = some (g, len) →
    g ≤ s.gen ∧ (g = s.gen → len = s.args.memSize)
  ready : ∀ k info g q, s.clients k = .receives info g q →
    g ≤ s.gen ∧ (g = s.gen → (q : ℤ) < s.args.numQueues.toInt ∧ s.args.body <+: s.done)

theorem ordered_start (a : InitArgs) : (Region.start a).Ordered where
  built := by
    rintro (h | h)
    · cases h
    · exact absurd rfl h
  order := List.nil_prefix
  todo := fun h ↦ by cases h
  file := rfl
  mapping := fun k g len h ↦ by cases h
  ready := fun k info g q h ↦ by cases h

theorem Region.Ordered.size_file (hs : s.Ordered) : s.file.size = (writeAll s.done).size := by
  have hfixed : s.file.fixed.size = (writeAll s.done).fixed.size := congrArg ShmFile.size hs.file
  exact hfixed

theorem Region.Ordered.header_file (hs : s.Ordered) : s.file.header = (writeAll s.done).header := by
  have hfixed : s.file.fixed.header = (writeAll s.done).fixed.header :=
    congrArg ShmFile.header hs.file
  exact hfixed

theorem Region.Ordered.size (hs : s.Ordered) : s.file.size = 0 ∨ s.file.size = s.args.memSize := by
  rw [hs.size_file]
  exact size_writeAll hs.order

/-- A client that finds a queue in the header finds it written. -/
theorem Region.Ordered.found (hs : s.Ordered) (hq : (q : ℤ) < s32 s.file.header.numQueues) :
    (q : ℤ) < s.args.numQueues.toInt ∧ s.args.body <+: s.done := by
  rw [hs.header_file] at hq
  have hne : (writeAll s.done).header.numQueues ≠ 0 := by
    intro h0
    rw [h0] at hq
    exact absurd hq (by simp [s32])
  refine ⟨?_, (publication s.args).body_written hs.order hne⟩
  rw [(numQueues_writeAll hs.order).resolve_left hne, s32_u32,
    s32_of_mem s.args.numQueues.le_toInt s.args.numQueues.toInt_lt] at hq
  exact hq

theorem Region.Ordered.setClient (hs : s.Ordered) {k : ℕ} {c : ClientState}
    (hm : ∀ g len, c.mapping = some (g, len) → g ≤ s.gen ∧ (g = s.gen → len = s.args.memSize))
    (hr : ∀ info g q, c = .receives info g q →
      g ≤ s.gen ∧ (g = s.gen → (q : ℤ) < s.args.numQueues.toInt ∧ s.args.body <+: s.done)) :
    (s.setClient k c).Ordered where
  built := hs.built
  order := hs.order
  todo := hs.todo
  file := hs.file
  mapping := by
    intro k' g len h
    change (update s.clients k c k').mapping = _ at h
    by_cases hk : k' = k
    · rw [hk, update_self] at h
      exact hm g len h
    · rw [update_of_ne hk] at h
      exact hs.mapping k' g len h
  ready := by
    intro k' info g q h
    change update s.clients k c k' = _ at h
    by_cases hk : k' = k
    · rw [hk, update_self] at h
      exact hr info g q h
    · rw [update_of_ne hk] at h
      exact hs.ready k' info g q h

theorem Region.Ordered.begin (hs : s.Ordered) {a : InitArgs} (ha : a.built.isSome = true) :
    Region.Ordered { s with
      created := true
      file := emptyFile
      gen := s.gen + 1
      args := a
      done := []
      todo := a.body ++ a.header
      alive := true } where
  built := fun _ ↦ ha
  order := List.nil_prefix
  todo := fun _ ↦ rfl
  file := rfl
  mapping := by
    intro k g len h
    have hlt : g < s.gen + 1 := Nat.lt_succ_of_le (hs.mapping k g len h).1
    exact ⟨hlt.le, fun heq ↦ absurd heq hlt.ne⟩
  ready := by
    intro k info g q h
    have hlt : g < s.gen + 1 := Nat.lt_succ_of_le (hs.ready k info g q h).1
    exact ⟨hlt.le, fun heq ↦ absurd heq hlt.ne⟩

theorem Region.Ordered.write (hs : s.Ordered) {w : ShmWrite} {ws : List ShmWrite}
    (halive : s.alive = true) (htodo : s.todo = w :: ws) :
    Region.Ordered { s with file := s.file.write w, done := s.done ++ [w], todo := ws } where
  built := fun _ ↦ hs.built (.inl halive)
  order := by
    have hall := hs.todo halive
    rw [htodo] at hall
    exact ⟨ws, by rw [← hall, List.append_assoc, List.singleton_append]⟩
  todo := by
    intro _
    have hall := hs.todo halive
    rw [htodo] at hall
    rw [← hall, List.append_assoc, List.singleton_append]
  file := by
    rw [writeAll, List.foldl_append]
    exact fixed_write hs.file w
  mapping := hs.mapping
  ready := by
    intro k info g q h
    obtain ⟨hle, hready⟩ := hs.ready k info g q h
    exact ⟨hle, fun heq ↦ ⟨(hready heq).1, (hready heq).2.trans (List.prefix_append _ _)⟩⟩

theorem Region.Ordered.ended (hs : s.Ordered) (halive : s.alive = true) :
    Region.Ordered { s with alive := false } where
  built := fun _ ↦ hs.built (.inl halive)
  order := hs.order
  todo := fun h ↦ by cases h
  file := hs.file
  mapping := hs.mapping
  ready := hs.ready

theorem Region.Ordered.used (hs : s.Ordered) {f : ShmFile} (hf : f.fixed = s.file.fixed) :
    Region.Ordered { s with file := f } :=
  ⟨hs.built, hs.order, hs.todo, hf.trans hs.file, hs.mapping, hs.ready⟩

theorem fixed_used (f : ShmFile) (i : ℕ) (widx ridx : Int32) (dropPackets dropBytes : ℕ) :
    ShmFile.fixed { f with
      queue := update f.queue (dupShmQueue i)
        { f.queue (dupShmQueue i) with
          widx := widx
          ridx := ridx
          dropPackets := dropPackets
          dropBytes := dropBytes } } = f.fixed := by
  simp only [ShmFile.fixed, ShmFile.mk.injEq, true_and]
  funext x
  by_cases hx : x = dupShmQueue i
  · rw [hx, update_self]
    rfl
  · rw [update_of_ne hx]

theorem Region.Ordered.step (hs : s.Ordered) (k : ℕ) :
    (s.setClient k ((s.clients k).next s.gen s.file)).Ordered := by
  refine hs.setClient ?_ ?_
  · intro g len h
    rcases mapping_next h with hkept | ⟨rfl, rfl, hne⟩
    · exact hs.mapping k g len hkept
    · exact ⟨le_rfl, fun _ ↦ hs.size.resolve_left hne⟩
  · intro info g q h
    rcases receives_next h with hkept | ⟨rfl, hq⟩
    · exact hs.ready k info g q hkept
    · exact ⟨le_rfl, fun _ ↦ hs.found hq⟩

theorem Region.Ordered.exec (hs : s.Ordered) {e : RegionEvent} (h : s.exec e = some s') :
    s'.Ordered := by
  cases e with
  | start a =>
    simp only [Region.exec] at h
    split_ifs at h with hstart
    cases h
    exact hs.begin hstart.2
  | write =>
    simp only [Region.exec] at h
    split_ifs at h with halive
    cases htodo : s.todo with
    | nil =>
      rw [htodo] at h
      cases h
    | cons w ws =>
      rw [htodo] at h
      cases h
      exact hs.write halive htodo
  | die =>
    simp only [Region.exec] at h
    split_ifs at h with halive
    cases h
    exact hs.ended halive
  | use i widx ridx dropPackets dropBytes =>
    simp only [Region.exec] at h
    split_ifs at h with hsize
    cases h
    exact hs.used (fixed_used s.file i widx ridx dropPackets dropBytes)
  | dupOpen k =>
    simp only [Region.exec] at h
    split_ifs at h with hidle hcreated
    · cases h
      exact hs.setClient (fun g len h ↦ by cases h) fun info g q h ↦ by cases h
    · cases h
      exact hs.setClient (fun g len h ↦ by cases h) fun info g q h ↦ by cases h
  | dupLoop k queueId =>
    simp only [Region.exec] at h
    cases hk : s.clients k with
    | attached info =>
      rw [hk] at h
      cases h
      refine hs.setClient (fun g len h ↦ hs.mapping k g len ?_) fun info g q h ↦ by cases h
      rw [hk]
      exact h
    | _ =>
      rw [hk] at h
      cases h
  | step k =>
    cases h
    exact hs.step k
  | leave k =>
    cases h
    exact hs.setClient (fun g len h ↦ by cases h) fun info g q h ↦ by cases h

/-- A client that receives from a queue in the present generation of the file receives from one of its
queues, which is wholly written, as it is in the file when that is finished; and where it has seen the
size of the file in this generation too, its mapping is that file. -/
theorem accepted_queue_written {a : InitArgs} {es : List RegionEvent}
    (hrun : run Region.exec es (Region.start a) = some s) {info : AttachedInfo}
    (hk : s.clients k = .receives info s.gen q) :
    ∃ f, s.args.built = some f ∧ (q : ℤ) < s.args.numQueues.toInt ∧
      (s.file.queueAt q).fixed = (f.queueAt q).fixed ∧ s.file.size = f.size ∧
      (info.gen = s.gen → info.len = f.size) := by
  have hs : s.Ordered := run_preserves (fun _ _ _ hs h ↦ hs.exec h) (ordered_start a) hrun
  obtain ⟨hq, hbody⟩ := (hs.ready k info s.gen q hk).2 rfl
  have hdone : s.done ≠ [] := by
    intro hnil
    rw [hnil] at hbody
    cases List.prefix_nil.1 hbody
  obtain ⟨f, hf⟩ := Option.isSome_iff_exists.1 (hs.built (.inr hdone))
  have hwhole := writeAll_built hf
  have hview : (writeAll s.done).fixed.queue = f.fixed.queue := by
    rw [← hwhole]
    exact (publication s.args).view_eq hs.order hbody
  have hqueue : s.file.fixed.queue = f.fixed.queue := by
    rw [hs.file]
    exact hview
  have hsize : f.size = s.args.memSize := by
    rw [← hwhole]
    exact size_body List.prefix_rfl (List.prefix_append _ _)
  refine ⟨f, hf, hq, congrFun hqueue (dupShmQueue q), ?_, fun hgen ↦ ?_⟩
  · rw [hs.size_file, hsize]
    exact size_body hs.order hbody
  · rw [hsize]
    exact (hs.mapping k info.gen info.len (by rw [hk]; rfl)).2 hgen

def eth0Args : InitArgs := ⟨4096, some "eth0", 2, 2048, 4, 0⟩

/-- A first duplicator is killed between two stores; of the file of a second a client takes the size
before it has a header. -/
def eth0Events : List RegionEvent :=
  .start eth0Args :: List.replicate 7 .write ++ [.die, .start eth0Args, .write, .dupOpen 0, .step 0] ++
    List.replicate 23 .write ++ List.replicate 5 (.step 0) ++ [.dupLoop 0 1, .step 0, .step 0]

theorem accepted_queue_written_eth0 :
    ∃ s, run Region.exec eth0Events (Region.start eth0Args) = some s ∧
      ∃ f, s.args.built = some f ∧ ((1 : ℕ) : ℤ) < s.args.numQueues.toInt ∧
        (s.file.queueAt 1).fixed = (f.queueAt 1).fixed ∧ s.file.size = f.size ∧
        (2 = s.gen → 20480 = f.size) := by
  have hrun : (run Region.exec eth0Events (Region.start eth0Args)).map
      (fun s ↦ (s.gen, s.clients 0)) = some (2, .receives ⟨2, 20480, 20480, 2, 0⟩ 2 1) := by
    decide +kernel
  obtain ⟨s, hs, hstate⟩ := Option.map_eq_some_iff.1 hrun
  obtain ⟨hgen, hclient⟩ := Prod.mk.inj hstate
  refine ⟨s, hs, ?_⟩
  exact accepted_queue_written hs (by rw [hgen]; exact hclient)

end Dpa.Duplicator
