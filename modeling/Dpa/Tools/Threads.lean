import Dpa.Library.MachineWord
import Dpa.Tools.Report

namespace Dpa.Tools

open MachineWord

/-- The options that the creation of threads and the report read, in both programs. -/
structure Options where
  queueId : ℤ
  copies : ℕ
  affinityFlag : Bool
  affinityBegin : ℤ
  affinityEnd : ℤ
  numQueues : ℤ

/-- What the system answers for entry `i` of the thread table, and whether the shared memory of
copy `j` is there. -/
structure ThreadSystem where
  openDpa : ℕ → ℤ
  regIf : ℕ → Bool
  pthreadCreate : ℕ → ℤ
  shmaddr : ℕ → Bool

structure ThreadArgs where
  used : Bool
  fd : ℤ
  queueId : ℕ
  affinity : ℤ
  copies : ℕ
  outQueue : List (Option ℕ)
  deriving DecidableEq

def blankArgs : ThreadArgs := ⟨false, 0, 0, 0, 0, []⟩

def bindCpu (opt : Options) (affinity : ℤ) : ℤ × ℤ :=
  if opt.affinityFlag then
    if affinity > opt.affinityEnd then (-1, affinity) else (affinity, s32 (affinity + 1))
  else (-1, affinity)

def Options.queueOf (opt : Options) (i : ℕ) : ℕ :=
  if opt.queueId = -1 then u16 i else u16 opt.queueId

/-- The body of the loop of `dup_create_threads`. -/
def dupCreateThread (opt : Options) (sys : ThreadSystem) (i : ℕ) (affinity : ℤ) : ThreadArgs × ℤ :=
  if sys.openDpa i = -1 then ({ blankArgs with fd := -1 }, affinity)
  else
    let targs : ThreadArgs := {
      used := false
      fd := sys.openDpa i
      queueId := opt.queueOf i
      affinity := (bindCpu opt affinity).1
      copies := opt.copies
      outQueue := (List.range opt.copies).map fun j ↦ if sys.shmaddr j then some i else none }
    if !sys.regIf i then (targs, (bindCpu opt affinity).2)
    else ({ targs with used := sys.pthreadCreate i != -1 }, (bindCpu opt affinity).2)

/-- The body of the loop of the receiver's `create_threads`. -/
def createThread (opt : Options) (sys : ThreadSystem) (i : ℕ) (affinity : ℤ) : ThreadArgs × ℤ :=
  ({ blankArgs with
      used := sys.pthreadCreate i != -1
      queueId := opt.queueOf i
      affinity := (bindCpu opt affinity).1 }, (bindCpu opt affinity).2)

def threadTable (create : ℕ → ℤ → ThreadArgs × ℤ) : ℕ → ℕ → ℤ → List ThreadArgs
  | 0, _, _ => []
  | n + 1, i, affinity =>
    (create i affinity).1 :: threadTable create n (i + 1) (create i affinity).2

/-- `dup_create_threads`: whether it succeeds, and `g_targs`. -/
def dupCreateThreads (opt : Options) (sys : ThreadSystem) : Bool × List ThreadArgs :=
  ((List.range opt.numQueues.toNat).any fun i ↦ sys.openDpa i != -1 && sys.regIf i,
    threadTable (dupCreateThread opt sys) opt.numQueues.toNat 0 opt.affinityBegin)

def createThreads (opt : Options) (sys : ThreadSystem) : Bool × List ThreadArgs :=
  (decide (0 < opt.numQueues),
    threadTable (createThread opt sys) opt.numQueues.toNat 0 opt.affinityBegin)

/-- What the duplicator's `main` makes of `num_queues`, `none` where it gives up. -/
def dupSetQueues (opt : Options) (numRxQueues : ℕ) : Option Options :=
  if numRxQueues = 0 then none
  else if opt.queueId ≥ numRxQueues then none
  else some { opt with numQueues := if opt.queueId ≥ 0 then 1 else numRxQueues }

def setQueues (opt : Options) (numQueues : ℕ) : Options := { opt with numQueues := s32 numQueues }

def dupStarts (sys : ThreadSystem) (i : ℕ) : Bool :=
  sys.openDpa i != -1 && sys.regIf i && sys.pthreadCreate i == 0

def starts (sys : ThreadSystem) (i : ℕ) : Bool := sys.pthreadCreate i == 0

def Requested (n : ℕ) (queueId : ℤ) (q : ℕ) : Prop :=
  if queueId = -1 then q < n else (q : ℤ) = queueId

/-- The threads that run serve distinct queues of those asked for, all of them where every thread
runs, and a round of the report stays inside its tables and comes to each of them once. -/
structure Covers (requested : ℕ → Prop) (starts : ℕ → Bool) (table : List ThreadArgs)
    (report : Bounds) : Prop where
  distinct : ∀ i j (t u : ThreadArgs), table[i]? = some t → table[j]? = some u →
    starts i = true → starts j = true → t.queueId = u.queueId → i = j
  served : ∀ i (t : ThreadArgs), table[i]? = some t → starts i = true → requested t.queueId
  all : (∀ i < table.length, starts i = true) → ∀ q, requested q →
    ∃ (i : ℕ) (t : ThreadArgs), table[i]? = some t ∧ t.queueId = q
  bound : ∀ i ∈ report.indices, i < table.length ∧ (i : ℤ) < report.numQueues
  once : ∀ i < table.length, starts i = true → report.indices.count i = 1

section

variable {create : ℕ → ℤ → ThreadArgs × ℤ} {n i j : ℕ} {affinity : ℤ} {t : ThreadArgs}
  {opt : Options} {sys : ThreadSystem} {starts : ℕ → Bool} {table : List ThreadArgs}

theorem length_threadTable (create : ℕ → ℤ → ThreadArgs × ℤ) (n i : ℕ) (affinity : ℤ) :
    (threadTable create n i affinity).length = n := by
  induction n generalizing i affinity with
  | zero => rfl
  | succ n ih => rw [threadTable, List.length_cons, ih]

theorem threadTable_forall {P : ℕ → ThreadArgs → Prop} (hP : ∀ i a, P i (create i a).1)
    (h : (threadTable create n i affinity)[j]? = some t) : P (i + j) t := by
  induction n generalizing i j affinity with
  | zero => cases h
  | succ n ih =>
    rw [threadTable] at h
    cases j with
    | zero =>
      obtain rfl := Option.some.inj h
      exact hP i affinity
    | succ j =>
      have hrest := ih h
      rwa [Nat.add_right_comm, Nat.add_assoc] at hrest

theorem dupCreateThreads_queueId (h : (dupCreateThreads opt sys).2[i]? = some t)
    (hi : dupStarts sys i = true) : t.queueId = opt.queueOf i := by
  have hP := threadTable_forall (P := fun i t ↦ dupStarts sys i = true → t.queueId = opt.queueOf i)
    (fun i a hi ↦ by
      simp only [dupStarts, Bool.and_eq_true, bne_iff_ne] at hi
      unfold dupCreateThread
      rw [if_neg hi.1.1]
      split_ifs <;> rfl) h
  rw [Nat.zero_add] at hP
  exact hP hi

theorem createThreads_queueId (h : (createThreads opt sys).2[i]? = some t) :
    t.queueId = opt.queueOf i := by
  have hP := threadTable_forall (P := fun i t ↦ t.queueId = opt.queueOf i) (fun _ _ ↦ rfl) h
  rwa [Nat.zero_add] at hP

theorem count_indices {queueId numQueues : ℤ} (hq : queueId < 0) (hi : (i : ℤ) < numQueues) :
    (reportBounds queueId numQueues).indices.count i = 1 :=
  List.count_eq_one_of_mem ((Bounds.indices_sorted _).imp fun h ↦ h.ne) (mem_indices.2 ⟨hq, hi⟩)

theorem lt_of_entry (h : table[i]? = some t) : i < table.length :=
  (List.getElem?_eq_some_iff.1 h).1

/-- With a queue option no index is reported. -/
theorem notMem_indices {queueId numQueues : ℤ} (hq : 0 ≤ queueId) (i : ℕ) :
    i ∉ (reportBounds queueId numQueues).indices := by
  intro hi
  have hmem := mem_indices.1 hi
  omega

theorem covers_all (hall : opt.queueId = -1) (hw : table.length < 2 ^ 16)
    (hlen : (table.length : ℤ) = opt.numQueues) (hn : n = table.length)
    (hqueue : ∀ i t, table[i]? = some t → starts i = true → t.queueId = opt.queueOf i) :
    Covers (Requested n opt.queueId) starts table (reportBounds opt.queueId opt.numQueues) := by
  have hid : ∀ i t, table[i]? = some t → starts i = true → t.queueId = i := by
    intro i t hi hs
    have hlt := lt_of_entry hi
    rw [hqueue i t hi hs, Options.queueOf, if_pos hall, u16_natCast]
    exact Nat.mod_eq_of_lt (by omega)
  refine ⟨?_, ?_, ?_, ?_, ?_⟩
  · intro i j t u hi hj hsi hsj heq
    rwa [hid i t hi hsi, hid j u hj hsj] at heq
  · intro i t hi hs
    rw [Requested, if_pos hall, hid i t hi hs, hn]
    exact lt_of_entry hi
  · intro hs q hreq
    rw [Requested, if_pos hall, hn] at hreq
    have hentry := List.getElem?_eq_getElem hreq
    exact ⟨q, table[q], hentry, hid q table[q] hentry (hs q hreq)⟩
  · intro i hi
    have hmem := mem_indices.1 hi
    rw [reportBounds, if_neg (by omega)]
    exact ⟨by omega, hmem.2⟩
  · intro i hi _
    exact count_indices (by omega) (by omega)

/-- With a queue option, only where no thread runs. -/
theorem covers_given_iff {requested : ℕ → Prop} {queueId numQueues : ℤ} (hgiven : 0 ≤ queueId)
    (hpos : 0 < table.length) :
    Covers requested starts table (reportBounds queueId numQueues) ↔
      ∀ i < table.length, starts i = false := by
  constructor
  · intro hc i hi
    by_contra hstarts
    have hcount := hc.once i hi (eq_true_of_ne_false hstarts)
    exact notMem_indices hgiven i (List.count_pos_iff.1 (hcount ▸ Nat.one_pos))
  · intro hnone
    have hstarts : ∀ i < table.length, starts i ≠ true := by
      intro i hi hs
      rw [hnone i hi] at hs
      cases hs
    refine ⟨?_, ?_, ?_, ?_, ?_⟩
    · intro i j t u hi _ hs
      exact absurd hs (hstarts i (lt_of_entry hi))
    · intro i t hi hs
      exact absurd hs (hstarts i (lt_of_entry hi))
    · intro hs
      exact absurd (hs 0 hpos) (hstarts 0 hpos)
    · intro i hi
      exact absurd hi (notMem_indices hgiven i)
    · intro i hi hs
      exact absurd hs (hstarts i hi)

theorem covers_table_iff (opt : Options) (starts : ℕ → Bool) (hw : n < 2 ^ 16)
    (hq : opt.queueId = -1 ∧ opt.numQueues = n ∨ 0 ≤ opt.queueId)
    (hlen : (table.length : ℤ) = opt.numQueues) (hpos : 0 < table.length)
    (hqueue : ∀ i t, table[i]? = some t → starts i = true → t.queueId = opt.queueOf i) :
    Covers (Requested n opt.queueId) starts table (reportBounds opt.queueId opt.numQueues) ↔
      opt.queueId = -1 ∨ ∀ i < table.length, starts i = false := by
  rcases hq with ⟨hall, hn⟩ | hgiven
  · have htable : n = table.length := by omega
    exact iff_of_true (covers_all hall (htable ▸ hw) hlen htable hqueue) (Or.inl hall)
  · have hne : opt.queueId ≠ -1 := by omega
    rw [covers_given_iff hgiven hpos, or_iff_right hne]

end

/-- The threads of the duplicator and of the receiver for a device of `n` queues, and their
reports: with a queue option the round of the report is empty. -/
theorem covers_iff {n : ℕ} (opt : Options) (sys : ThreadSystem) (hn : 0 < n) (hw : n < 2 ^ 16)
    (hq : opt.queueId = -1 ∨ 0 ≤ opt.queueId ∧ opt.queueId < n) :
    (∃ opt', dupSetQueues opt n = some opt' ∧
      (Covers (Requested n opt'.queueId) (dupStarts sys) (dupCreateThreads opt' sys).2
          (reportBounds opt'.queueId opt'.numQueues) ↔
        opt.queueId = -1 ∨ dupStarts sys 0 = false)) ∧
    (Covers (Requested n opt.queueId) (starts sys) (createThreads (setQueues opt n) sys).2
        (reportBounds opt.queueId (setQueues opt n).numQueues) ↔
      opt.queueId = -1 ∨ ∀ i < n, starts sys i = false) := by
  constructor
  · refine ⟨{ opt with numQueues := if opt.queueId ≥ 0 then 1 else n }, ?_, ?_⟩
    · rw [dupSetQueues, if_neg hn.ne', if_neg (by omega)]
    · have hlen : (dupCreateThreads { opt with numQueues := if opt.queueId ≥ 0 then 1 else n }
          sys).2.length = if opt.queueId ≥ 0 then 1 else n := by
        rw [dupCreateThreads, length_threadTable]
        split_ifs <;> rfl
      rw [covers_table_iff _ _ hw ?_ ?_ ?_ fun i t hi hs ↦ dupCreateThreads_queueId hi hs]
      · refine or_congr_right' fun hne : ¬opt.queueId = -1 ↦ ?_
        rw [hlen, if_pos (by omega)]
        exact ⟨fun h ↦ h 0 Nat.one_pos, fun h i hi ↦ by rwa [Nat.lt_one_iff.1 hi]⟩
      · refine hq.imp (fun hall ↦ ⟨hall, ?_⟩) And.left
        exact if_neg (by rw [hall]; decide)
      · rw [hlen]
        split_ifs <;> rfl
      · rw [hlen]
        split_ifs <;> omega
  · have hnum : (setQueues opt n).numQueues = n := by
      rw [setQueues]
      exact s32_of_mem (by omega) (by omega)
    have hlen : (createThreads (setQueues opt n) sys).2.length = n := by
      rw [createThreads, length_threadTable, hnum]
      rfl
    have hqueue : (setQueues opt n).queueId = opt.queueId := by rw [setQueues]
    rw [← hqueue] at hq ⊢
    have hqueues : (setQueues opt n).queueId = -1 ∧ (setQueues opt n).numQueues = n ∨
        0 ≤ (setQueues opt n).queueId := hq.imp (fun hall ↦ ⟨hall, hnum⟩) fun h ↦ h.1
    rw [covers_table_iff (setQueues opt n) (starts sys) hw hqueues (by rw [hlen, hnum])
      (by rw [hlen]; exact hn) fun i t hi _ ↦ createThreads_queueId hi, hlen]

def queueOption (queueId : ℤ) : Options := ⟨queueId, 3, false, -1, -1, 0⟩

def calmSystem : ThreadSystem := ⟨fun i ↦ 5 + i, fun _ ↦ true, fun _ ↦ 0, fun _ ↦ true⟩

theorem secondQueue_not_covered :
    (reportBounds 1 1).indices = [] ∧
    ¬Covers (Requested 2 1) (dupStarts calmSystem)
      (dupCreateThreads { queueOption 1 with numQueues := 1 } calmSystem).2 (reportBounds 1 1) ∧
    (createThreads (setQueues (queueOption 1) 2) calmSystem).2.map ThreadArgs.queueId = [1, 1] ∧
    ¬Covers (Requested 2 1) (starts calmSystem)
      (createThreads (setQueues (queueOption 1) 2) calmSystem).2 (reportBounds 1 2) := by
  refine ⟨rfl, fun h ↦ ?_, by decide, fun h ↦ ?_⟩
  · have hcount := h.once 0 (by decide) (by decide)
    revert hcount
    decide
  · cases h.distinct 0 1 _ _ rfl rfl (by decide) (by decide) (by decide)

theorem covers_iff_twoQueues :
    (∃ opt', dupSetQueues (queueOption (-1)) 2 = some opt' ∧
      Covers (Requested 2 opt'.queueId) (dupStarts calmSystem) (dupCreateThreads opt' calmSystem).2
        (reportBounds opt'.queueId opt'.numQueues)) ∧
    Covers (Requested 2 (-1)) (starts calmSystem)
      (createThreads (setQueues (queueOption (-1)) 2) calmSystem).2
      (reportBounds (-1) (setQueues (queueOption (-1)) 2).numQueues) := by
  obtain ⟨⟨opt', hset, hdup⟩, hreceiver⟩ := covers_iff (queueOption (-1)) calmSystem
    (Nat.succ_pos 1) (by decide) (Or.inl rfl)
  exact ⟨⟨opt', hset, hdup.2 (Or.inl rfl)⟩, hreceiver.2 (Or.inl rfl)⟩

end Dpa.Tools
