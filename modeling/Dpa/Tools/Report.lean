import Mathlib.Tactic

namespace Dpa.Tools

structure ThreadCounters where
  packets : UInt64
  bytes : UInt64
  errPackets : UInt64
  errBytes : UInt64

structure DupCounters extends ThreadCounters where
  drops : List (UInt64 × UInt64)

structure StatsT where
  packets : Int64
  bytes : Int64
  errPackets : Int64
  errBytes : Int64
  ts : ℤ
  deriving DecidableEq

structure DupStatsT extends StatsT where
  drops : List (Int64 × Int64)
  deriving DecidableEq

def readStats (targs : ThreadCounters) (now : ℤ) : StatsT :=
  ⟨targs.packets.toInt64, targs.bytes.toInt64, targs.errPackets.toInt64,
    targs.errBytes.toInt64, now⟩

def dupReadStats (targs : DupCounters) (now : ℤ) : DupStatsT :=
  ⟨readStats targs.toThreadCounters now, targs.drops.map fun d ↦ (d.1.toInt64, d.2.toInt64)⟩

/-- The check that both programs make of a sample. -/
def goneBack (cur prev : StatsT) : Bool :=
  cur.packets < prev.packets || cur.bytes < prev.bytes || cur.errPackets < prev.errPackets ||
    cur.errBytes < prev.errBytes || cur.ts < prev.ts

/-- The division of a `uint64_t` by a number of seconds, which traps where that is 0. -/
def perSecond (a : UInt64) (t : ℤ) : Option UInt64 := if t = 0 then none else some (a / UInt64.ofInt t)

/-- The integers that `print_stats` prints or converts. -/
structure Period where
  packetsDelta : UInt64
  bytesDelta : UInt64
  errPacketsDelta : UInt64
  errBytesDelta : UInt64
  hour : Int32
  min : Int32
  sec : Int32
  pps : UInt64
  bps : UInt64
  deriving DecidableEq

structure DupPeriod extends Period where
  dropDeltas : List (UInt64 × UInt64)

/-- `print_stats` of the receiver, `none` where it traps. -/
def printStats (cur prev : StatsT) : Option Period := do
  let packetsDelta := (cur.packets - prev.packets).toUInt64
  let bytesDelta := (cur.bytes - prev.bytes).toUInt64
  let tDelta := cur.ts - prev.ts
  let pps ← perSecond packetsDelta tDelta
  let bps ← perSecond (bytesDelta * 8) tDelta
  return {
    packetsDelta, bytesDelta, pps, bps
    errPacketsDelta := (cur.errPackets - prev.errPackets).toUInt64
    errBytesDelta := (cur.errBytes - prev.errBytes).toUInt64
    hour := Int32.ofInt (tDelta.tdiv 3600)
    min := Int32.ofInt ((tDelta.tmod 3600).tdiv 60)
    sec := Int32.ofInt (tDelta.tmod 60) }

def dupPrintStats (cur prev : DupStatsT) : Option DupPeriod :=
  (printStats cur.toStatsT prev.toStatsT).map fun period ↦
    { period with
      dropDeltas := List.zipWith (fun c p ↦ ((c.1 - p.1).toUInt64, (c.2 - p.2).toUInt64))
        cur.drops prev.drops }

inductive Outcome (S : Type)
  | baseline
  | rejected
  | printed (cur prev : S)
  | trapped
  deriving DecidableEq

structure Report (S : Type) where
  reset : Bool
  prevStats : ℕ → S

structure Printer (S : Type) where
  goneBack : S → S → Bool
  prints : S → S → Bool

def dupPrinter : Printer DupStatsT :=
  ⟨fun cur prev ↦ goneBack cur.toStatsT prev.toStatsT, fun cur prev ↦ (dupPrintStats cur prev).isSome⟩

def printer : Printer StatsT := ⟨goneBack, fun cur prev ↦ (printStats cur prev).isSome⟩

section

variable {S : Type}

/-- The body of the loop over the queues, `cur` being the sample of queue `i`. -/
def reportBody (p : Printer S) (s : Report S) (i : ℕ) (cur : S) : Outcome S × Option (Report S) :=
  let stored := { s with prevStats := Function.update s.prevStats i cur }
  if s.reset then (.baseline, some stored)
  else if p.goneBack cur (s.prevStats i) then (.rejected, some { s with reset := true })
  else if p.prints cur (s.prevStats i) then (.printed cur (s.prevStats i), some stored)
  else (.trapped, none)

def reportLoop (p : Printer S) (cur : ℕ → S) :
    List ℕ → Report S → List (ℕ × Outcome S) × Option (Report S)
  | [], s => ([], some s)
  | i :: is, s =>
    match reportBody p s i (cur i) with
    | (o, none) => ([(i, o)], none)
    | (o, some s') => ((i, o) :: (reportLoop p cur is s').1, (reportLoop p cur is s').2)

/-- A round of `stats_report` over the queues `is`. -/
def reportRound (p : Printer S) (cur : ℕ → S) (is : List ℕ) (s : Report S) :
    List (ℕ × Outcome S) × Option (Report S) :=
  ((reportLoop p cur is s).1, (reportLoop p cur is s).2.map fun s ↦ { s with reset := false })

/-- The report before round `r`, `samples r i` being what round `r` reads of queue `i`. -/
def reportAt (p : Printer S) (is : List ℕ) (prevStats : ℕ → S) (samples : ℕ → ℕ → S) :
    ℕ → Option (Report S)
  | 0 => some ⟨true, prevStats⟩
  | r + 1 => (reportAt p is prevStats samples r).bind fun s ↦ (reportRound p (samples r) is s).2

def reportEvents (p : Printer S) (is : List ℕ) (prevStats : ℕ → S) (samples : ℕ → ℕ → S) (r : ℕ) :
    List (ℕ × Outcome S) :=
  ((reportAt p is prevStats samples r).map fun s ↦ (reportRound p (samples r) is s).1).getD []

inductive Takes (p : Printer S) (s : Report S) (i : ℕ) (cur : S) :
    Outcome S → Option (Report S) → Prop
  | baseline (hreset : s.reset = true) :
    Takes p s i cur .baseline (some { s with prevStats := Function.update s.prevStats i cur })
  | rejected (hreset : s.reset = false) (hback : p.goneBack cur (s.prevStats i) = true) :
    Takes p s i cur .rejected (some { s with reset := true })
  | printed (hreset : s.reset = false) (hback : p.goneBack cur (s.prevStats i) = false) :
    Takes p s i cur (.printed cur (s.prevStats i))
      (some { s with prevStats := Function.update s.prevStats i cur })
  | trapped (hreset : s.reset = false) (htrap : p.prints cur (s.prevStats i) = false) :
    Takes p s i cur .trapped none

/-- What can happen to queue `i` in a round that starts in `s` without `reset`. -/
inductive Happens (p : Printer S) (is : List ℕ) (cur : ℕ → S) (s : Report S) (i : ℕ) :
    Outcome S → Prop
  | baseline (j : ℕ) (hlt : j < i) (hmem : (j, .rejected) ∈ (reportLoop p cur is s).1) :
    Happens p is cur s i .baseline
  | rejected (hback : p.goneBack (cur i) (s.prevStats i) = true) : Happens p is cur s i .rejected
  | printed (hback : p.goneBack (cur i) (s.prevStats i) = false) :
    Happens p is cur s i (.printed (cur i) (s.prevStats i))
  | trapped (htrap : p.prints (cur i) (s.prevStats i) = false) : Happens p is cur s i .trapped

end

/-- The number of samples that `stats_report` allocates and the bounds of its loop. -/
structure Bounds where
  numQueues : ℤ
  lbegin : ℤ
  lend : ℤ

/-- `lend` gets what `queue_id` was before its increment. -/
def reportBounds (queueId numQueues : ℤ) : Bounds :=
  if queueId ≥ 0 then ⟨1, queueId, queueId⟩ else ⟨numQueues, 0, numQueues⟩

def Bounds.indices (b : Bounds) : List ℕ :=
  List.range' b.lbegin.toNat (b.lend - b.lbegin).toNat

def dupSamples (targs : ℕ → ℕ → DupCounters) (time : ℕ → ℕ → ℤ) (r i : ℕ) : DupStatsT :=
  dupReadStats (targs r i) (time r i)

def samples (targs : ℕ → ℕ → ThreadCounters) (time : ℕ → ℕ → ℤ) (r i : ℕ) : StatsT :=
  readStats (targs r i) (time r i)

/-- `stats_report` of the duplicator: what happens in round `r`, which reads `targs r i` and
`time r i` for queue `i`. The samples that it has allocated hold `prevStats`. -/
def dupStatsReport (queueId numQueues : ℤ) (prevStats : ℕ → DupStatsT)
    (targs : ℕ → ℕ → DupCounters) (time : ℕ → ℕ → ℤ) : ℕ → List (ℕ × Outcome DupStatsT) :=
  reportEvents dupPrinter (reportBounds queueId numQueues).indices prevStats (dupSamples targs time)

def statsReport (queueId numQueues : ℤ) (prevStats : ℕ → StatsT)
    (targs : ℕ → ℕ → ThreadCounters) (time : ℕ → ℕ → ℤ) : ℕ → List (ℕ × Outcome StatsT) :=
  reportEvents printer (reportBounds queueId numQueues).indices prevStats (samples targs time)

section

variable {S : Type} {p : Printer S} {s s' : Report S} {cur : ℕ → S} {is : List ℕ} {i r : ℕ}
  {o : Outcome S} {c d : S} {prevStats : ℕ → S} {samples : ℕ → ℕ → S}

theorem printStats_isSome (cur prev : StatsT) :
    (printStats cur prev).isSome = decide (cur.ts - prev.ts ≠ 0) := by
  by_cases h : cur.ts - prev.ts = 0 <;> simp [printStats, perSecond, h]

theorem dupPrintStats_isSome (cur prev : DupStatsT) :
    (dupPrintStats cur prev).isSome = decide (cur.ts - prev.ts ≠ 0) := by
  rw [dupPrintStats, Option.isSome_map, printStats_isSome]

theorem takes_reportBody (p : Printer S) (s : Report S) (i : ℕ) (c : S) :
    Takes p s i c (reportBody p s i c).1 (reportBody p s i c).2 := by
  unfold reportBody
  dsimp only
  split_ifs with hreset hback hprints
  · exact .baseline hreset
  · exact .rejected (eq_false_of_ne_true hreset) hback
  · exact .printed (eq_false_of_ne_true hreset) (eq_false_of_ne_true hback)
  · exact .trapped (eq_false_of_ne_true hreset) (eq_false_of_ne_true hprints)

theorem takes_of_eq {t : Option (Report S)} (h : reportBody p s i c = (o, t)) :
    Takes p s i c o t := by
  have htakes := takes_reportBody p s i c
  rwa [h] at htakes

theorem reportBody_next (h : reportBody p s i c = (o, some s')) :
    (∀ j ≠ i, s'.prevStats j = s.prevStats j) ∧ (o ≠ .rejected → s'.prevStats i = c) ∧
      (s.reset = true → s'.reset = true) ∧ (s'.reset = true → s.reset = true ∨ o = .rejected) := by
  cases takes_of_eq h with
  | baseline hreset =>
    exact ⟨fun j hj ↦ Function.update_of_ne hj _ _, fun _ ↦ Function.update_self _ _ _, id, Or.inl⟩
  | rejected hreset hback =>
    exact ⟨fun _ _ ↦ rfl, fun hne ↦ absurd rfl hne, fun _ ↦ rfl, fun _ ↦ Or.inr rfl⟩
  | printed hreset hback =>
    exact ⟨fun j hj ↦ Function.update_of_ne hj _ _, fun _ ↦ Function.update_self _ _ _, id, Or.inl⟩

theorem reportLoop_some (h : reportBody p s i (cur i) = (o, some s')) (is : List ℕ) :
    reportLoop p cur (i :: is) s =
      ((i, o) :: (reportLoop p cur is s').1, (reportLoop p cur is s').2) := by
  rw [reportLoop, h]

theorem reportLoop_none (h : reportBody p s i (cur i) = (o, none)) :
    reportLoop p cur (i :: is) s = ([(i, o)], none) := by
  rw [reportLoop, h]

theorem mem_of_event (h : (i, o) ∈ (reportLoop p cur is s).1) : i ∈ is := by
  induction is generalizing s with
  | nil => cases h
  | cons j is ih =>
    cases hbody : reportBody p s j (cur j) with
    | mk o' t =>
      cases t with
      | none =>
        rw [reportLoop_none hbody, List.mem_singleton, Prod.mk.injEq] at h
        exact h.1 ▸ List.mem_cons_self
      | some s' =>
        rw [reportLoop_some hbody is, List.mem_cons, Prod.mk.injEq] at h
        rcases h with h | h
        · exact h.1 ▸ List.mem_cons_self
        · exact List.mem_cons_of_mem j (ih h)

/-- The state in which the loop comes to a queue: the baseline of the queue is that of before the
round, and where the loop has set `reset`, a queue before it was rejected. -/
theorem exists_reached (hsort : is.Pairwise (· < ·)) (h : (i, o) ∈ (reportLoop p cur is s).1) :
    ∃ s₁ : Report S, o = (reportBody p s₁ i (cur i)).1 ∧ s₁.prevStats i = s.prevStats i ∧
      (s.reset = true → s₁.reset = true) ∧ (s₁.reset = true →
        s.reset = true ∨ ∃ j < i, (j, Outcome.rejected) ∈ (reportLoop p cur is s).1) := by
  induction is generalizing s with
  | nil => cases h
  | cons j is ih =>
    obtain ⟨hlt, hsort⟩ := List.pairwise_cons.1 hsort
    cases hbody : reportBody p s j (cur j) with
    | mk o' t =>
      have hhere (hij : i = j ∧ o = o') : ∃ s₁ : Report S, o = (reportBody p s₁ i (cur i)).1 ∧
          s₁.prevStats i = s.prevStats i ∧ (s.reset = true → s₁.reset = true) ∧
          (s₁.reset = true → s.reset = true ∨
            ∃ k < i, (k, Outcome.rejected) ∈ (reportLoop p cur (j :: is) s).1) := by
        obtain ⟨rfl, rfl⟩ := hij
        exact ⟨s, by rw [hbody], rfl, id, Or.inl⟩
      cases t with
      | none =>
        rw [reportLoop_none hbody, List.mem_singleton, Prod.mk.injEq] at h
        exact hhere h
      | some s' =>
        have hcons := reportLoop_some hbody is
        rw [hcons, List.mem_cons, Prod.mk.injEq] at h
        rcases h with h | h
        · exact hhere h
        · obtain ⟨hother, -, hset, hreset⟩ := reportBody_next hbody
          have hji := hlt i (mem_of_event h)
          obtain ⟨s₁, ho, hprev, hset₁, hreset₁⟩ := ih hsort h
          refine ⟨s₁, ho, hprev.trans (hother i hji.ne'), fun hs ↦ hset₁ (hset hs), fun hs₁ ↦ ?_⟩
          rw [hcons]
          rcases hreset₁ hs₁ with hs' | ⟨k, hk, hmem⟩
          · exact (hreset hs').imp id fun ho' ↦ ⟨j, hji, by rw [ho']; exact List.mem_cons_self⟩
          · exact Or.inr ⟨k, hk, List.mem_cons_of_mem _ hmem⟩

theorem exists_event (h : (reportLoop p cur is s).2 = some s') (hi : i ∈ is) :
    ∃ o ≠ .trapped, (i, o) ∈ (reportLoop p cur is s).1 := by
  induction is generalizing s with
  | nil => cases hi
  | cons j is ih =>
    cases hbody : reportBody p s j (cur j) with
    | mk o' t =>
      cases t with
      | none =>
        rw [reportLoop_none hbody] at h
        cases h
      | some s₁ =>
        rw [reportLoop_some hbody is] at h ⊢
        rcases List.mem_cons.1 hi with rfl | hi
        · refine ⟨o', ?_, List.mem_cons_self⟩
          rintro rfl
          cases takes_of_eq hbody
        · obtain ⟨o, ho, hmem⟩ := ih h hi
          exact ⟨o, ho, List.mem_cons_of_mem _ hmem⟩

theorem prevStats_of_kept (hsort : is.Pairwise (· < ·)) (h : (reportLoop p cur is s).2 = some s')
    (hkept : ∀ j, (j, Outcome.rejected) ∉ (reportLoop p cur is s).1) :
    (∀ i ∈ is, s'.prevStats i = cur i) ∧ ∀ i ∉ is, s'.prevStats i = s.prevStats i := by
  induction is generalizing s with
  | nil =>
    obtain rfl := Option.some.inj h
    exact ⟨fun i hi ↦ (List.not_mem_nil hi).elim, fun _ _ ↦ rfl⟩
  | cons j is ih =>
    obtain ⟨hlt, hsort⟩ := List.pairwise_cons.1 hsort
    cases hbody : reportBody p s j (cur j) with
    | mk o' t =>
      cases t with
      | none =>
        rw [reportLoop_none hbody] at h
        cases h
      | some s₁ =>
        rw [reportLoop_some hbody is] at h hkept
        obtain ⟨hother, hstored, -, -⟩ := reportBody_next hbody
        obtain ⟨hin, hout⟩ := ih hsort h fun k hk ↦ hkept k (List.mem_cons_of_mem _ hk)
        refine ⟨fun i hi ↦ ?_, fun i hi ↦ ?_⟩
        · rcases List.mem_cons.1 hi with rfl | hi
          · rw [hout i fun hmem ↦ (hlt i hmem).false]
            refine hstored fun ho' ↦ hkept i ?_
            rw [ho']
            exact List.mem_cons_self
          · exact hin i hi
        · obtain ⟨hne, hi⟩ := not_or.1 (List.mem_cons.not.1 hi)
          exact (hout i hi).trans (hother i hne)

theorem event_of_reset (hsort : is.Pairwise (· < ·)) (hreset : s.reset = true)
    (h : (i, o) ∈ (reportLoop p cur is s).1) : o = .baseline := by
  obtain ⟨s₁, rfl, -, hset, -⟩ := exists_reached hsort h
  unfold reportBody
  rw [if_pos (hset hreset)]

theorem happens (hsort : is.Pairwise (· < ·)) (hreset : s.reset = false)
    (h : (i, o) ∈ (reportLoop p cur is s).1) :
    Happens p is cur s i o := by
  obtain ⟨s₁, ho, hprev, -, hreset₁⟩ := exists_reached hsort h
  have htakes := takes_reportBody p s₁ i (cur i)
  rw [← ho] at htakes
  generalize (reportBody p s₁ i (cur i)).2 = t at htakes
  cases htakes with
  | baseline hr =>
    obtain ⟨j, hlt, hmem⟩ := (hreset₁ hr).resolve_left (by rw [hreset]; exact Bool.false_ne_true)
    exact .baseline j hlt hmem
  | rejected hr hback => exact .rejected (hprev ▸ hback)
  | printed hr hback =>
    rw [hprev] at hback ⊢
    exact .printed hback
  | trapped hr htrap => exact .trapped (hprev ▸ htrap)

/-- After a rejection the next sample of the queue becomes its baseline, and every period is
printed against the sample of the same queue in the round before. -/
structure Rebaselines (samples : ℕ → ℕ → S) (events : ℕ → List (ℕ × Outcome S)) : Prop where
  renewed : ∀ r i o, (i, .rejected) ∈ events r → (i, o) ∈ events (r + 1) → o = .baseline
  own : ∀ r i cur prev, (i, .printed cur prev) ∈ events (r + 1) →
    cur = samples (r + 1) i ∧ prev = samples r i

/-- No sample of a queue is behind the one before it. -/
def Forward (p : Printer S) (is : List ℕ) (samples : ℕ → ℕ → S) : Prop :=
  ∀ r, ∀ i ∈ is, p.goneBack (samples (r + 1) i) (samples r i) = false

def Endless (p : Printer S) (is : List ℕ) (prevStats : ℕ → S) (samples : ℕ → ℕ → S) : Prop :=
  ∀ r, (reportAt p is prevStats samples r).isSome

theorem mem_reportEvents : (i, o) ∈ reportEvents p is prevStats samples r ↔
    ∃ s, reportAt p is prevStats samples r = some s ∧ (i, o) ∈ (reportLoop p (samples r) is s).1 := by
  unfold reportEvents
  cases reportAt p is prevStats samples r with
  | none => simp
  | some s => simp [reportRound]

theorem reportAt_succ (h : reportAt p is prevStats samples (r + 1) = some s') :
    ∃ s s₁, reportAt p is prevStats samples r = some s ∧
      (reportLoop p (samples r) is s).2 = some s₁ ∧ s' = { s₁ with reset := false } := by
  rw [reportAt, Option.bind_eq_some_iff] at h
  obtain ⟨s, hs, h⟩ := h
  obtain ⟨s₁, hs₁, rfl⟩ := Option.map_eq_some_iff.1 h
  exact ⟨s, s₁, hs, hs₁, rfl⟩

theorem reset_after_round (h : reportAt p is prevStats samples (r + 1) = some s') :
    s'.reset = false := by
  obtain ⟨-, s₁, -, -, rfl⟩ := reportAt_succ h
  rfl

theorem prevStats_after_round (hsort : is.Pairwise (· < ·))
    (hkept : ∀ j, (j, Outcome.rejected) ∉ reportEvents p is prevStats samples r)
    (h : reportAt p is prevStats samples (r + 1) = some s') (hi : i ∈ is) :
    s'.prevStats i = samples r i := by
  obtain ⟨s, s₁, hs, hloop, rfl⟩ := reportAt_succ h
  have hnone : ∀ j, (j, Outcome.rejected) ∉ (reportLoop p (samples r) is s).1 :=
    fun j hj ↦ hkept j (mem_reportEvents.2 ⟨s, hs, hj⟩)
  exact (prevStats_of_kept hsort hloop hnone).1 i hi

theorem not_rejected (prevStats : ℕ → S) (hsort : is.Pairwise (· < ·))
    (hback : Forward p is samples) (r i : ℕ) :
    (i, Outcome.rejected) ∉ reportEvents p is prevStats samples r := by
  induction r generalizing i with
  | zero =>
    rintro h
    obtain ⟨s, hs, hmem⟩ := mem_reportEvents.1 h
    obtain rfl := Option.some.inj hs
    cases event_of_reset hsort rfl hmem
  | succ r ih =>
    rintro h
    obtain ⟨s, hs, hmem⟩ := mem_reportEvents.1 h
    have hi := mem_of_event hmem
    cases happens hsort (reset_after_round hs) hmem with
    | rejected hgone =>
      rw [prevStats_after_round hsort ih hs hi, hback r i hi] at hgone
      cases hgone

theorem rebaselines_of_forward (hsort : is.Pairwise (· < ·)) (hback : Forward p is samples) :
    Rebaselines samples (reportEvents p is prevStats samples) := by
  have hkept := not_rejected prevStats hsort hback
  refine ⟨fun r i o h _ ↦ absurd h (hkept r i), fun r i c d h ↦ ?_⟩
  obtain ⟨s, hs, hmem⟩ := mem_reportEvents.1 h
  have hi := mem_of_event hmem
  cases happens hsort (reset_after_round hs) hmem with
  | printed hfwd => exact ⟨rfl, prevStats_after_round hsort (hkept r) hs hi⟩

theorem Endless.event (he : Endless p is prevStats samples) (r : ℕ) (hi : i ∈ is) :
    ∃ o ≠ .trapped, (i, o) ∈ reportEvents p is prevStats samples r := by
  obtain ⟨s', hs'⟩ := Option.isSome_iff_exists.1 (he (r + 1))
  obtain ⟨s, s₁, hs, hloop, -⟩ := reportAt_succ hs'
  obtain ⟨o, ho, hmem⟩ := exists_event hloop hi
  exact ⟨o, ho, mem_reportEvents.2 ⟨s, hs, hmem⟩⟩

/-- A rejection would be followed by that of a queue before it in the next round, and so on. -/
theorem Rebaselines.not_rejected (hsort : is.Pairwise (· < ·)) (he : Endless p is prevStats samples)
    (h : Rebaselines samples (reportEvents p is prevStats samples)) (r i : ℕ) :
    (i, Outcome.rejected) ∉ reportEvents p is prevStats samples r := by
  induction i using Nat.strong_induction_on generalizing r with
  | _ i ih =>
    intro hrej
    have hi : i ∈ is := by
      obtain ⟨s, -, hmem⟩ := mem_reportEvents.1 hrej
      exact mem_of_event hmem
    obtain ⟨o, -, hnext⟩ := he.event (r + 1) hi
    obtain rfl := h.renewed r i o hrej hnext
    obtain ⟨s, hs, hmem⟩ := mem_reportEvents.1 hnext
    cases happens hsort (reset_after_round hs) hmem with
    | baseline j hji hj => exact ih j hji (r + 1) (mem_reportEvents.2 ⟨s, hs, hj⟩)

theorem forward_of_rebaselines (hsort : is.Pairwise (· < ·)) (he : Endless p is prevStats samples)
    (h : Rebaselines samples (reportEvents p is prevStats samples)) : Forward p is samples := by
  intro r i hi
  have hkept := h.not_rejected hsort he
  obtain ⟨o, htrap, hevent⟩ := he.event (r + 1) hi
  obtain ⟨s, hs, hmem⟩ := mem_reportEvents.1 hevent
  cases happens hsort (reset_after_round hs) hmem with
  | baseline j hji hj => exact absurd (mem_reportEvents.2 ⟨s, hs, hj⟩) (hkept (r + 1) j)
  | rejected hgone => exact absurd hevent (hkept (r + 1) i)
  | printed hfwd => rwa [prevStats_after_round hsort (hkept r) hs hi] at hfwd
  | trapped hprints => exact absurd rfl htrap

theorem exists_trapped (h : (reportLoop p cur is s).2 = none) :
    ∃ i, (i, Outcome.trapped) ∈ (reportLoop p cur is s).1 := by
  induction is generalizing s with
  | nil => cases h
  | cons j is ih =>
    cases hbody : reportBody p s j (cur j) with
    | mk o t =>
      cases t with
      | none =>
        rw [reportLoop_none hbody]
        cases takes_of_eq hbody
        exact ⟨j, List.mem_cons_self⟩
      | some s₁ =>
        rw [reportLoop_some hbody is] at h ⊢
        obtain ⟨i, hmem⟩ := ih h
        exact ⟨i, List.mem_cons_of_mem _ hmem⟩

theorem endless_of_prints (prevStats : ℕ → S) (hsort : is.Pairwise (· < ·)) (hback : Forward p is samples)
    (hprints : ∀ r, ∀ i ∈ is, p.prints (samples (r + 1) i) (samples r i) = true) :
    Endless p is prevStats samples := by
  intro r
  induction r with
  | zero => rfl
  | succ r ih =>
    obtain ⟨s, hs⟩ := Option.isSome_iff_exists.1 ih
    rw [reportAt, hs, Option.bind_some, reportRound, Option.isSome_map, Option.isSome_iff_ne_none]
    intro hnone
    obtain ⟨i, hmem⟩ := exists_trapped hnone
    have hi := mem_of_event hmem
    cases r with
    | zero =>
      obtain rfl := Option.some.inj hs
      cases event_of_reset hsort rfl hmem
    | succ r =>
      have hprev := prevStats_after_round hsort (not_rejected prevStats hsort hback r) hs hi
      cases happens hsort (reset_after_round hs) hmem with
      | trapped htrap =>
        rw [hprev, hprints r i hi] at htrap
        cases htrap

end

theorem Bounds.indices_sorted (b : Bounds) : b.indices.Pairwise (· < ·) := List.pairwise_lt_range'

theorem mem_indices {queueId numQueues : ℤ} {i : ℕ} :
    i ∈ (reportBounds queueId numQueues).indices ↔ queueId < 0 ∧ (i : ℤ) < numQueues := by
  unfold reportBounds Bounds.indices
  split_ifs with hq
  · simp
    omega
  · simp
    omega

/-- The reports set a new baseline after a rejection in no run but those that reject nothing. -/
theorem rebaselines_iff (queueId numQueues : ℤ) :
    (∀ prevStats targs time,
      (Forward dupPrinter (reportBounds queueId numQueues).indices (dupSamples targs time) →
        Rebaselines (dupSamples targs time)
          (dupStatsReport queueId numQueues prevStats targs time)) ∧
      (Endless dupPrinter (reportBounds queueId numQueues).indices prevStats
          (dupSamples targs time) →
        Rebaselines (dupSamples targs time)
          (dupStatsReport queueId numQueues prevStats targs time) →
        Forward dupPrinter (reportBounds queueId numQueues).indices (dupSamples targs time))) ∧
    ∀ prevStats targs time,
      (Forward printer (reportBounds queueId numQueues).indices (samples targs time) →
        Rebaselines (samples targs time) (statsReport queueId numQueues prevStats targs time)) ∧
      (Endless printer (reportBounds queueId numQueues).indices prevStats (samples targs time) →
        Rebaselines (samples targs time) (statsReport queueId numQueues prevStats targs time) →
        Forward printer (reportBounds queueId numQueues).indices (samples targs time)) := by
  have hsort := (reportBounds queueId numQueues).indices_sorted
  exact ⟨fun _ _ _ ↦ ⟨rebaselines_of_forward hsort, forward_of_rebaselines hsort⟩,
    fun _ _ _ ↦ ⟨rebaselines_of_forward hsort, forward_of_rebaselines hsort⟩⟩

def idleQueue (_ _ : ℕ) : DupCounters := ⟨⟨0, 0, 0, 0⟩, []⟩

/-- A clock that is set back by 300 seconds once, after the first round. -/
def steppedClock (r _ : ℕ) : ℤ := if r = 0 then 1000 else 700 + 5 * r

theorem idleQueue_rejected_twice :
    (0, Outcome.rejected) ∈ dupStatsReport (-1) 1 (dupSamples idleQueue steppedClock 0) idleQueue
      steppedClock 1 ∧
    (0, Outcome.rejected) ∈ dupStatsReport (-1) 1 (dupSamples idleQueue steppedClock 0) idleQueue
      steppedClock 2 ∧
    ¬Rebaselines (dupSamples idleQueue steppedClock) (dupStatsReport (-1) 1
      (dupSamples idleQueue steppedClock 0) idleQueue steppedClock) := by
  have h₁ : (0, Outcome.rejected) ∈ dupStatsReport (-1) 1 (dupSamples idleQueue steppedClock 0)
      idleQueue steppedClock 1 := by decide
  have h₂ : (0, Outcome.rejected) ∈ dupStatsReport (-1) 1 (dupSamples idleQueue steppedClock 0)
      idleQueue steppedClock 2 := by decide
  refine ⟨h₁, h₂, fun h ↦ ?_⟩
  cases h.renewed 1 0 _ h₁ h₂

def evenClock (r _ : ℕ) : ℤ := 1000 + 5 * r

theorem rebaselines_iff_evenClock :
    Rebaselines (dupSamples idleQueue evenClock)
      (dupStatsReport (-1) 2 (dupSamples idleQueue evenClock 0) idleQueue evenClock) ∧
    Forward dupPrinter (reportBounds (-1) 2).indices (dupSamples idleQueue evenClock) := by
  obtain ⟨hto, hfrom⟩ := (rebaselines_iff (-1) 2).1 (dupSamples idleQueue evenClock 0) idleQueue
    evenClock
  have hlater (r i : ℕ) : (dupSamples idleQueue evenClock (r + 1) i).ts -
      (dupSamples idleQueue evenClock r i).ts = 5 := by
    simp only [dupSamples, dupReadStats, readStats, evenClock]
    push_cast
    omega
  have hfwd : Forward dupPrinter (reportBounds (-1) 2).indices (dupSamples idleQueue evenClock) := by
    intro r i _
    have hts := hlater r i
    simp only [dupPrinter, goneBack, Bool.or_eq_false_iff, decide_eq_false_iff_not]
    refine ⟨⟨⟨⟨?_, ?_⟩, ?_⟩, ?_⟩, by omega⟩ <;> exact Int64.lt_irrefl
  have hends := endless_of_prints (dupSamples idleQueue evenClock 0)
    (Bounds.indices_sorted _) hfwd fun r i _ ↦ by
      simp only [dupPrinter, dupPrintStats_isSome, hlater r i]
      decide
  have hreb := hto hfwd
  exact ⟨hreb, hfrom hends hreb⟩

end Dpa.Tools
