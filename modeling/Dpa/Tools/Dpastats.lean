import Dpa.Client.DupStats
import Dpa.Library.Machine
import Dpa.Tools.Report

namespace Dpa.Tools.Dpastats

open Client (DpaError dpaStatsOpDrops)
open Driver (isSet)
open Library

def dpaStatsOpPackets : BitVec 32 := 1
def dpaStatsOpBytes : BitVec 32 := 2
def dpaStatsOpErrors : BitVec 32 := 8

structure Timeval where
  tvSec : ℤ
  tvUsec : ℤ
  deriving DecidableEq

/-- `dpa_stats_t`, with both fields of its time. -/
structure DpaStats where
  enabled : Bool
  packets : UInt64
  bytes : UInt64
  drops : UInt64
  errors : UInt64
  ts : Timeval
  deriving DecidableEq

/-- The integers that `output_stats` prints or converts of a counter: what it has grown by, what
it is, and for two of them the growth a second. -/
structure Output where
  delta : UInt64
  total : UInt64
  rate : UInt64

structure OutputPeriod where
  number : UInt64
  packets : Option Output
  bytes : Option Output
  drops : Option (UInt64 × UInt64)
  errors : Option (UInt64 × UInt64)

def outputRate (asked : Bool) (unit cur prev : UInt64) (tDelta : ℤ) : Option (Option Output) :=
  if asked then
    (perSecond ((cur - prev) * unit) tDelta).map fun rate ↦ some ⟨cur - prev, cur, rate⟩
  else some none

def outputCount (asked : Bool) (cur prev : UInt64) : Option (UInt64 × UInt64) :=
  if asked then some (cur - prev, cur) else none

/-- `output_stats` after `loop` periods, `none` where it traps. -/
def outputStats (loop : UInt64) (opCode : BitVec 32) (cur prev : DpaStats) : Option OutputPeriod := do
  let tDelta := cur.ts.tvSec - prev.ts.tvSec
  let packets ← outputRate (isSet opCode dpaStatsOpPackets) 1 cur.packets prev.packets tDelta
  let bytes ← outputRate (isSet opCode dpaStatsOpBytes) 8 cur.bytes prev.bytes tDelta
  return {
    number := loop + 1
    packets, bytes
    drops := outputCount (isSet opCode dpaStatsOpDrops) cur.drops prev.drops
    errors := outputCount (isSet opCode dpaStatsOpErrors) cur.errors prev.errors }

def corrupted (cur prev : DpaStats) : Bool :=
  cur.packets < prev.packets || cur.bytes < prev.bytes || cur.drops < prev.drops ||
    cur.errors < prev.errors || cur.ts.tvSec < prev.ts.tvSec ||
    (cur.ts.tvSec == prev.ts.tvSec && decide (cur.ts.tvUsec < prev.ts.tvUsec))

/-- The options that the loop reads, and whether the output file for the day of a sample can be
opened, which is asked only where files are kept by day. -/
structure Options where
  loopTimes : ℤ
  opCode : BitVec 32
  autoExit : Bool
  opens : DpaStats → Bool

def Options.breaker (opt : Options) : UInt64 := if opt.loopTimes ≠ 0 then 1 else 0

inductive Exit
  | finished
  | noReceiver
  | noFile
  | trapped
  deriving DecidableEq

/-- The variables of `stats_report` and the pairs of samples that it has printed as periods. -/
structure StatsReport where
  reset : Bool
  loop : UInt64
  prevStats : DpaStats
  periods : List (DpaStats × DpaStats)
  exit : Option Exit

/-- The end of the loop's body, for a sample that is no error. -/
def acceptSample (opt : Options) (cur : DpaStats) (s : StatsReport) : StatsReport :=
  if opt.autoExit && !cur.enabled then { s with exit := some .noReceiver }
  else
    { s with
      prevStats := cur
      loop := s.loop - 1
      exit := if s.loop - 1 < opt.breaker then some .finished else none }

/-- The loop's body on what `dpa_get_dev_stats` or `dpa_get_queue_stats` gives. -/
def reportSample (opt : Options) (s : StatsReport) (x : Except DpaError DpaStats) : StatsReport :=
  if s.exit.isSome then s
  else
    match x with
    | .error _ => { s with reset := true }
    | .ok cur =>
      if !opt.opens cur then { s with exit := some .noFile }
      else if !s.reset then
        if corrupted cur s.prevStats then { s with reset := true }
        else if (outputStats s.periods.length.toUInt64 opt.opCode cur s.prevStats).isNone then
          { s with exit := some .trapped }
        else acceptSample opt cur { s with periods := s.periods ++ [(cur, s.prevStats)] }
      else acceptSample opt cur { s with reset := false, loop := s.loop + 1 }

def reportStart (opt : Options) (prevStats : DpaStats) : StatsReport :=
  ⟨true, UInt64.ofInt opt.loopTimes, prevStats, [], none⟩

/-- `stats_report` once the samples `xs` are taken. -/
def statsReport (opt : Options) (prevStats : DpaStats) (xs : List (Except DpaError DpaStats)) :
    StatsReport :=
  xs.foldl (reportSample opt) (reportStart opt prevStats)

def rated (opCode : BitVec 32) : Bool := isSet opCode dpaStatsOpPackets || isSet opCode dpaStatsOpBytes

/-- The body finds its file and divides by no zero. -/
def Undisturbed (opt : Options) (s : StatsReport) (x : Except DpaError DpaStats) : Prop :=
  ∀ cur, s.exit = none → x = .ok cur → opt.opens cur = true ∧
    (s.reset = false → corrupted cur s.prevStats = false → rated opt.opCode = true →
      cur.ts.tvSec ≠ s.prevStats.ts.tvSec)

/-- A report of `L` periods: it has not ended before the last of them and has ended with it, and
each is that of two samples one directly after the other. If `L` is 0 it does not end. -/
structure Counts (L : ℕ) (xs : List (Except DpaError DpaStats)) (s : StatsReport) : Prop where
  le : 0 < L → s.periods.length ≤ L
  stops : s.exit.isSome = true ↔ 0 < L ∧ s.periods.length = L
  adjacent : ∀ p ∈ s.periods, [.ok p.2, .ok p.1] <:+: xs

inductive SampleStep (opt : Options) (s : StatsReport) :
    Except DpaError DpaStats → StatsReport → Prop
  | skip (x : Except DpaError DpaStats)
    (hx : ∀ cur, x = .ok cur → s.reset = false ∧ corrupted cur s.prevStats = true) :
    SampleStep opt s x { s with reset := true }
  | period (cur : DpaStats) (hreset : s.reset = false)
    (hcor : corrupted cur s.prevStats = false) :
    SampleStep opt s (.ok cur) { s with
      prevStats := cur
      loop := s.loop - 1
      periods := s.periods ++ [(cur, s.prevStats)]
      exit := if s.loop - 1 < opt.breaker then some .finished else none }
  | baseline (cur : DpaStats) (hreset : s.reset = true) :
    SampleStep opt s (.ok cur) { s with
      reset := false
      prevStats := cur
      exit := if s.loop < opt.breaker then some .finished else none }

section

variable {opt : Options} {s s' : StatsReport} {cur prev : DpaStats} {x : Except DpaError DpaStats}
  {xs ys : List (Except DpaError DpaStats)} {L : ℕ}

theorem outputRate_isSome (asked : Bool) (unit c p : UInt64) (t : ℤ) :
    (outputRate asked unit c p t).isSome = decide (asked = true → t ≠ 0) := by
  by_cases h : t = 0 <;> cases asked <;> simp [outputRate, perSecond, h]

/-- The output traps where a rate is asked for and no second has passed. -/
theorem outputStats_isSome (n : UInt64) (opCode : BitVec 32) (cur prev : DpaStats) :
    (outputStats n opCode cur prev).isSome =
      decide (rated opCode = true → cur.ts.tvSec ≠ prev.ts.tvSec) := by
  have hp := outputRate_isSome (isSet opCode dpaStatsOpPackets) 1 cur.packets prev.packets
    (cur.ts.tvSec - prev.ts.tvSec)
  have hb := outputRate_isSome (isSet opCode dpaStatsOpBytes) 8 cur.bytes prev.bytes
    (cur.ts.tvSec - prev.ts.tvSec)
  have hboth : (outputStats n opCode cur prev).isSome =
      ((outputRate (isSet opCode dpaStatsOpPackets) 1 cur.packets prev.packets
        (cur.ts.tvSec - prev.ts.tvSec)).isSome &&
      (outputRate (isSet opCode dpaStatsOpBytes) 8 cur.bytes prev.bytes
        (cur.ts.tvSec - prev.ts.tvSec)).isSome) := by
    simp only [outputStats]
    cases outputRate (isSet opCode dpaStatsOpPackets) 1 cur.packets prev.packets
        (cur.ts.tvSec - prev.ts.tvSec) <;>
      cases outputRate (isSet opCode dpaStatsOpBytes) 8 cur.bytes prev.bytes
        (cur.ts.tvSec - prev.ts.tvSec) <;> rfl
  rw [hboth, hp, hb, rated, ← Bool.decide_and]
  simp only [Bool.or_eq_true, or_imp, ne_eq, sub_eq_zero]

theorem sampleStep (hrun : s.exit = none) (hund : Undisturbed opt s x)
    (hauto : ∀ cur, x = .ok cur → (opt.autoExit && !cur.enabled) = false) :
    SampleStep opt s x (reportSample opt s x) := by
  have hgo : s.exit.isSome = false := by rw [hrun]; rfl
  cases x with
  | error e =>
    have heq : reportSample opt s (.error e) = { s with reset := true } := by
      simp [reportSample, hgo]
    rw [heq]
    exact .skip _ nofun
  | ok cur =>
    obtain ⟨hopens, hsec⟩ := hund cur hrun rfl
    have hstays := hauto cur rfl
    cases hreset : s.reset with
    | true =>
      have heq : reportSample opt s (.ok cur) = { s with
          reset := false
          prevStats := cur
          exit := if s.loop < opt.breaker then some .finished else none } := by
        simp [reportSample, acceptSample, hgo, hopens, hreset, hstays]
      rw [heq]
      exact .baseline cur hreset
    | false =>
      cases hcor : corrupted cur s.prevStats with
      | true =>
        have heq : reportSample opt s (.ok cur) = { s with reset := true } := by
          simp [reportSample, hgo, hopens, hreset, hcor]
        rw [heq]
        refine .skip _ fun c hc ↦ ?_
        obtain rfl := Except.ok.inj hc
        exact ⟨hreset, hcor⟩
      | false =>
        have hprints : (outputStats s.periods.length.toUInt64 opt.opCode cur s.prevStats).isNone =
            false := by
          rw [← Option.not_isSome, outputStats_isSome, decide_eq_true (hsec hreset hcor)]
          rfl
        have heq : reportSample opt s (.ok cur) = { s with
            prevStats := cur
            loop := s.loop - 1
            periods := s.periods ++ [(cur, s.prevStats)]
            exit := if s.loop - 1 < opt.breaker then some .finished else none } := by
          simp [reportSample, acceptSample, hgo, hopens, hreset, hcor, hprints, hstays]
        rw [heq]
        exact .period cur hreset hcor

theorem lt_breaker_iff (hL : opt.loopTimes = L) (n : UInt64) :
    n < opt.breaker ↔ 0 < L ∧ n.toNat = 0 := by
  rw [Options.breaker, hL, UInt64.lt_iff_toNat_lt]
  by_cases h : L = 0
  · simp [h]
  · rw [if_pos (Int.natCast_ne_zero.2 h), UInt64.toNat_one]
    omega

structure Kept (L : ℕ) (xs : List (Except DpaError DpaStats)) (s : StatsReport) : Prop
    extends Counts L xs s where
  remaining : s.exit = none → 0 < L → s.loop.toNat + s.periods.length = L
  last : s.exit = none → s.reset = false → ∃ ys, xs = ys ++ [.ok s.prevStats]

theorem kept_start (hL : opt.loopTimes = L) (hlt : L < 2 ^ 63) (prev : DpaStats) :
    Kept L [] (reportStart opt prev) := by
  refine ⟨⟨fun _ ↦ L.zero_le, ?_, fun p hp ↦ (List.not_mem_nil hp).elim⟩, fun _ _ ↦ ?_, ?_⟩
  · refine iff_of_false Bool.false_ne_true ?_
    rintro ⟨hpos, hlen⟩
    exact hpos.ne hlen
  · have hloop : (UInt64.ofInt (L : ℤ)).toNat = L := by
      simp only [UInt64.ofInt, UInt64.toNat_ofNat']
      omega
    simp only [reportStart, hL, hloop, List.length_nil, Nat.add_zero]
  · rintro - hreset
    cases hreset

theorem Kept.loop_pos (hk : Kept L xs s) (hrun : s.exit = none) (hpos : 0 < L) :
    0 < s.loop.toNat := by
  have hrem := hk.remaining hrun hpos
  have hstop : ¬(0 < L ∧ s.periods.length = L) := by
    rw [← hk.stops, hrun]
    exact Bool.false_ne_true
  omega

theorem Kept.toNat_loop_sub (hk : Kept L xs s) (hrun : s.exit = none) (hpos : 0 < L) :
    (s.loop - 1).toNat = s.loop.toNat - 1 :=
  UInt64.toNat_sub_of_le _ _ (UInt64.le_iff_toNat_le.2 (hk.loop_pos hrun hpos))

theorem Counts.grow (hc : Counts L xs s) (p : DpaStats × DpaStats) (hp : p ∈ s.periods) :
    [.ok p.2, .ok p.1] <:+: xs ++ [x] :=
  (hc.adjacent p hp).trans (List.prefix_append xs [x]).isInfix

theorem kept_step (hL : opt.loopTimes = L) (hk : Kept L xs s) (hund : Undisturbed opt s x)
    (hauto : ∀ cur, x = .ok cur → (opt.autoExit && !cur.enabled) = false) :
    Kept L (xs ++ [x]) (reportSample opt s x) := by
  cases hrun : s.exit with
  | some e =>
    have hstay : reportSample opt s x = s := by simp [reportSample, hrun]
    rw [hstay]
    refine ⟨⟨hk.le, hk.stops, hk.toCounts.grow⟩, ?_, ?_⟩ <;>
      · rw [hrun]
        rintro ⟨⟩
  | none =>
    have hstop := hk.stops
    rw [hrun] at hstop
    have htakes := sampleStep hrun hund hauto
    generalize reportSample opt s x = s' at htakes ⊢
    cases htakes with
    | skip x hx =>
      refine ⟨⟨hk.le, hk.stops, hk.toCounts.grow⟩, hk.remaining, fun _ hreset ↦ ?_⟩
      cases hreset
    | period cur hreset hcor =>
      obtain ⟨ys, rfl⟩ := hk.last hrun hreset
      refine ⟨⟨fun hpos ↦ ?_, ?_, fun p hp ↦ ?_⟩, fun hrun' hpos ↦ ?_, fun _ _ ↦ ⟨_, rfl⟩⟩
      · have := hk.remaining hrun hpos
        have := hk.loop_pos hrun hpos
        rw [List.length_append, List.length_singleton]
        omega
      · rw [List.length_append, List.length_singleton, Option.isSome_ite, lt_breaker_iff hL]
        refine and_congr_right fun hpos ↦ ?_
        have := hk.remaining hrun hpos
        have := hk.loop_pos hrun hpos
        rw [hk.toNat_loop_sub hrun hpos]
        omega
      · rcases List.mem_append.1 hp with hp | hp
        · exact hk.toCounts.grow p hp
        · rw [List.mem_singleton.1 hp, List.append_assoc]
          exact (List.suffix_append ys _).isInfix
      · have := hk.remaining hrun hpos
        have := hk.loop_pos hrun hpos
        rw [List.length_append, List.length_singleton, hk.toNat_loop_sub hrun hpos]
        omega
    | baseline cur hreset =>
      have hgoes : ¬s.loop < opt.breaker := by
        rw [lt_breaker_iff hL]
        rintro ⟨hpos, hzero⟩
        exact (hk.loop_pos hrun hpos).ne' hzero
      rw [if_neg hgoes]
      exact ⟨⟨hk.le, hstop, hk.toCounts.grow⟩, fun _ ↦ hk.remaining hrun, fun _ _ ↦ ⟨xs, rfl⟩⟩

def sampling (opt : Options) (s : StatsReport) (x : Except DpaError DpaStats) : Option StatsReport :=
  some (reportSample opt s x)

theorem run_sampling (opt : Options) (xs : List (Except DpaError DpaStats)) (s : StatsReport) :
    run (sampling opt) xs s = some (xs.foldl (reportSample opt) s) := run_foldl _ _ _

theorem statsReport_snoc (opt : Options) (prev : DpaStats) (xs : List (Except DpaError DpaStats))
    (x : Except DpaError DpaStats) :
    statsReport opt prev (xs ++ [x]) = reportSample opt (statsReport opt prev xs) x := by
  rw [statsReport, List.foldl_append]
  rfl

theorem kept_run (hL : opt.loopTimes = L) (hlt : L < 2 ^ 63)
    (hauto : ∀ cur, .ok cur ∈ xs → (opt.autoExit && !cur.enabled) = false)
    (hund : Throughout (sampling opt) (Undisturbed opt) xs (reportStart opt prev)) :
    Kept L xs (statsReport opt prev xs) := by
  induction xs using List.reverseRecOn with
  | nil => exact kept_start hL hlt prev
  | append_singleton xs x ih =>
    have hk := ih (fun cur hmem ↦ hauto cur (List.mem_append_left _ hmem)) hund.left
    rw [statsReport_snoc]
    refine kept_step hL hk (hund.next (run_sampling opt xs _)) fun cur hx ↦ ?_
    exact hauto cur (List.mem_append_right xs (List.mem_singleton.2 hx.symm))

/-- A step that finds no file or divides by zero ends the report and prints nothing. -/
theorem reportSample_of_disturbed (h : ¬Undisturbed opt s x) :
    s.exit = none ∧ (reportSample opt s x).exit.isSome = true ∧
      (reportSample opt s x).periods = s.periods := by
  unfold Undisturbed at h
  push Not at h
  obtain ⟨cur, hrun, rfl, h⟩ := h
  have hgo : s.exit.isSome = false := by rw [hrun]; rfl
  refine ⟨hrun, ?_⟩
  cases hopens : opt.opens cur with
  | false => simp [reportSample, hgo, hopens]
  | true =>
    obtain ⟨hreset, hcor, hrated, hsec⟩ := h hopens
    have htraps : (outputStats s.periods.length.toUInt64 opt.opCode cur s.prevStats).isNone =
        true := by
      rw [← Option.not_isSome, outputStats_isSome, decide_eq_false fun hne ↦ hne hrated hsec]
      rfl
    simp [reportSample, hgo, hopens, hreset, hcor, htraps]

theorem counts_iff (hL : opt.loopTimes = L) (hlt : L < 2 ^ 63)
    (hauto : ∀ cur, .ok cur ∈ xs → (opt.autoExit && !cur.enabled) = false) :
    (∀ ys, ys <+: xs → Counts L ys (statsReport opt prev ys)) ↔
      Throughout (sampling opt) (Undisturbed opt) xs (reportStart opt prev) := by
  constructor
  · intro hcounts
    by_contra hnot
    obtain ⟨ys, x, zs, s, rfl, -, hr, hdist⟩ := exists_first hnot (run_sampling opt xs _)
    obtain rfl : statsReport opt prev ys = s := by
      rw [run_sampling] at hr
      exact Option.some.inj hr
    obtain ⟨hrun, hexit, hperiods⟩ := reportSample_of_disturbed hdist
    have hbefore := (hcounts ys (List.prefix_append ys _)).stops
    have hafter := (hcounts (ys ++ [x]) ⟨zs, by simp⟩).stops
    rw [statsReport_snoc, hperiods, ← hbefore, hrun] at hafter
    cases hafter.1 hexit
  · rintro hund ys ⟨zs, rfl⟩
    exact (kept_run hL hlt (fun cur hmem ↦ hauto cur (List.mem_append_left _ hmem))
      hund.left).toCounts

theorem foldl_of_exit (h : s.exit.isSome = true) : xs.foldl (reportSample opt) s = s := by
  induction xs with
  | nil => rfl
  | cons x xs ih =>
    have hstay : reportSample opt s x = s := by simp [reportSample, h]
    rw [List.foldl_cons, hstay, ih]

theorem in_order_step (hpos : 0 < L) (hk : Kept L xs s) (hstep : SampleStep opt s (.ok cur) s')
    (hrun : s.exit = none) (hhead : s.reset = false → corrupted cur s.prevStats = false) :
    s'.reset = false ∧ s'.prevStats = cur ∧ s'.loop.toNat + 1 = s.loop.toNat + s.reset.toNat := by
  have hloop := hk.loop_pos hrun hpos
  cases hstep with
  | skip x hx =>
    obtain ⟨hreset, hcor⟩ := hx cur rfl
    rw [hhead hreset] at hcor
    cases hcor
  | period cur hreset hcor =>
    have hless := hk.toNat_loop_sub hrun hpos
    refine ⟨hreset, rfl, ?_⟩
    rw [hreset, Bool.toNat_false]
    dsimp only
    omega
  | baseline cur hreset =>
    rw [hreset]
    exact ⟨rfl, rfl, rfl⟩

/-- Samples in order end a report, one for each period that is left and one more for a baseline. -/
theorem ends_in_order {cs : List DpaStats} (hL : opt.loopTimes = L) (hpos : 0 < L)
    (hk : Kept L xs s) (hrun : s.exit = none)
    (hauto : ∀ cur ∈ cs, (opt.autoExit && !cur.enabled) = false)
    (hund : Throughout (sampling opt) (Undisturbed opt) (cs.map .ok) s)
    (hchain : cs.IsChain fun a b ↦ corrupted b a = false)
    (hhead : s.reset = false → ∀ c ∈ cs.head?, corrupted c s.prevStats = false)
    (hlen : s.loop.toNat + s.reset.toNat ≤ cs.length) :
    ((cs.map .ok).foldl (reportSample opt) s).exit.isSome = true := by
  induction cs generalizing xs s with
  | nil =>
    have := hk.loop_pos hrun hpos
    rw [List.length_nil] at hlen
    omega
  | cons c cs ih =>
    have hstays : ∀ cur, Except.ok c = (.ok cur : Except DpaError DpaStats) →
        (opt.autoExit && !cur.enabled) = false := by
      intro cur hx
      obtain rfl := Except.ok.inj hx
      exact hauto c List.mem_cons_self
    have hstep := kept_step hL hk hund.1 hstays
    have hnext := in_order_step hpos hk (sampleStep hrun hund.1 hstays) hrun fun hreset ↦
      hhead hreset c rfl
    rw [List.map_cons, List.foldl_cons]
    cases hrun' : (reportSample opt s (.ok c)).exit with
    | some e =>
      rw [foldl_of_exit (by rw [hrun']; rfl), hrun']
      rfl
    | none =>
      obtain ⟨hreset, hprev, hloop⟩ := hnext
      refine ih hstep hrun' (fun cur hmem ↦ hauto cur (List.mem_cons_of_mem c hmem))
        (hund.2 _ rfl) hchain.tail (fun _ c' hc' ↦ ?_) ?_
      · rw [hprev]
        exact hchain.rel_head? hc'
      · rw [hreset]
        rw [List.length_cons] at hlen
        simp only [Bool.toNat_false]
        omega

theorem ends {cs : List DpaStats} (hL : opt.loopTimes = L) (hlt : L < 2 ^ 63) (hpos : 0 < L)
    (hauto : ∀ cur, .ok cur ∈ xs ++ cs.map .ok → (opt.autoExit && !cur.enabled) = false)
    (hund : Throughout (sampling opt) (Undisturbed opt) (xs ++ cs.map .ok) (reportStart opt prev))
    (hchain : cs.IsChain fun a b ↦ corrupted b a = false) (hlen : L + 2 ≤ cs.length) :
    (statsReport opt prev (xs ++ cs.map .ok)).exit.isSome = true := by
  obtain ⟨c, cs, rfl⟩ := List.exists_cons_of_length_pos (l := cs) (by omega)
  have hsplit : xs ++ (c :: cs).map .ok = (xs ++ [.ok c]) ++ cs.map .ok := by simp
  rw [hsplit] at hauto hund ⊢
  have hfirst (cur : DpaStats) (hmem : Except.ok cur ∈ xs ++ [.ok c]) :=
    hauto cur (List.mem_append_left _ hmem)
  have hk := kept_run hL hlt hfirst hund.left
  have htail := hund.right (run_sampling opt (xs ++ [.ok c]) _)
  rw [statsReport, List.foldl_append]
  rw [statsReport] at hk
  generalize (xs ++ [Except.ok c]).foldl (reportSample opt) (reportStart opt prev) = s at hk htail ⊢
  cases hrun : s.exit with
  | some e =>
    rw [foldl_of_exit (by rw [hrun]; rfl), hrun]
    rfl
  | none =>
    have hrem := hk.remaining hrun hpos
    refine ends_in_order hL hpos hk hrun (fun cur hmem ↦ hauto cur (by simp [hmem])) htail
      hchain.tail (fun hreset c' hc' ↦ ?_) ?_
    · obtain ⟨ys, hys⟩ := hk.last hrun hreset
      obtain ⟨-, hc⟩ := List.append_inj' hys rfl
      rw [← Except.ok.inj (List.singleton_inj.1 hc)]
      exact hchain.rel_head? hc'
    · have := Bool.toNat_le s.reset
      rw [List.length_cons] at hlen
      omega

/-- A report with `-l L` prints `L` periods and ends, whatever the samples are, where its file is
found and no period without a second in it asks for a rate. -/
theorem report_counts_iff (prev : DpaStats) (xs : List (Except DpaError DpaStats))
    (hL : opt.loopTimes = L) (hlt : L < 2 ^ 63)
    (hauto : ∀ cur, .ok cur ∈ xs → (opt.autoExit && !cur.enabled) = false) :
    ((∀ ys, ys <+: xs → Counts L ys (statsReport opt prev ys)) ↔
      Throughout (sampling opt) (Undisturbed opt) xs (reportStart opt prev)) ∧
    (Throughout (sampling opt) (Undisturbed opt) xs (reportStart opt prev) → 0 < L →
      ∀ ys, ∀ cs : List DpaStats, xs = ys ++ cs.map .ok →
        (cs.IsChain fun a b ↦ corrupted b a = false) →
        L + 2 ≤ cs.length → (statsReport opt prev xs).exit.isSome = true) := by
  refine ⟨counts_iff hL hlt hauto, ?_⟩
  rintro hund hpos ys cs rfl hchain hlen
  exact ends hL hlt hpos hauto hund hchain hlen

end

def onePeriod : Options := ⟨1, dpaStatsOpPackets, false, fun _ ↦ true⟩

def sampleAt (sec usec : ℕ) : DpaStats := ⟨true, 10 * sec.toUInt64, 0, 0, 0, ⟨sec, usec⟩⟩

theorem onePeriod_trapped :
    (statsReport onePeriod (sampleAt 0 0) [.ok (sampleAt 100 2), .ok (sampleAt 100 3)]).exit =
      some .trapped ∧
    (statsReport onePeriod (sampleAt 0 0) [.ok (sampleAt 100 2), .ok (sampleAt 100 3)]).periods = [] ∧
    ¬Counts 1 [.ok (sampleAt 100 2), .ok (sampleAt 100 3)]
      (statsReport onePeriod (sampleAt 0 0) [.ok (sampleAt 100 2), .ok (sampleAt 100 3)]) := by
  have hexit : (statsReport onePeriod (sampleAt 0 0)
      [.ok (sampleAt 100 2), .ok (sampleAt 100 3)]).exit = some .trapped := by decide
  have hperiods : (statsReport onePeriod (sampleAt 0 0)
      [.ok (sampleAt 100 2), .ok (sampleAt 100 3)]).periods = [] := by decide
  refine ⟨hexit, hperiods, fun h ↦ ?_⟩
  have hstop := h.stops
  rw [hexit, hperiods] at hstop
  cases (hstop.1 rfl).2

/-- A call that fails and a sample that is older than the one before, and three in order. -/
def unsteady : List (Except DpaError DpaStats) :=
  [.ok (sampleAt 100 0), .error .badFileContent, .ok (sampleAt 104 0), .ok (sampleAt 101 0),
    .ok (sampleAt 110 0), .ok (sampleAt 115 0), .ok (sampleAt 120 0)]

theorem report_counts_iff_unsteady :
    Counts 1 unsteady (statsReport onePeriod (sampleAt 0 0) unsteady) ∧
    (statsReport onePeriod (sampleAt 0 0) unsteady).exit.isSome = true ∧
    (statsReport onePeriod (sampleAt 0 0) unsteady).periods = [(sampleAt 115 0, sampleAt 110 0)] := by
  have hund : Throughout (sampling onePeriod) (Undisturbed onePeriod) unsteady
      (reportStart onePeriod (sampleAt 0 0)) := by
    have hok (s : StatsReport) (cur : DpaStats) (h : s.exit = none → s.reset = false →
        corrupted cur s.prevStats = false → cur.ts.tvSec ≠ s.prevStats.ts.tvSec) :
        Undisturbed onePeriod s (.ok cur) := by
      rintro _ hrun hx
      cases hx
      exact ⟨rfl, fun hreset hcor _ ↦ h hrun hreset hcor⟩
    have herror (s : StatsReport) : Undisturbed onePeriod s (.error .badFileContent) :=
      fun _ _ hx ↦ by cases hx
    refine .cons (hok _ _ ?_) rfl (.cons (herror _) rfl (.cons (hok _ _ ?_) rfl
      (.cons (hok _ _ ?_) rfl (.cons (hok _ _ ?_) rfl (.cons (hok _ _ ?_) rfl
        (.cons (hok _ _ ?_) rfl trivial)))))) <;> decide
  obtain ⟨hiff, hends⟩ := report_counts_iff (L := 1) (sampleAt 0 0) unsteady
    (show onePeriod.loopTimes = 1 from rfl) (by decide) fun _ _ ↦ rfl
  refine ⟨hiff.2 hund _ List.prefix_rfl, hends hund Nat.one_pos (unsteady.take 4)
    [sampleAt 110 0, sampleAt 115 0, sampleAt 120 0] rfl (by simp [sampleAt, corrupted]) le_rfl, ?_⟩
  decide

theorem tvSec_le_of_accepted {cur prev : DpaStats} (h : corrupted cur prev = false) :
    prev.ts.tvSec ≤ cur.ts.tvSec := by
  simp only [corrupted, Bool.or_eq_false_iff, decide_eq_false_iff_not] at h
  exact not_lt.1 h.1.2

theorem ts_le_of_accepted {cur prev : StatsT} (h : goneBack cur prev = false) :
    prev.ts ≤ cur.ts := by
  simp only [goneBack, Bool.or_eq_false_iff, decide_eq_false_iff_not] at h
  exact not_lt.1 h.2

/-- The seconds that the rates of a period are divided by, in `dpastats`, the duplicator and the
receiver. -/
theorem elapsed_pos_iff (n : UInt64) (opCode : BitVec 32) (cur prev : DpaStats)
    (dupCur dupPrev : DupStatsT) (recvCur recvPrev : StatsT) :
    (corrupted cur prev = false →
      ((rated opCode = true → 1 ≤ cur.ts.tvSec - prev.ts.tvSec) ∧
        (outputStats n opCode cur prev).isSome = true ↔
          (rated opCode = true → cur.ts.tvSec ≠ prev.ts.tvSec))) ∧
    (goneBack dupCur.toStatsT dupPrev.toStatsT = false →
      (1 ≤ dupCur.ts - dupPrev.ts ∧ (dupPrintStats dupCur dupPrev).isSome = true ↔
        dupCur.ts ≠ dupPrev.ts)) ∧
    (goneBack recvCur recvPrev = false →
      (1 ≤ recvCur.ts - recvPrev.ts ∧ (printStats recvCur recvPrev).isSome = true ↔
        recvCur.ts ≠ recvPrev.ts)) := by
  refine ⟨fun h ↦ ?_, fun h ↦ ?_, fun h ↦ ?_⟩
  · have hle := tvSec_le_of_accepted h
    rw [outputStats_isSome, decide_eq_true_iff]
    refine ⟨And.right, fun hne ↦ ⟨fun hrated ↦ ?_, hne⟩⟩
    have := hne hrated
    omega
  · have hle := ts_le_of_accepted h
    rw [dupPrintStats_isSome, decide_eq_true_iff]
    omega
  · have hle := ts_le_of_accepted h
    rw [printStats_isSome, decide_eq_true_iff]
    omega

/-- Two samples of one second pass the checks. -/
theorem sameSecond_traps :
    (corrupted (sampleAt 100 3) (sampleAt 100 2) = false ∧
      ¬1 ≤ (sampleAt 100 3).ts.tvSec - (sampleAt 100 2).ts.tvSec ∧
      (outputStats 0 dpaStatsOpPackets (sampleAt 100 3) (sampleAt 100 2)).isSome = false) ∧
    goneBack ⟨7, 500, 0, 0, 100⟩ ⟨7, 500, 0, 0, 100⟩ = false ∧
      (printStats ⟨7, 500, 0, 0, 100⟩ ⟨7, 500, 0, 0, 100⟩).isSome = false := by decide

theorem elapsed_pos_iff_fiveSeconds :
    1 ≤ (sampleAt 105 0).ts.tvSec - (sampleAt 100 0).ts.tvSec ∧
    (printStats ⟨9, 700, 0, 0, 105⟩ ⟨7, 500, 0, 0, 100⟩).isSome = true := by
  obtain ⟨hdpastats, -, hreceiver⟩ := elapsed_pos_iff 0 dpaStatsOpPackets (sampleAt 105 0)
    (sampleAt 100 0) ⟨⟨9, 700, 0, 0, 105⟩, []⟩ ⟨⟨7, 500, 0, 0, 100⟩, []⟩ ⟨9, 700, 0, 0, 105⟩
    ⟨7, 500, 0, 0, 100⟩
  exact ⟨((hdpastats (by decide)).2 (by decide)).1 (by decide),
    ((hreceiver (by decide)).2 (by decide)).2⟩

end Dpa.Tools.Dpastats
