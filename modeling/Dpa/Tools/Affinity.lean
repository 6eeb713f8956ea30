import Dpa.Tools.Threads

namespace Dpa.Tools

open MachineWord

def intMax : ℤ := 2147483647
def intMin : ℤ := -2147483648

/-- What `strtol` gives: the value, how many characters it has read and `errno`. -/
structure Strtol where
  value : ℤ
  read : ℕ
  errno : ℕ

def erange : ℕ := 34

inductive ValueRange
  | noNegative
  | onlyPostive
  | noRange

def ValueRange.excludes : ValueRange → ℤ → Bool
  | noNegative, lval => lval < 0
  | onlyPostive, lval => lval ≤ 0
  | noRange, lval => lval ≤ intMin

inductive OptionError
  | invalidValue (caller : String)
  | failedToParse (caller : String)
  | invalidRange (caller : String) (lo hi : ℤ)
  | invalidAffinity (abegin aend : ℤ)
  | manyQueues (numQueues ncpus : ℤ)
  | beyondCpus (abegin aend ncpus : ℤ)
  | shortAffinity (abegin aend numQueues : ℤ)

def OptionError.text : OptionError → String
  | invalidValue caller => s!"Invalid {caller} value."
  | failedToParse caller => s!"Failed to parse {caller} range."
  | invalidRange caller lo hi => s!"Invalid {caller} range:{lo} to {hi}."
  | invalidAffinity abegin aend => s!"Invalid affinity range {abegin} to {aend}."
  | manyQueues numQueues ncpus =>
    s!"The number of queues is {numQueues} but system only have {ncpus} CPU(s)."
  | beyondCpus abegin aend ncpus =>
    s!"Invalid affinity range {abegin} to {aend}, system only have {ncpus} CPU(s)."
  | shortAffinity abegin aend numQueues =>
    s!"Invalid affinity range {abegin} to {aend} when the number of queue is {numQueues}."

def dupStr2int32 (strtol : List Char → Strtol) (str : List Char) (range : ValueRange)
    (caller : String) : Except OptionError ℤ :=
  let lval := strtol str
  if lval.errno = erange ∨ lval.value ≥ intMax ∨ range.excludes lval.value = true ∨
      (lval.errno ≠ 0 ∧ lval.value = 0) ∨ lval.read = 0 then
    .error (.invalidValue caller)
  else .ok (s32 lval.value)

/-- `strsep` at a colon: the token, and what is left of the string. -/
def strsepColon (str : List Char) : List Char × Option (List Char) :=
  match str.dropWhile (· != ':') with
  | [] => (str, none)
  | _ :: rest => (str.takeWhile (· != ':'), some rest)

def dupStr2range (strtol : List Char → Strtol) (str : Option (List Char)) (caller : String) :
    Except OptionError (ℤ × ℤ) := do
  match str with
  | none => .error (.failedToParse caller)
  | some str =>
    let lo ← dupStr2int32 strtol (strsepColon str).1 .noNegative "range begin"
    let hi ← match (strsepColon str).2 with
      | none => .ok intMax
      | some rest => dupStr2int32 strtol rest .noNegative "range end"
    if lo < 0 ∨ lo > hi then .error (.invalidRange caller lo hi)
    else .ok (lo, hi)

/-- `dup_set_affinity` on a system of `ncpus` CPUs: the range that it leaves. -/
def dupSetAffinity (ncpus numQueues abegin aend : ℤ) : Except OptionError (ℤ × ℤ) :=
  if abegin < 0 ∨ aend < 0 then .error (.invalidAffinity abegin aend)
  else if numQueues > ncpus then .error (.manyQueues numQueues ncpus)
  else
    let aend := if aend = intMax then s32 (s32 (abegin + numQueues) - 1) else aend
    if aend ≥ ncpus then .error (.beyondCpus abegin aend ncpus)
    else if numQueues > s32 (s32 (aend - abegin) + 1) then
      .error (.shortAffinity abegin aend numQueues)
    else .ok (abegin, s32 (s32 (abegin + numQueues) - 1))

def setAffinity : ℤ → ℤ → ℤ → ℤ → Except OptionError (ℤ × ℤ) := dupSetAffinity

/-- The ranges that the parser accepts; one without an end has the largest `int` for it. -/
structure ParsedRange (abegin aend : ℤ) : Prop where
  nonneg : 0 ≤ abegin
  lt : abegin < intMax
  upto : aend = intMax ∨ abegin ≤ aend ∧ aend < intMax

structure FitsCpus (ncpus numQueues : ℤ) (range : ℤ × ℤ) : Prop where
  nonneg : 0 ≤ range.1
  le : range.1 ≤ range.2
  lt : range.2 < ncpus
  length : range.2 - range.1 + 1 = numQueues

structure PinsApart (ncpus : ℤ) (starts : ℕ → Bool) (table : List ThreadArgs) : Prop where
  range : ∀ i (t : ThreadArgs), table[i]? = some t → starts i = true →
    0 ≤ t.affinity ∧ t.affinity < ncpus
  apart : ∀ i j (t u : ThreadArgs), table[i]? = some t → table[j]? = some u →
    starts i = true → starts j = true → t.affinity = u.affinity → i = j

/-- Where a program accepts the range, the range fits and so do the threads that it creates. -/
def KeepsApart (ncpus numQueues abegin aend : ℤ)
    (set : ℤ → ℤ → ℤ → ℤ → Except OptionError (ℤ × ℤ))
    (create : Options → ThreadSystem → Bool × List ThreadArgs)
    (starts : ThreadSystem → ℕ → Bool) : Prop :=
  ∀ range, set ncpus numQueues abegin aend = .ok range →
    FitsCpus ncpus numQueues range ∧
    ∀ opt sys, opt.affinityFlag = true → opt.affinityBegin = range.1 →
      opt.affinityEnd = range.2 → opt.numQueues = numQueues →
      PinsApart ncpus (starts sys) (create opt sys).2

/-- The call of a loop's body for entry `i` with the CPU `affinity` at hand. -/
structure TakesCpu (create : ℕ → ℤ → ThreadArgs × ℤ) (starts : ℕ → Bool) (i : ℕ)
    (affinity : ℤ) : Prop where
  le : affinity ≤ (create i affinity).2
  upto : (create i affinity).2 ≤ affinity + 1
  own : starts i = true → (create i affinity).1.affinity = affinity
  next : starts i = true → (create i affinity).2 = affinity + 1

section

variable {strtol : List Char → Strtol} {str : Option (List Char)} {caller : String}
  {abegin aend ncpus numQueues lo hi affinity : ℤ} {range : ℤ × ℤ}
  {create : ℕ → ℤ → ThreadArgs × ℤ} {starts : ℕ → Bool} {n i j k : ℕ} {t u : ThreadArgs}
  {opt : Options} {sys : ThreadSystem}

theorem bind_eq_ok {ε α β : Type} {x : Except ε α} {f : α → Except ε β} {b : β} :
    x >>= f = .ok b ↔ ∃ a, x = .ok a ∧ f a = .ok b := by
  cases x with
  | error e =>
    constructor
    · exact fun h ↦ nomatch h
    · exact fun ⟨a, h, _⟩ ↦ nomatch h
  | ok a =>
    constructor
    · exact fun h ↦ ⟨a, rfl, h⟩
    · exact fun ⟨a', h, h'⟩ ↦ Except.ok.inj h ▸ h'

theorem dupStr2int32_mem {str : List Char}
    (h : dupStr2int32 strtol str .noNegative caller = .ok lo) : 0 ≤ lo ∧ lo < intMax := by
  simp only [dupStr2int32] at h
  split_ifs at h with hbad
  simp only [ValueRange.excludes, not_or, decide_eq_true_eq, not_lt, ge_iff_le, not_le] at hbad
  obtain ⟨-, hlt, hnonneg, -⟩ := hbad
  rw [s32_of_mem (by omega) (by unfold intMax at hlt; omega)] at h
  obtain rfl := Except.ok.inj h
  exact ⟨hnonneg, hlt⟩

theorem dupStr2range_parsed (h : dupStr2range strtol str caller = .ok (lo, hi)) :
    ParsedRange lo hi := by
  cases str with
  | none => cases h
  | some str =>
    simp only [dupStr2range, bind_eq_ok] at h
    obtain ⟨lo', hlo, h⟩ := h
    obtain ⟨hnonneg, hlt⟩ := dupStr2int32_mem hlo
    have hchecked {hi' : ℤ} (hhi : hi' = intMax ∨ hi' < intMax)
        (h : (if lo' < 0 ∨ lo' > hi' then .error (.invalidRange caller lo' hi')
          else .ok (lo', hi')) = (.ok (lo, hi) : Except OptionError (ℤ × ℤ))) :
        ParsedRange lo hi := by
      split_ifs at h with hbad
      obtain ⟨rfl, rfl⟩ := Prod.mk.inj (Except.ok.inj h)
      exact ⟨hnonneg, hlt, hhi.imp_right fun hlt' ↦ ⟨by omega, hlt'⟩⟩
    cases hrest : (strsepColon str).2 with
    | none =>
      simp only [hrest, bind_eq_ok] at h
      obtain ⟨hi', hmax, h⟩ := h
      exact hchecked (Or.inl (Except.ok.inj hmax).symm) h
    | some rest =>
      simp only [hrest, bind_eq_ok] at h
      obtain ⟨hi', hhi, h⟩ := h
      exact hchecked (Or.inr (dupStr2int32_mem hhi).2) h

theorem s32_add_sub_one (a b : ℤ) : s32 (s32 (a + b) - 1) = s32 (a + b - 1) := by
  unfold s32
  omega

/-- Outside the one case the checks are those of unbounded integers. -/
theorem dupSetAffinity_fits (hp : ParsedRange abegin aend) (hn : 0 < numQueues)
    (hn' : numQueues ≤ intMax) (hc : ncpus ≤ intMax)
    (hfit : ¬(aend = intMax ∧ numQueues ≤ ncpus ∧ intMax < abegin + numQueues - 1))
    (h : dupSetAffinity ncpus numQueues abegin aend = .ok range) :
    FitsCpus ncpus numQueues range := by
  obtain ⟨hnonneg, hlt, hupto⟩ := hp
  simp only [dupSetAffinity, s32_add_sub_one] at h
  unfold intMax at *
  split_ifs at h with _ hqueues hopen hcpus hshort hcpus hshort
  · obtain rfl := Except.ok.inj h
    rw [s32_of_mem (by omega) (by omega)] at hcpus ⊢
    exact ⟨hnonneg, by dsimp only; omega, by dsimp only; omega, by dsimp only; omega⟩
  · obtain rfl := Except.ok.inj h
    have hle : abegin ≤ aend := (hupto.resolve_left hopen).1
    have hlength : s32 (s32 (aend - abegin) + 1) = aend - abegin + 1 := by
      rw [s32_of_mem (by omega : -2 ^ 31 ≤ aend - abegin) (by omega),
        s32_of_mem (by omega) (by omega)]
    rw [hlength] at hshort
    rw [s32_of_mem (by omega) (by omega)]
    exact ⟨hnonneg, by dsimp only; omega, by dsimp only; omega, by dsimp only; omega⟩

theorem dupSetAffinity_wraps (hp : ParsedRange abegin aend) (hn : numQueues ≤ intMax)
    (hopen : aend = intMax) (hle : numQueues ≤ ncpus) (hpos : 0 < numQueues)
    (hover : intMax < abegin + numQueues - 1) :
    dupSetAffinity ncpus numQueues abegin aend =
      .ok (abegin, abegin + numQueues - 1 - 2 ^ 32) := by
  obtain ⟨hnonneg, hlt, -⟩ := hp
  have hmax : intMax = 2147483647 := rfl
  have hwrap : s32 (abegin + numQueues - 1) = abegin + numQueues - 1 - 2 ^ 32 := by
    unfold s32
    omega
  have hlength : s32 (s32 (abegin + numQueues - 1 - 2 ^ 32 - abegin) + 1) = numQueues := by
    unfold s32
    omega
  simp only [dupSetAffinity, s32_add_sub_one, hwrap]
  rw [if_neg (by omega), if_neg (by omega), if_pos hopen, if_neg (by omega),
    if_neg (by rw [hlength]; omega)]

theorem threadTable_affinity (hstep : ∀ i a, 0 ≤ a → a ≤ aend → TakesCpu create starts i a)
    (ha : 0 ≤ affinity) (hend : affinity + n ≤ aend + 1)
    (hj : (threadTable create n i affinity)[j]? = some t) (hs : starts (i + j) = true) :
    affinity ≤ t.affinity ∧ t.affinity < affinity + n := by
  induction n generalizing i j affinity with
  | zero => cases hj
  | succ n ih =>
    rw [threadTable] at hj
    have htakes := hstep i affinity ha (by omega)
    cases j with
    | zero =>
      obtain rfl := Option.some.inj hj
      rw [htakes.own hs]
      omega
    | succ j =>
      have hle := htakes.le
      have hupto := htakes.upto
      have hrest := ih (by omega) (by omega) hj (by rwa [Nat.add_right_comm])
      omega

theorem threadTable_increasing (hstep : ∀ i a, 0 ≤ a → a ≤ aend → TakesCpu create starts i a)
    (ha : 0 ≤ affinity) (hend : affinity + n ≤ aend + 1) (hlt : j < k)
    (hj : (threadTable create n i affinity)[j]? = some t) (hs : starts (i + j) = true)
    (hk : (threadTable create n i affinity)[k]? = some u) (hs' : starts (i + k) = true) :
    t.affinity < u.affinity := by
  induction n generalizing i j k affinity with
  | zero => cases hj
  | succ n ih =>
    rw [threadTable] at hj hk
    have htakes := hstep i affinity ha (by omega)
    have hle := htakes.le
    have hupto := htakes.upto
    obtain ⟨k, rfl⟩ := Nat.exists_eq_add_one_of_ne_zero (by omega : k ≠ 0)
    rw [← Nat.add_assoc, Nat.add_right_comm] at hs'
    cases j with
    | zero =>
      obtain rfl := Option.some.inj hj
      have hrest := threadTable_affinity hstep (by omega) (by omega) hk hs'
      rw [htakes.own hs]
      rw [htakes.next hs] at hrest
      omega
    | succ j =>
      rw [← Nat.add_assoc, Nat.add_right_comm] at hs
      exact ih (by omega) (by omega) (by omega) hj hs hk hs'

theorem pinsApart_threadTable
    (hstep : ∀ i a, 0 ≤ a → a ≤ aend → TakesCpu create starts i a)
    (hfit : FitsCpus ncpus numQueues (abegin, aend)) :
    PinsApart ncpus starts (threadTable create numQueues.toNat 0 abegin) := by
  obtain ⟨hnonneg, hle, hlt, hlength⟩ := hfit
  dsimp only at hnonneg hle hlt hlength
  have hend : abegin + numQueues.toNat ≤ aend + 1 := by omega
  refine ⟨fun i t hi hs ↦ ?_, fun i j t u hi hj hsi hsj heq ↦ ?_⟩
  · have hmem := threadTable_affinity hstep hnonneg hend hi (by rwa [Nat.zero_add])
    omega
  · rw [← Nat.zero_add i] at hsi
    rw [← Nat.zero_add j] at hsj
    rcases Nat.lt_trichotomy i j with hij | hij | hij
    · exact absurd heq (threadTable_increasing hstep hnonneg hend hij hi hsi hj hsj).ne
    · exact hij
    · exact absurd heq (threadTable_increasing hstep hnonneg hend hij hj hsj hi hsi).ne'

theorem bindCpu_of_le (hflag : opt.affinityFlag = true) (hle : affinity ≤ opt.affinityEnd)
    (hend : opt.affinityEnd < intMax) (ha : 0 ≤ affinity) :
    bindCpu opt affinity = (affinity, affinity + 1) := by
  unfold intMax at hend
  rw [bindCpu, if_pos hflag, if_neg (by omega), s32_of_mem (by omega) (by omega)]

end

section

variable {opt : Options} {sys : ThreadSystem} {i : ℕ} {affinity ncpus numQueues : ℤ}

theorem dupCreateThread_takesCpu (hflag : opt.affinityFlag = true)
    (hend : opt.affinityEnd < intMax) (ha : 0 ≤ affinity) (hle : affinity ≤ opt.affinityEnd) :
    TakesCpu (dupCreateThread opt sys) (dupStarts sys) i affinity := by
  have hbind := bindCpu_of_le hflag hle hend ha
  by_cases hopen : sys.openDpa i = -1
  · have hcreate : dupCreateThread opt sys i affinity = ({ blankArgs with fd := -1 }, affinity) :=
      if_pos hopen
    have hstarts : ¬dupStarts sys i = true := by simp [dupStarts, hopen]
    refine ⟨?_, ?_, fun hs ↦ absurd hs hstarts, fun hs ↦ absurd hs hstarts⟩
    · rw [hcreate]
    · rw [hcreate]
      exact Int.le_add_one le_rfl
  · have hcreate : (dupCreateThread opt sys i affinity).1.affinity = affinity ∧
        (dupCreateThread opt sys i affinity).2 = affinity + 1 := by
      simp only [dupCreateThread, if_neg hopen, hbind]
      split_ifs <;> exact ⟨rfl, rfl⟩
    exact ⟨by omega, by omega, fun _ ↦ hcreate.1, fun _ ↦ hcreate.2⟩

theorem createThread_takesCpu (hflag : opt.affinityFlag = true)
    (hend : opt.affinityEnd < intMax) (ha : 0 ≤ affinity) (hle : affinity ≤ opt.affinityEnd) :
    TakesCpu (createThread opt sys) (starts sys) i affinity := by
  have hcreate : (createThread opt sys i affinity).1.affinity = affinity ∧
      (createThread opt sys i affinity).2 = affinity + 1 := by
    simp [createThread, bindCpu_of_le hflag hle hend ha]
  exact ⟨by omega, by omega, fun _ ↦ hcreate.1, fun _ ↦ hcreate.2⟩

/-- Over the two programs: their tables are made by bodies that take a CPU each. -/
theorem keepsApart_iff {abegin aend : ℤ} {create : Options → ThreadSystem → ℕ → ℤ → ThreadArgs × ℤ}
    {created : Options → ThreadSystem → Bool × List ThreadArgs}
    {starts : ThreadSystem → ℕ → Bool} (hp : ParsedRange abegin aend) (hn : 0 < numQueues)
    (hn' : numQueues ≤ intMax) (hc : ncpus ≤ intMax)
    (htable : ∀ opt sys, (created opt sys).2 =
      threadTable (create opt sys) opt.numQueues.toNat 0 opt.affinityBegin)
    (htakes : ∀ opt sys i a, opt.affinityFlag = true → opt.affinityEnd < intMax → 0 ≤ a →
      a ≤ opt.affinityEnd → TakesCpu (create opt sys) (starts sys) i a) :
    KeepsApart ncpus numQueues abegin aend dupSetAffinity created starts ↔
      ¬(aend = intMax ∧ numQueues ≤ ncpus ∧ intMax < abegin + numQueues - 1) := by
  constructor
  · intro hkeeps ⟨hopen, hle, hover⟩
    obtain ⟨hfit, -⟩ := hkeeps _ (dupSetAffinity_wraps hp hn' hopen hle hn hover)
    have hrange := hfit.le
    have hmax : intMax = 2147483647 := rfl
    dsimp only at hrange
    omega
  · intro hfit range hset
    have hfits := dupSetAffinity_fits hp hn hn' hc hfit hset
    refine ⟨hfits, fun opt sys hflag hbegin hend hqueues ↦ ?_⟩
    have hlt := hfits.lt
    rw [htable, hqueues, hbegin]
    exact pinsApart_threadTable
      (fun i a ha hle ↦ htakes opt sys i a hflag (by omega) ha (by omega)) hfits

end

/-- The affinity of the duplicator's threads and of the receiver's: an open range near the end of
`int` is the only one that is accepted wrongly. -/
theorem affinity_apart_iff {abegin aend ncpus numQueues : ℤ} (hp : ParsedRange abegin aend)
    (hn : 1 ≤ numQueues) (hn' : numQueues ≤ intMax) (hc : ncpus ≤ intMax) :
    (KeepsApart ncpus numQueues abegin aend dupSetAffinity dupCreateThreads dupStarts ↔
      ¬(aend = intMax ∧ numQueues ≤ ncpus ∧ intMax < abegin + numQueues - 1)) ∧
    (KeepsApart ncpus numQueues abegin aend setAffinity createThreads starts ↔
      ¬(aend = intMax ∧ numQueues ≤ ncpus ∧ intMax < abegin + numQueues - 1)) :=
  ⟨keepsApart_iff hp hn hn' hc (fun _ _ ↦ rfl) fun _ _ _ _ ↦ dupCreateThread_takesCpu,
    keepsApart_iff hp hn hn' hc (fun _ _ ↦ rfl) fun _ _ _ _ ↦ createThread_takesCpu⟩

/-- `-a 2147483646` with three queues on a system of four CPUs. -/
theorem wrappedEnd_accepted :
    dupSetAffinity 4 3 2147483646 intMax = .ok (2147483646, -2147483648) ∧
    ¬KeepsApart 4 3 2147483646 intMax dupSetAffinity dupCreateThreads dupStarts ∧
    ¬KeepsApart 4 3 2147483646 intMax setAffinity createThreads starts := by
  have hset : dupSetAffinity 4 3 2147483646 intMax = .ok (2147483646, -2147483648) := rfl
  refine ⟨hset, fun h ↦ ?_, fun h ↦ ?_⟩
  · exact absurd (h _ hset).1.le (by decide)
  · exact absurd (h _ hset).1.le (by decide)

theorem affinity_apart_twoQueues :
    dupSetAffinity 4 2 0 intMax = .ok (0, 1) ∧
    KeepsApart 4 2 0 intMax dupSetAffinity dupCreateThreads dupStarts ∧
    KeepsApart 4 2 0 intMax setAffinity createThreads starts := by
  have hp : ParsedRange 0 intMax := ⟨le_rfl, by decide, Or.inl rfl⟩
  obtain ⟨hdup, hreceiver⟩ := @affinity_apart_iff 0 intMax 4 2 hp (by decide) (by decide)
    (by decide)
  exact ⟨rfl, hdup.2 (by decide), hreceiver.2 (by decide)⟩

end Dpa.Tools
