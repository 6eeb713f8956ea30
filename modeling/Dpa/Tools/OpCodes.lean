import Dpa.Client.RawStats

namespace Dpa.Tools.OpCodes

open Client Driver Function

inductive Field
  | packets
  | bytes
  | drops
  | errors
  deriving DecidableEq

namespace Field

def letter : Field → Char
  | packets => 'P'
  | bytes => 'B'
  | drops => 'D'
  | errors => 'E'

def lower : Field → Char
  | packets => 'p'
  | bytes => 'b'
  | drops => 'd'
  | errors => 'e'

def op : Field → BitVec 32
  | packets => dpaRxStatsOpPackets
  | bytes => dpaRxStatsOpBytes
  | drops => dpaRxStatsOpDrops
  | errors => dpaRxStatsOpErrors

/-- `DPA_DEV_CAPS_BIT_STATS_*`. -/
def cap : Field → BitVec 64
  | packets => 1 <<< 8
  | bytes => 1 <<< 9
  | drops => 1 <<< 10
  | errors => 1 <<< 11

/-- `DPA_DEV_CAPS_BIT_STATS_*_BY_QUEUE`. -/
def capByQueue : Field → BitVec 64
  | packets => 1 <<< 12
  | bytes => 1 <<< 13
  | drops => 1 <<< 14
  | errors => 1 <<< 15

def all : List Field := [packets, bytes, drops, errors]

def named (c : Char) (f : Field) : Bool := c = f.letter ∨ c = f.lower

end Field

/-- `DPA_DEV_SUPPORT_*`. -/
def supports (devCap bit : BitVec 64) : Bool := devCap &&& bit != 0

inductive OpError
  | invalidField (c : Char)
  | combined
  | noField
  | notSupported (f : Field)
  | notByQueue (f : Field)
  | noOutput
  | noOutputByQueue
  | invalidQueue (queueId : ℤ)

def OpError.text : OpError → String
  | invalidField c => "Invalid output field: \"" ++ toString c ++ "\"."
  | combined => "Output field \"S\" can't be combined with other fields."
  | noField => "No field specified."
  | notSupported f => "Output field \"" ++ toString f.letter ++ "\" not supported by device."
  | notByQueue f =>
    "Output field \"" ++ toString f.letter ++ "\" not supported with queue ID specified."
  | noOutput => "Device support no statistics output."
  | noOutputByQueue => "Device support no statistics output with queue ID specified."
  | invalidQueue queueId => "Invalid queue ID: " ++ toString queueId ++ "."

def isAll (c : Char) : Bool := c = 'S' ∨ c = 's'

/-- The flags `field_p` to `field_e` and `field_s`. -/
structure Marks where
  field : Field → Bool
  fieldS : Bool

def readFields : List Char → Marks → Except OpError Marks
  | [], m => .ok m
  | c :: cs, m =>
    match Field.all.find? (Field.named c) with
    | some f => readFields cs { m with field := update m.field f true }
    | none =>
      if isAll c then readFields cs { m with fieldS := true }
      else .error (.invalidField c)

def addOps (w : Field → Bool) (opCode : BitVec 32) : BitVec 32 :=
  Field.all.foldl (fun op f ↦ if w f then op ||| f.op else op) opCode

/-- `str2opcode`. Its loop is entered before it looks for the end of the string. -/
def str2opcode (str : List Char) (opCode : BitVec 32) : Except OpError (BitVec 32) :=
  if str = [] then .error (.invalidField (Char.ofNat 0))
  else do
    let m ← readFields str ⟨fun _ ↦ false, false⟩
    if m.fieldS then if Field.all.any m.field then .error .combined else .ok 0
    else if addOps m.field opCode = 0 then .error .noField
    else .ok (addOps m.field opCode)

def opCodeCheck (opCode : BitVec 32) (devCap : BitVec 64) (byQueue : Bool) :
    Except OpError (BitVec 32) :=
  if opCode ≠ 0 then
    match Field.all.find? fun f ↦ isSet opCode f.op && !supports devCap f.cap with
    | some f => .error (.notSupported f)
    | none =>
      match Field.all.find? fun f ↦ byQueue && isSet opCode f.op && !supports devCap f.capByQueue with
      | some f => .error (.notByQueue f)
      | none => .ok opCode
  else
    let opCode := addOps (fun f ↦ supports devCap f.cap) opCode
    if opCode = 0 then .error .noOutput
    else if byQueue then
      let opCode := Field.all.foldl
        (fun op f ↦ if !supports devCap f.capByQueue then op &&& ~~~f.op else op) opCode
      if opCode = 0 then .error .noOutputByQueue else .ok opCode
    else .ok opCode

def capMultiQueues : BitVec 64 := 1 <<< 0
def capBiDirRss : BitVec 64 := 1 <<< 1
def capVlanStrip : BitVec 64 := 1 <<< 2
def capDisableVlanStrip : BitVec 64 := 1 <<< 3
def capIdentifyPacketType : BitVec 64 := 1 <<< 4

/-- The capabilities in the table `DEV_PROC` of the library. -/
def devCap : NicStats → BitVec 64
  | .igb _ | .ixgbe _ =>
    capMultiQueues ||| capBiDirRss ||| capVlanStrip ||| capDisableVlanStrip |||
      capIdentifyPacketType ||| Field.packets.cap ||| Field.bytes.cap ||| Field.drops.cap ||| Field.errors.cap |||
      Field.packets.capByQueue |||
      (Field.bytes.capByQueue &&& ~~~Field.drops.capByQueue &&& ~~~Field.errors.capByQueue)
  | .bnx2 _ =>
    (capMultiQueues &&& ~~~capBiDirRss) ||| capVlanStrip |||
      (capDisableVlanStrip &&& ~~~capIdentifyPacketType) ||| Field.packets.cap ||| Field.bytes.cap ||| Field.drops.cap ||| Field.errors.cap |||
      Field.packets.capByQueue |||
      (Field.bytes.capByQueue &&& ~~~Field.drops.capByQueue &&& ~~~Field.errors.capByQueue)

/-- What `dpastats` asks of a device of `n` queues again and again: the operation code and the queue,
from the arguments of its options `-f` and from that of `-q`, which is -1 where it is absent. -/
def asks (fs : List (List Char)) (queueId : ℤ) (devCap : BitVec 64) (n : ℕ) :
    Except OpError (BitVec 32 × BitVec 32) := do
  let opCode ← fs.foldlM (fun op str ↦ str2opcode str op) 0
  if queueId ≥ 0 ∧ queueId ≥ n then .error (.invalidQueue queueId)
  else
    let queueId := if n = 1 then -1 else queueId
    let opCode ← opCodeCheck opCode devCap (queueId ≥ 0)
    .ok (opCode, if queueId < 0 then dpaQueueFlagAll else BitVec.ofInt 32 queueId)

/-- An argument of `-f` that names fields, or all of them. -/
def Names (str : List Char) : Prop :=
  str ≠ [] ∧ ((∀ c ∈ str, ∃ f, Field.named c f = true) ∨ ∀ c ∈ str, isAll c = true)

def choose (w : Field → Bool) (str : List Char) (f : Field) : Bool :=
  !str.any isAll && (w f || str.any (Field.named · f))

/-- The fields named since all of them were last asked for. -/
def chosen (fs : List (List Char)) : Field → Bool := fs.foldl choose fun _ ↦ false

variable {w v : Field → Bool} {str : List Char} {fs : List (List Char)} {f : Field}
  {nic : NicStats} {dev : StatsDevice} {queueId : ℤ} {n : ℕ}

theorem mem_all (f : Field) : f ∈ Field.all := by
  cases f <;> decide

def pick (p b d e : Bool) : Field → Bool
  | .packets => p
  | .bytes => b
  | .drops => d
  | .errors => e

theorem forall_pick {P : (Field → Bool) → Prop} (h : ∀ p b d e, P (pick p b d e)) (w : Field → Bool) :
    P w := by
  have hw : pick (w .packets) (w .bytes) (w .drops) (w .errors) = w := by
    funext f
    cases f <;> rfl
  exact hw ▸ h _ _ _ _

theorem addOps_add (w v : Field → Bool) :
    addOps w (addOps v 0) = addOps (fun f ↦ v f || w f) 0 := by
  revert v
  refine forall_pick (P := fun w ↦ ∀ v, addOps w (addOps v 0) = addOps (fun f ↦ v f || w f) 0) ?_ w
  intro p b d e
  refine forall_pick ?_
  revert p b d e
  decide

theorem isSet_addOps (w : Field → Bool) (f : Field) : isSet (addOps w 0) f.op = w f := by
  revert f
  refine forall_pick (P := fun w ↦ ∀ f : Field, isSet (addOps w 0) f.op = w f) ?_ w
  intro p b d e f
  revert p b d e
  cases f <;> decide

theorem addOps_eq_zero (w : Field → Bool) : addOps w 0 = 0 ↔ ∀ f, w f = false := by
  constructor
  · intro h f
    rw [← isSet_addOps w f, h]
    cases f <;> rfl
  · intro h
    rw [show w = fun _ ↦ false from funext h]
    rfl

theorem find_named {c : Char} (h : Field.named c f = true) :
    Field.all.find? (Field.named c) = some f := by
  rw [Field.named, decide_eq_true_iff] at h
  cases f with
  | packets => rcases h with rfl | rfl <;> rfl
  | bytes => rcases h with rfl | rfl <;> rfl
  | drops => rcases h with rfl | rfl <;> rfl
  | errors => rcases h with rfl | rfl <;> rfl

theorem not_named {c : Char} (h : isAll c = true) (f : Field) : Field.named c f = false := by
  rw [isAll, decide_eq_true_iff] at h
  rcases h with rfl | rfl <;> cases f <;> rfl

theorem find_none {c : Char} (h : isAll c = true) : Field.all.find? (Field.named c) = none := by
  rw [List.find?_eq_none]
  intro f _
  rw [not_named h]
  exact Bool.false_ne_true

theorem not_isAll {c : Char} (h : Field.named c f = true) : isAll c = false := by
  by_contra hall
  rw [not_named (Bool.of_not_eq_false hall)] at h
  cases h

theorem named_eq {c : Char} (h : Field.named c f = true) (g : Field) :
    Field.named c g = decide (f = g) := by
  by_cases hfg : f = g
  · rw [← hfg, h]
    exact (decide_eq_true rfl).symm
  · rw [decide_eq_false hfg]
    by_contra hg
    exact hfg (Option.some.inj ((find_named h).symm.trans (find_named (Bool.of_not_eq_false hg))))

/-- What the loop makes of an argument whose characters are all letters that it knows. -/
theorem readFields_ok (m : Marks) (h : ∀ c ∈ str, (∃ f, Field.named c f = true) ∨ isAll c = true) :
    readFields str m =
      .ok ⟨fun f ↦ m.field f || str.any (Field.named · f), m.fieldS || str.any isAll⟩ := by
  induction str generalizing m with
  | nil => simp [readFields]
  | cons c cs ih =>
    have hcs := fun m ↦ ih m fun c' hc' ↦ h c' (List.mem_cons_of_mem c hc')
    rcases h c List.mem_cons_self with ⟨f, hf⟩ | hall
    · simp only [readFields, find_named hf, hcs, List.any_cons, not_isAll hf, Bool.false_or]
      congr 2
      funext g
      rw [named_eq hf, ← Bool.or_assoc]
      congr 1
      by_cases hfg : f = g
      · rw [← hfg, update_self, decide_eq_true rfl, Bool.or_true]
      · rw [update_of_ne (Ne.symm hfg), decide_eq_false hfg, Bool.or_false]
    · rw [readFields, find_none hall]
      simp only [hall, if_true, hcs, List.any_cons, not_named hall, Bool.false_or, Bool.true_or,
        Bool.or_true]

theorem letters_of_ok {m m' : Marks} (h : readFields str m = .ok m') :
    ∀ c ∈ str, (∃ f, Field.named c f = true) ∨ isAll c = true := by
  induction str generalizing m with
  | nil => exact fun c hc ↦ absurd hc List.not_mem_nil
  | cons c cs ih =>
    have hc : (∃ f, Field.named c f = true) ∨ isAll c = true := by
      cases hfind : Field.all.find? (Field.named c) with
      | some f => exact .inl ⟨f, List.find?_some hfind⟩
      | none =>
        right
        by_contra hall
        simp only [readFields, hfind, if_neg hall] at h
        cases h
    have hcs : ∃ m₁, readFields cs m₁ = .ok m' := by
      rcases hc with ⟨f, hf⟩ | hall
      · simp only [readFields, find_named hf] at h
        exact ⟨_, h⟩
      · simp only [readFields, find_none hall, hall, if_true] at h
        exact ⟨_, h⟩
    obtain ⟨m₁, hm₁⟩ := hcs
    intro c' hc'
    rcases List.mem_cons.1 hc' with rfl | hmem
    · exact hc
    · exact ih hm₁ c' hmem

/-- An argument that names fields adds them to those chosen before, one that asks for all of them drops
those. -/
theorem str2opcode_ok (h : Names str) (v : Field → Bool) :
    str2opcode str (addOps v 0) = .ok (addOps (choose v str) 0) := by
  obtain ⟨hne, hfields | hall⟩ := h
  · have hS : str.any isAll = false := by
      rw [List.any_eq_false]
      intro c hc
      obtain ⟨f, hf⟩ := hfields c hc
      rw [not_isAll hf]
      exact Bool.false_ne_true
    have hchoose : choose v str = fun f ↦ v f || str.any (Field.named · f) := by
      funext f
      rw [choose, hS]
      rfl
    have hnonzero : ¬addOps (choose v str) 0 = 0 := by
      rw [addOps_eq_zero, hchoose]
      intro hzero
      obtain ⟨c, hc⟩ := List.exists_mem_of_ne_nil str hne
      obtain ⟨f, hf⟩ := hfields c hc
      have hany : str.any (Field.named · f) = true := List.any_eq_true.2 ⟨c, hc, hf⟩
      have hf' : (v f || str.any (Field.named · f)) = false := hzero f
      rw [hany, Bool.or_true] at hf'
      cases hf'
    rw [hchoose] at hnonzero ⊢
    rw [str2opcode, if_neg hne, readFields_ok _ fun c hc ↦ .inl (hfields c hc), hS]
    simp only [bind, Except.bind, Bool.false_or, Bool.false_eq_true, if_false, addOps_add,
      if_neg hnonzero]
  · have hnone : ∀ f, str.any (Field.named · f) = false := by
      intro f
      rw [List.any_eq_false]
      intro c hc
      rw [not_named (hall c hc)]
      exact Bool.false_ne_true
    have hS : str.any isAll = true := by
      obtain ⟨c, hc⟩ := List.exists_mem_of_ne_nil str hne
      exact List.any_eq_true.2 ⟨c, hc, hall c hc⟩
    have hchoose : choose v str = fun _ ↦ false := by
      funext f
      rw [choose, hS]
      rfl
    rw [hchoose, str2opcode, if_neg hne, readFields_ok _ fun c hc ↦ .inr (hall c hc), hS]
    simp only [bind, Except.bind, hnone, Bool.or_true, if_true, Bool.or_false, Field.all, List.any_cons,
      List.any_nil, Bool.false_eq_true, if_false]
    rfl

theorem names_of_ok {op op' : BitVec 32} (h : str2opcode str op = .ok op') : Names str := by
  by_cases hne : str = []
  · rw [str2opcode, if_pos hne] at h
    cases h
  refine ⟨hne, ?_⟩
  rw [str2opcode, if_neg hne] at h
  cases hread : readFields str ⟨fun _ ↦ false, false⟩ with
  | error e =>
    rw [hread] at h
    cases h
  | ok m =>
    have hletters := letters_of_ok hread
    rw [readFields_ok _ hletters] at h
    simp only [bind, Except.bind, Bool.false_or] at h
    by_cases hS : str.any isAll = true
    · right
      simp only [hS, if_true] at h
      intro c hc
      refine (hletters c hc).resolve_left ?_
      rintro ⟨f, hf⟩
      have hany : Field.all.any (fun f ↦ str.any (Field.named · f)) = true :=
        List.any_eq_true.2 ⟨f, mem_all f, List.any_eq_true.2 ⟨c, hc, hf⟩⟩
      rw [if_pos hany] at h
      cases h
    · left
      intro c hc
      exact (hletters c hc).resolve_right fun hall ↦ hS (List.any_eq_true.2 ⟨c, hc, hall⟩)

theorem chooses_iff {op : BitVec 32} (v : Field → Bool) :
    fs.foldlM (fun op str ↦ str2opcode str op) (addOps v 0) = .ok op ↔
      (∀ str ∈ fs, Names str) ∧ op = addOps (fs.foldl choose v) 0 := by
  induction fs generalizing v with
  | nil => simp [pure, Except.pure, eq_comm]
  | cons str fs ih =>
    by_cases hnames : Names str
    · rw [List.foldlM_cons, str2opcode_ok hnames]
      refine (ih (choose v str)).trans (and_congr_left fun _ ↦ ?_)
      rw [List.forall_mem_cons, and_iff_right hnames]
    · refine iff_of_false ?_ fun h ↦ hnames (h.1 str List.mem_cons_self)
      rw [List.foldlM_cons]
      cases hstr : str2opcode str (addOps v 0) with
      | error e => exact fun h ↦ by cases h
      | ok op' => exact absurd (names_of_ok hstr) hnames

def Field.byQueue : Field → Bool
  | packets | bytes => true
  | drops | errors => false

def asked (w : Field → Bool) (byQueue : Bool) (f : Field) : Bool :=
  (w f || !Field.all.any w) && (!byQueue || f.byQueue)

/-- The check lets a device of one of the drivers be asked for what the driver counts. -/
theorem opCodeCheck_eq (w : Field → Bool) (byQueue : Bool) :
    opCodeCheck (addOps w 0) (devCap nic) byQueue =
      if byQueue = true ∧ w .drops = true then .error (.notByQueue .drops)
      else if byQueue = true ∧ w .errors = true then .error (.notByQueue .errors)
      else .ok (addOps (asked w byQueue) 0) := by
  have hcap : devCap nic = devCap (.igb ⟨0, 0⟩) ∨
      devCap nic = devCap (.bnx2 ⟨⟨0, 0⟩, ⟨0, 0⟩, ⟨0, 0⟩, ⟨0, 0⟩, ⟨0, 0⟩⟩) := by
    cases nic with
    | igb stats => exact .inl rfl
    | ixgbe stats => exact .inl rfl
    | bnx2 stats => exact .inr rfl
  generalize devCap nic = devCap' at hcap ⊢
  refine forall_pick (P := fun w ↦ opCodeCheck (addOps w 0) devCap' byQueue =
    if byQueue = true ∧ w .drops = true then .error (.notByQueue .drops)
    else if byQueue = true ∧ w .errors = true then .error (.notByQueue .errors)
    else .ok (addOps (asked w byQueue) 0)) ?_ w
  intro p b d e
  rcases hcap with rfl | rfl <;> cases p <;> cases b <;> cases d <;> cases e <;> cases byQueue <;> rfl

def requestQueue (n : ℕ) (queueId : ℤ) : BitVec 32 :=
  if n = 1 ∨ queueId < 0 then dpaQueueFlagAll else BitVec.ofInt 32 queueId

/-- Whether the driver of a device carries a request out that reaches it. -/
def driverAnswers (nic : NicStats) (dev : StatsDevice) (op queueId : BitVec 32) : Bool :=
  (dpaIoctlGetRxStats nic dev (request op queueId)).isSome

section

variable (hcarrier : dev.carrierOk = true) (hn : dev.numRxRings ≤ 0xfff)

include hcarrier

theorem driverAnswers_iff {op id : BitVec 32} (hin : ¬OutOfRange dev.numRxRings id) :
    driverAnswers nic dev op id = true ↔ isSet id dpaQueueFlagAll = true ∨ perQueue op = true :=
  nic.accepts hcarrier hin

include hn

/-- A driver takes every request for all queues, and for one queue those about packets and bytes. -/
theorem driverAnswers_addOps (hqueue : queueId < dev.numRxRings) (w : Field → Bool) :
    driverAnswers nic dev (addOps w 0) (requestQueue dev.numRxRings queueId) =
      (decide (dev.numRxRings = 1 ∨ queueId < 0) || (!w .drops && !w .errors)) := by
  have hper : perQueue (addOps w 0) = (!w .drops && !w .errors) := by
    rw [← isSet_addOps w .drops, ← isSet_addOps w .errors]
    rfl
  by_cases hall : dev.numRxRings = 1 ∨ queueId < 0
  · have hset : isSet dpaQueueFlagAll dpaQueueFlagAll = true := by decide
    rw [requestQueue, if_pos hall, decide_eq_true hall, Bool.true_or]
    exact (driverAnswers_iff hcarrier (not_outOfRange_of_all hset)).2 (.inl hset)
  · obtain ⟨i, rfl⟩ := Int.eq_ofNat_of_zero_le (not_lt.1 (not_or.1 hall).2)
    obtain ⟨hset, hmask⟩ := queue_number (by omega : i < 0x1000)
    rw [requestQueue, if_neg hall, decide_eq_false hall, Bool.false_or, ← hper, BitVec.ofInt_natCast]
    have hin : ¬OutOfRange dev.numRxRings (BitVec.ofNat 32 i) := by
      rintro ⟨-, hge⟩
      rw [hmask] at hge
      omega
    refine Bool.eq_iff_iff.2 ((driverAnswers_iff hcarrier hin).trans (or_iff_right ?_))
    rw [hset]
    exact Bool.false_ne_true

theorem driverAnswers_op (hqueue : queueId < dev.numRxRings) (f : Field) :
    driverAnswers nic dev f.op (requestQueue dev.numRxRings queueId) =
      (decide (dev.numRxRings = 1 ∨ queueId < 0) || f.byQueue) := by
  have hop : f.op = addOps (fun g ↦ g = f) 0 := by
    cases f <;> rfl
  rw [hop, driverAnswers_addOps hcarrier hn hqueue]
  cases f <;> rfl

omit hcarrier hn in
theorem asks_eq (hnames : ∀ str ∈ fs, Names str) (devCap : BitVec 64) {n : ℕ}
    (hqueue : queueId < n) : asks fs queueId devCap n =
      (opCodeCheck (addOps (chosen fs) 0) devCap (!decide (n = 1 ∨ queueId < 0))).map
        fun op ↦ (op, requestQueue n queueId) := by
  have hfold : fs.foldlM (fun op str ↦ str2opcode str op) 0 = .ok (addOps (chosen fs) 0) :=
    (chooses_iff fun _ ↦ false).2 ⟨hnames, rfl⟩
  have hby : decide ((if n = 1 then -1 else queueId) ≥ 0) = !decide (n = 1 ∨ queueId < 0) := by
    by_cases h1 : n = 1
    · simp [h1]
    · by_cases h0 : queueId < 0
      · simp [h1, h0]
      · simp [h1, h0, not_lt.1 h0]
  have hid : (if (if n = 1 then -1 else queueId) < 0 then dpaQueueFlagAll
      else BitVec.ofInt 32 (if n = 1 then -1 else queueId)) = requestQueue n queueId := by
    by_cases h1 : n = 1
    · simp [h1, requestQueue]
    · simp [h1, requestQueue]
  rw [asks, hfold]
  simp only [bind, Except.bind, if_neg (by omega : ¬(queueId ≥ 0 ∧ queueId ≥ n)), hby, hid]
  cases opCodeCheck (addOps (chosen fs) 0) devCap (!decide (n = 1 ∨ queueId < 0)) with
  | error e => rfl
  | ok op => rfl

omit hcarrier hn in
theorem asks_error (h : ¬((∀ str ∈ fs, Names str) ∧ queueId < n)) (devCap : BitVec 64)
    (hpos : 0 < n) : ∃ e, asks fs queueId devCap n = .error e := by
  cases hfold : fs.foldlM (fun op str ↦ str2opcode str op) (0 : BitVec 32) with
  | error e =>
    refine ⟨e, ?_⟩
    rw [asks, hfold]
    rfl
  | ok op =>
    have hnames := ((chooses_iff fun _ ↦ false).1 hfold).1
    refine ⟨.invalidQueue queueId, ?_⟩
    rw [asks, hfold]
    simp only [bind, Except.bind]
    rw [if_pos]
    have hge : ¬queueId < n := fun hlt ↦ h ⟨hnames, hlt⟩
    omega

theorem asked_eq (hqueue : queueId < dev.numRxRings) (w : Field → Bool) (f : Field) :
    asked w (!decide (dev.numRxRings = 1 ∨ queueId < 0)) f = ((w f || !Field.all.any w) &&
      driverAnswers nic dev f.op (requestQueue dev.numRxRings queueId)) := by
  rw [driverAnswers_op hcarrier hn hqueue, asked, Bool.not_not]

theorem exists_asked (hqueue : queueId < dev.numRxRings)
    (h : ∀ f, w f = true → driverAnswers nic dev f.op (requestQueue dev.numRxRings queueId) = true) :
    ∃ f, asked w (!decide (dev.numRxRings = 1 ∨ queueId < 0)) f = true := by
  by_cases hany : Field.all.any w = true
  · obtain ⟨f, -, hf⟩ := List.any_eq_true.1 hany
    refine ⟨f, ?_⟩
    rw [asked_eq hcarrier hn hqueue, hf, h f hf]
    rfl
  · refine ⟨.packets, ?_⟩
    rw [asked, Bool.eq_false_of_not_eq_true hany, Bool.not_not, Bool.not_false, Bool.or_true,
      Field.byQueue, Bool.or_true, Bool.and_true]

theorem driverAnswers_asked (hqueue : queueId < dev.numRxRings) (w : Field → Bool) :
    driverAnswers nic dev (addOps (asked w (!decide (dev.numRxRings = 1 ∨ queueId < 0))) 0)
      (requestQueue dev.numRxRings queueId) = true := by
  rw [driverAnswers_addOps hcarrier hn hqueue]
  cases decide (dev.numRxRings = 1 ∨ queueId < 0) with
  | true => rfl
  | false => simp [asked, Field.byQueue]

theorem driverAnswers_iff_checked (hqueue : queueId < dev.numRxRings) (w : Field → Bool) :
    (∀ f, w f = true → driverAnswers nic dev f.op (requestQueue dev.numRxRings queueId) = true) ↔
      ¬((!decide (dev.numRxRings = 1 ∨ queueId < 0)) = true ∧ w .drops = true) ∧
        ¬((!decide (dev.numRxRings = 1 ∨ queueId < 0)) = true ∧ w .errors = true) := by
  simp only [driverAnswers_op hcarrier hn hqueue]
  cases decide (dev.numRxRings = 1 ∨ queueId < 0) with
  | true => simp
  | false =>
    constructor
    · intro h
      exact ⟨fun hd ↦ Bool.false_ne_true (h .drops hd.2), fun he ↦ Bool.false_ne_true (h .errors he.2)⟩
    · intro h f hf
      cases f with
      | packets => rfl
      | bytes => rfl
      | drops => exact absurd ⟨rfl, hf⟩ h.1
      | errors => exact absurd ⟨rfl, hf⟩ h.2

omit hcarrier in
theorem requestQueue_odd (hqueue : queueId < dev.numRxRings) :
    (requestQueue dev.numRxRings queueId).toNat % 2 = 1 ↔
      ¬(dev.numRxRings = 1 ∨ queueId < 0 ∨ queueId % 2 = 0) := by
  by_cases hall : dev.numRxRings = 1 ∨ queueId < 0
  · rw [requestQueue, if_pos hall]
    exact iff_of_false (by decide) fun h ↦ h (hall.imp_right .inl)
  · obtain ⟨i, rfl⟩ := Int.eq_ofNat_of_zero_le (not_lt.1 (not_or.1 hall).2)
    rw [requestQueue, if_neg hall, BitVec.ofInt_natCast, BitVec.toNat_ofNat,
      Nat.mod_eq_of_lt (show i < 2 ^ 32 by omega)]
    omega

/-- `dpastats` asks for exactly what the driver of the device answers: it goes on whenever each of the
fields chosen is answered for the queue asked about, and then asks for those, or for all that are where
none is chosen. But the library does not pass the request on for any queue of an odd number, unless
there is one queue only. -/
theorem asks_iff (hpos : 0 < dev.numRxRings) {op id : BitVec 32} {fd : ℤ} (hfd : fd ≠ -1)
    (stats : DpaStats) :
    (asks fs queueId (devCap nic) dev.numRxRings = .ok (op, id) ↔
      (∀ str ∈ fs, Names str) ∧ queueId < dev.numRxRings ∧
        id = requestQueue dev.numRxRings queueId ∧
        (∀ f, chosen fs f = true → driverAnswers nic dev f.op id = true) ∧
        op = addOps (fun f ↦ (chosen fs f || !Field.all.any (chosen fs)) &&
          driverAnswers nic dev f.op id) 0) ∧
    (asks fs queueId (devCap nic) dev.numRxRings = .ok (op, id) →
      op ≠ 0 ∧ driverAnswers nic dev op id = true ∧
        (rawGetRxStats (dpaIoctlGetRxStats nic dev) ⟨fd, BitVec.ofNat 32 dev.numRxRings⟩ op id
          stats).1 =
            if dev.numRxRings = 1 ∨ queueId < 0 ∨ queueId % 2 = 0 then .ok else .badQueueId) := by
  by_cases hgood : (∀ str ∈ fs, Names str) ∧ queueId < dev.numRxRings
  · obtain ⟨hnames, hqueue⟩ := hgood
    have hchecked : (∀ f, chosen fs f = true →
        driverAnswers nic dev f.op (requestQueue dev.numRxRings queueId) = true) ↔ _ :=
      driverAnswers_iff_checked hcarrier hn hqueue (chosen fs)
    have hasked : asked (chosen fs) (!decide (dev.numRxRings = 1 ∨ queueId < 0)) =
        fun f ↦ (chosen fs f || !Field.all.any (chosen fs)) &&
          driverAnswers nic dev f.op (requestQueue dev.numRxRings queueId) :=
      funext (asked_eq hcarrier hn hqueue (chosen fs))
    rw [asks_eq hnames _ hqueue, opCodeCheck_eq]
    by_cases hall : ∀ f, chosen fs f = true →
        driverAnswers nic dev f.op (requestQueue dev.numRxRings queueId) = true
    · obtain ⟨hdrops, herrors⟩ := hchecked.1 hall
      rw [if_neg hdrops, if_neg herrors]
      constructor
      · constructor
        · intro h
          cases h
          exact ⟨hnames, hqueue, rfl, hall, congrArg (addOps · 0) hasked⟩
        · rintro ⟨-, -, rfl, -, rfl⟩
          rw [hasked]
          rfl
      · intro h
        cases h
        have hanswers := @driverAnswers_asked nic dev _ hcarrier hn hqueue (chosen fs)
        refine ⟨fun hzero ↦ ?_, hanswers, ?_⟩
        · obtain ⟨f, hf⟩ := exists_asked hcarrier hn hqueue hall
          rw [(addOps_eq_zero _).1 hzero f] at hf
          cases hf
        · obtain ⟨s, hs⟩ := Option.isSome_iff_exists.1 hanswers
          rw [rawGetRxStats_eq _ hfd hn, hs, apply_ite Prod.fst, ← ite_not]
          exact if_congr (not_iff_comm.1 (requestQueue_odd hn hqueue).symm) rfl rfl
    · have herror : ∃ e, (if (!decide (dev.numRxRings = 1 ∨ queueId < 0)) = true ∧
            chosen fs .drops = true then Except.error (.notByQueue .drops)
          else if (!decide (dev.numRxRings = 1 ∨ queueId < 0)) = true ∧ chosen fs .errors = true then
            .error (.notByQueue .errors)
          else .ok (addOps (asked (chosen fs) (!decide (dev.numRxRings = 1 ∨ queueId < 0))) 0)) =
            (Except.error e : Except OpError (BitVec 32)) := by
        rw [hchecked] at hall
        split_ifs with hd he
        · exact ⟨_, rfl⟩
        · exact ⟨_, rfl⟩
        · exact absurd ⟨hd, he⟩ hall
      obtain ⟨e, he⟩ := herror
      rw [he]
      refine ⟨iff_of_false (fun h ↦ by cases h) ?_, fun h ↦ by cases h⟩
      rintro ⟨-, -, rfl, h, -⟩
      exact hall h
  · obtain ⟨e, he⟩ := asks_error hgood (devCap nic) hpos
    rw [he]
    exact ⟨iff_of_false (fun h ↦ by cases h) fun h ↦ hgood ⟨h.1, h.2.1⟩, fun h ↦ by cases h⟩

end

def fourQueues : StatsDevice := { twoQueues with numRxRings := 4 }

def idleBnx2 : NicStats := .bnx2 ⟨⟨0, 0⟩, ⟨0, 0⟩, ⟨0, 0⟩, ⟨0, 0⟩, ⟨0, 0⟩⟩

/-- Two options `-f` for the third of four queues, and for the second of them. -/
theorem asks_iff_fourQueues :
    (asks ["S".toList, "bP".toList] 2 (devCap idleBnx2) 4 = .ok (3, 2) ∧
      (rawGetRxStats (dpaIoctlGetRxStats idleBnx2 fourQueues) ⟨5, 4⟩ 3 2
        ⟨false, 0, 0, 0, 0, 0⟩).1 = .ok) ∧
    asks ["S".toList, "bP".toList] 1 (devCap idleBnx2) 4 = .ok (3, 1) ∧
      (rawGetRxStats (dpaIoctlGetRxStats idleBnx2 fourQueues) ⟨5, 4⟩ 3 1
        ⟨false, 0, 0, 0, 0, 0⟩).1 = .badQueueId := by
  have hthird : asks ["S".toList, "bP".toList] 2 (devCap idleBnx2) 4 = .ok (3, 2) := by rfl
  have hsecond : asks ["S".toList, "bP".toList] 1 (devCap idleBnx2) 4 = .ok (3, 1) := by rfl
  have hasked (queueId : ℤ) (id : BitVec 32) :=
    @asks_iff ["S".toList, "bP".toList] idleBnx2 fourQueues queueId rfl (by decide) (by decide) 3 id
      5 (by decide) ⟨false, 0, 0, 0, 0, 0⟩
  exact ⟨⟨hthird, ((hasked 2 2).2 hthird).2.2⟩, hsecond, ((hasked 1 1).2 hsecond).2.2⟩

end Dpa.Tools.OpCodes
