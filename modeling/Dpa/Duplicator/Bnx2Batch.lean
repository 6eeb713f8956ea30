import Dpa.Duplicator.Bnx2Agrees

namespace Dpa.Duplicator

open Kernel Function MachineWord Library

variable {cfg : Config} {ring : DpaRing} {buf : ℕ → ℕ → UInt8} {cur n i j : ℕ} {l : List ℕ}

structure Advances (ring : DpaRing) (n : ℕ) (s : System) : Prop where
  running : s.producer.pc.stage ≠ .poll → s.ring = ring ∧ s.producer.numProc = n ∧
    s.producer.rx ≤ n ∧ s.producer.cur = (dpaRingNext ring)^[s.producer.rx] ring.cur
  copying : s.producer.pc.stage = .copying → s.producer.rx < n
  flushing : s.producer.pc.stage = .flushing → s.producer.rx = n
  done : s.producer.pc.stage = .poll →
    s.ring = { ring with avail := ring.avail - n, cur := (dpaRingNext ring)^[n] ring.cur }

namespace Advances

variable {s t : System}

theorem of_stage (h : Advances ring n s) (hring : t.ring = s.ring)
    (hcur : t.producer.cur = s.producer.cur) (hrx : t.producer.rx = s.producer.rx)
    (hnum : t.producer.numProc = s.producer.numProc)
    (hstage : t.producer.pc.stage = s.producer.pc.stage) : Advances ring n t := by
  constructor
  case running =>
    rw [hstage, hring, hnum, hrx, hcur]
    exact h.running
  case copying =>
    rw [hstage, hrx]
    exact h.copying
  case flushing =>
    rw [hstage, hrx]
    exact h.flushing
  case done =>
    rw [hstage, hring]
    exact h.done

theorem next (h : Advances ring n s) (hpoll : s.producer.pc.stage ≠ .poll)
    (hlt : s.producer.rx < n) (hring : t.ring = s.ring)
    (hcur : t.producer.cur = dpaRingNext s.ring s.producer.cur)
    (hrx : t.producer.rx = s.producer.rx + 1) (hnum : t.producer.numProc = s.producer.numProc)
    (hstage : t.producer.pc.stage = .take) : Advances ring n t := by
  obtain ⟨hr, hn, hle, hc⟩ := h.running hpoll
  constructor
  case running =>
    intro _
    refine ⟨hring.trans hr, hnum.trans hn, by omega, ?_⟩
    rw [hcur, hrx, hr, hc, iterate_succ_apply']
  case copying =>
    intro hc'
    rw [hstage] at hc'
    cases hc'
  case flushing =>
    intro hc'
    rw [hstage] at hc'
    cases hc'
  case done =>
    intro hc'
    rw [hstage] at hc'
    cases hc'

theorem turn (h : Advances ring n s) (hpoll : s.producer.pc.stage ≠ .poll)
    (hring : t.ring = s.ring) (hcur : t.producer.cur = s.producer.cur)
    (hrx : t.producer.rx = s.producer.rx) (hnum : t.producer.numProc = s.producer.numProc)
    (hcopying : t.producer.pc.stage = .copying → s.producer.rx < n)
    (hflushing : t.producer.pc.stage = .flushing → ¬s.producer.rx < n)
    (hpoll' : t.producer.pc.stage ≠ .poll) : Advances ring n t := by
  obtain ⟨hr, hn, hle, hc⟩ := h.running hpoll
  constructor
  case running =>
    intro _
    rw [hring, hnum, hrx, hcur]
    exact ⟨hr, hn, hle, hc⟩
  case copying =>
    rw [hrx]
    exact hcopying
  case flushing =>
    intro hstage
    have hge := hflushing hstage
    omega
  case done => exact fun hstage ↦ absurd hstage hpoll'

theorem finish (h : Advances ring n s) (hpc : s.producer.pc = .finish)
    (hring : t.ring = { s.ring with
      avail := s.ring.avail - s.producer.rx, cur := s.producer.cur })
    (hpc' : t.producer.pc = .poll) : Advances ring n t := by
  have hstage : t.producer.pc.stage = .poll := by
    rw [hpc']
    rfl
  obtain ⟨hr, -, -, hc⟩ := h.running (by rw [hpc]; exact fun h ↦ by cases h)
  have hrx := h.flushing (by rw [hpc]; rfl)
  constructor
  case running => exact fun hne ↦ absurd hstage hne
  case copying =>
    rw [hstage]
    exact fun h ↦ by cases h
  case flushing =>
    rw [hstage]
    exact fun h ↦ by cases h
  case done =>
    intro _
    rw [hring, hc, hr, hrx]

theorem copy (h : Advances ring n s) (hpc : s.producer.pc = .copy i) :
    Advances ring n (s.copy cfg i) := by
  have hstage : s.producer.pc.stage = .copying := by
    rw [hpc]
    rfl
  unfold System.copy
  by_cases hi : i < cfg.copies
  · rw [if_pos hi]
    by_cases hzero : s.producer.wavali i = 0
    · rw [if_pos hzero]
      exact h.of_stage rfl rfl rfl rfl hstage.symm
    · rw [if_neg hzero]
      exact h.of_stage rfl rfl rfl rfl hstage.symm
  · rw [if_neg hi]
    exact h.next (by rw [hstage]; exact fun h ↦ by cases h) (h.copying hstage) rfl rfl rfl rfl rfl

theorem flush (h : Advances ring n s) (hpc : s.producer.pc = .flush i) :
    Advances ring n (s.flush cfg i) := by
  have hstage : s.producer.pc.stage = .flushing := by
    rw [hpc]
    rfl
  unfold System.flush
  by_cases hi : i < cfg.copies
  · rw [if_pos hi]
    by_cases hofs : dupQueueWidxOffset (s.queue i) (s.producer.widx i) ≠ 0
    · rw [if_pos hofs]
      exact h.of_stage rfl rfl rfl rfl hstage.symm
    · rw [if_neg hofs]
      exact h.of_stage rfl rfl rfl rfl hstage.symm
  · rw [if_neg hi]
    exact h.of_stage rfl rfl rfl rfl hstage.symm

theorem refill (h : Advances ring n s) (hpc : s.producer.pc = .refill i) :
    Advances ring n (s.refill i) := by
  have hstage : s.producer.pc.stage = .copying := by
    rw [hpc]
    rfl
  unfold System.refill
  by_cases hzero : dupQueueWriteAvali.atomically (s.queue i) = 0
  · simp only [hzero, if_true]
    exact h.of_stage rfl rfl rfl rfl hstage.symm
  · simp only [hzero, if_false]
    exact h.of_stage rfl rfl rfl rfl hstage.symm

theorem consume (h : Advances ring n s) (i : ℕ) : Advances ring n (s.consume i) := by
  obtain ⟨hring, -, hproducer⟩ := consume_front s i
  exact h.of_stage hring (by rw [hproducer]) (by rw [hproducer]) (by rw [hproducer])
    (by rw [hproducer])

theorem take (h : Advances ring n s) (hpc : s.producer.pc = .take) :
    Advances ring n (s.take cfg) := by
  have hpoll : s.producer.pc.stage ≠ .poll := by
    rw [hpc]
    exact fun h ↦ by cases h
  have hnum := (h.running hpoll).2.1
  unfold System.take
  by_cases hlt : s.producer.rx < s.producer.numProc
  · rw [if_pos hlt]
    by_cases hbad : s.inSlot.len > cfg.maxPktSize ∨ s.inSlot.len = 0
    · rw [if_pos hbad]
      exact h.next hpoll (hnum ▸ hlt) rfl rfl rfl rfl (by rw [hpc]; rfl)
    · rw [if_neg hbad]
      exact h.turn hpoll rfl rfl rfl rfl (fun _ ↦ hnum ▸ hlt) (fun h ↦ by cases h)
        fun h ↦ by cases h
  · rw [if_neg hlt]
    exact h.turn hpoll rfl rfl rfl rfl (fun h ↦ by cases h) (fun _ ↦ hnum ▸ hlt)
      fun h ↦ by cases h

theorem produce (h : Advances ring n s) : Advances ring n (s.produce cfg) := by
  unfold System.produce
  cases hpc : s.producer.pc with
  | poll => exact h
  | take => exact h.take hpc
  | copy i => exact h.copy hpc
  | refill i => exact h.refill hpc
  | store i =>
    refine h.of_stage rfl rfl rfl rfl ?_
    rw [hpc]
    unfold System.store
    dsimp only [goto_pc]
    split_ifs <;> rfl
  | publish i => exact h.of_stage rfl rfl rfl rfl (by rw [hpc]; rfl)
  | refresh i => exact h.of_stage rfl rfl rfl rfl (by rw [hpc]; rfl)
  | flush i => exact h.flush hpc
  | flushed i => exact h.of_stage rfl rfl rfl rfl (by rw [hpc]; rfl)
  | finish => exact h.finish hpc rfl rfl

theorem bnx2_take {s : Bnx2System} (h : Advances ring n s.toSystem)
    (hpc : s.producer.pc = .take) : Advances ring n (s.take cfg).toSystem := by
  have hpoll : s.producer.pc.stage ≠ .poll := by
    rw [hpc]
    exact fun h ↦ by cases h
  have hnum := (h.running hpoll).2.1
  unfold Bnx2System.take
  by_cases hlt : s.producer.rx < s.producer.numProc
  · rw [if_pos hlt]
    cases isLink s.ring s.producer.cur with
    | true =>
      rw [if_pos rfl]
      exact h.next hpoll (hnum ▸ hlt) rfl rfl rfl rfl (by rw [hpc]; rfl)
    | false =>
      rw [if_neg Bool.false_ne_true]
      by_cases hbad : s.inSlot.len > cfg.maxPktSizeBnx2 ∨ s.inSlot.len = 0
      · rw [if_pos hbad]
        exact h.next hpoll (hnum ▸ hlt) rfl rfl rfl rfl (by rw [hpc]; rfl)
      · rw [if_neg hbad]
        exact h.turn hpoll rfl rfl rfl rfl (fun _ ↦ hnum ▸ hlt) (fun h ↦ by cases h)
          fun h ↦ by cases h
  · rw [if_neg hlt]
    exact h.turn hpoll rfl rfl rfl rfl (fun h ↦ by cases h) (fun _ ↦ hnum ▸ hlt)
      fun h ↦ by cases h

theorem bnx2_produce {s : Bnx2System} (h : Advances ring n s.toSystem) :
    Advances ring n (s.produce cfg).toSystem := by
  unfold Bnx2System.produce
  cases hpc : s.producer.pc with
  | poll => exact h
  | take => exact h.bnx2_take hpc
  | copy i => exact h.copy hpc
  | refill i => exact (h.refill hpc).of_stage rfl rfl rfl rfl rfl
  | store i =>
    refine h.of_stage rfl rfl rfl rfl ?_
    rw [hpc]
    unfold Bnx2System.store
    dsimp only
    split_ifs <;> rfl
  | publish i => exact h.of_stage rfl rfl rfl rfl (by rw [hpc]; rfl)
  | refresh i => exact h.of_stage rfl rfl rfl rfl (by rw [hpc]; rfl)
  | flush i => exact h.flush hpc
  | flushed i => exact h.of_stage rfl rfl rfl rfl (by rw [hpc]; rfl)
  | finish => exact h.finish hpc rfl rfl

end Advances

theorem next_lt (hslots : ring.numSlots < 2 ^ 32) (hcur : cur < ring.numSlots) :
    dpaRingNext ring cur < ring.numSlots := by
  have hnext : u32 ((cur : ℤ) + 1) = cur + 1 := by
    rw [u32_of_mem (by omega) (by omega)]
    omega
  unfold dpaRingNext
  rw [hnext]
  split_ifs
  · omega
  · omega

theorem examined_lt (hslots : ring.numSlots < 2 ^ 32) (hcur : cur < ring.numSlots) :
    ∀ c ∈ examined ring cur n, c < ring.numSlots := by
  induction n generalizing cur with
  | zero => exact fun c hc ↦ nomatch hc
  | succ n ih =>
    intro c hc
    rcases List.mem_cons.1 hc with rfl | hc
    · exact hcur
    · exact ih (next_lt hslots hcur) c hc

theorem length_examined (ring : DpaRing) (cur n : ℕ) : (examined ring cur n).length = n := by
  induction n generalizing cur with
  | zero => rfl
  | succ n ih => exact congrArg Nat.succ (ih _)

/-- The index that is computed is the NIC index, but for multiples of 256. -/
theorem isLink_iff (hdvd : 256 ∣ ring.numSlots) (hofs : 0 ≤ ring.hwOfs)
    (hofs' : ring.hwOfs < ring.numSlots) (hcur : cur < ring.numSlots) :
    isLink ring cur = decide (nicIndex ring cur % 256 = 255) := by
  obtain ⟨q, hq⟩ := hdvd
  obtain ⟨h, hh⟩ := Int.eq_ofNat_of_zero_le hofs
  have hcode : hwCur ring cur % 256 = ((cur : ℤ) - h) % 256 := by
    unfold hwCur s32
    rw [hq, hh]
    push_cast
    split_ifs <;> omega
  have hnic : ((nicIndex ring cur % 256 : ℕ) : ℤ) = ((cur : ℤ) - h) % 256 := by
    unfold nicIndex
    rw [hh, Int.toNat_natCast]
    rw [hh] at hofs'
    rcases Nat.lt_or_ge cur h with hlt | hge
    · have hmod : (cur + ring.numSlots - h) % ring.numSlots = cur + ring.numSlots - h :=
        Nat.mod_eq_of_lt (by omega)
      rw [hmod, hq]
      push_cast
      omega
    · have hmod : (cur - h) % ring.numSlots = cur - h := Nat.mod_eq_of_lt (by omega)
      rw [show cur + ring.numSlots - h = cur - h + ring.numSlots by omega, Nat.add_mod_right,
        hmod]
      push_cast
      omega
  rw [isLink, hcode, ← hnic]
  exact decide_eq_decide.2 (by omega)

theorem kept_eq (ring : DpaRing) (buf : ℕ → ℕ → UInt8) (cur n : ℕ) :
    kept ring buf cur n = ((examined ring cur n).filter fun c ↦ !isLink ring c).map
      (packetAt ring (payload buf)) := by
  induction n generalizing cur with
  | zero => rfl
  | succ n ih =>
    rw [kept, examined, List.filter_cons, ih]
    cases isLink ring cur with
    | true => rfl
    | false => rfl

theorem batch_onlySlots (ring : DpaRing) (buf : ℕ → ℕ → UInt8) (hl : l.length < 2 ^ 32)
    (hn : n = l.length - j) :
    batch (onlySlots ring l) buf j n = (l.drop j).map (packetAt ring buf) := by
  induction n generalizing j with
  | zero =>
    rw [List.drop_eq_nil_of_le (by omega)]
    rfl
  | succ n ih =>
    have hj : j < l.length := by omega
    have hpacket : packetAt (onlySlots ring l) buf j = packetAt ring buf l[j] := by
      simp [packetAt, onlySlots, hj]
    have hu32 : u32 ((j : ℤ) + 1) = j + 1 := by
      rw [u32_of_mem (by omega) (by omega)]
      omega
    rw [batch, hpacket, List.drop_eq_getElem_cons hj, List.map_cons]
    congr 1
    cases n with
    | zero =>
      rw [List.drop_eq_nil_of_le (by omega)]
      rfl
    | succ n =>
      have hnext : dpaRingNext (onlySlots ring l) j = j + 1 := by
        unfold dpaRingNext
        rw [hu32]
        exact if_neg (show j + 1 ≠ l.length by omega)
      rw [hnext]
      exact ih (by omega)

section

variable {s : System}

def System.beginBnx2 (s : System) (ring : DpaRing) (buf : ℕ → ℕ → UInt8) : Bnx2System :=
  { s.begin ring buf with ipass := 0 }

theorem length_packetSlots (ring : DpaRing) : (packetSlots ring).length ≤ dupPktPerProcess :=
  calc
    _ ≤ (examined ring ring.cur (min ring.avail dupPktPerProcess)).length :=
      List.length_filter_le _ _
    _ = min ring.avail dupPktPerProcess := length_examined _ _ _
    _ ≤ dupPktPerProcess := min_le_right _ _

theorem follows_begin (s : System) (buf : ℕ → ℕ → UInt8) (hdvd : 256 ∣ ring.numSlots)
    (hslots : ring.numSlots < 2 ^ 32) (hofs : 0 ≤ ring.hwOfs) (hofs' : ring.hwOfs < ring.numSlots)
    (hcur : ring.cur < ring.numSlots) :
    Follows (s.beginBnx2 ring buf) (s.begin (onlySlots ring (packetSlots ring)) (payload buf)) := by
  have hlen := length_packetSlots ring
  refine ⟨⟨onlySlots ring (packetSlots ring), payload buf, 0, 0,
    min (packetSlots ring).length dupPktPerProcess, s.record.input, s.record.log⟩, rfl, ?_, ?_, ?_⟩
  · exact fun _ ↦ rfl
  · intro _
    have hfilter : packetSlots ring = (examined ring ring.cur
        (min ring.avail dupPktPerProcess)).filter fun c ↦ !isLink ring c := by
      refine List.filter_congr fun c hc ↦ ?_
      rw [isLink_iff hdvd hofs hofs' (examined_lt hslots hcur c hc)]
      simp
    have hbatch := batch_onlySlots ring (payload buf)
      (hlen.trans_lt (by decide : dupPktPerProcess < 2 ^ 32)) (Nat.sub_zero _).symm
    rw [List.drop_zero] at hbatch
    show batch (onlySlots ring (packetSlots ring)) (payload buf) 0
      (min (packetSlots ring).length dupPktPerProcess - 0) =
      kept ring buf ring.cur (min ring.avail dupPktPerProcess - 0)
    rw [min_eq_left hlen, Nat.sub_zero, Nat.sub_zero, hbatch, kept_eq, ← hfilter]
  · exact fun h ↦ by cases h

theorem advances_begin (s : System) (ring : DpaRing) (buf : ℕ → ℕ → UInt8) :
    Advances ring (min ring.avail dupPktPerProcess) (s.begin ring buf) where
  running _ := ⟨rfl, rfl, Nat.zero_le _, rfl⟩
  copying h := by cases h
  flushing h := by cases h
  done h := by cases h

def afterBatch (ring : DpaRing) : DpaRing :=
  { ring with
    avail := ring.avail - min ring.avail dupPktPerProcess
    cur := (dpaRingNext ring)^[min ring.avail dupPktPerProcess] ring.cur }

/-- A batch of `dup_proc_bnx2` leaves what one of `dup_proc_intel` leaves that was given other
slots, and both leave their ring behind all the slots they were given. -/
structure BatchAgrees (ring ring' : DpaRing) (s : Bnx2System) (t : System) : Prop where
  pc : s.producer.pc = .poll ∧ t.producer.pc = .poll
  queue : s.queue = t.queue
  slots : s.slots = t.slots
  consumer : s.consumer = t.consumer
  delivered : s.record.delivered = t.record.delivered
  targs : s.targs = t.targs
  cached : s.producer.widx = t.producer.widx ∧ s.producer.wavali = t.producer.wavali
  ring : s.ring = afterBatch ring
  ring' : t.ring = afterBatch ring'

theorem Follows.agrees {ring' : DpaRing} {s : Bnx2System} {t : System} (h : Follows s t)
    (hs : Advances ring (min ring.avail dupPktPerProcess) s.toSystem)
    (ht : Advances ring' (min ring'.avail dupPktPerProcess) t)
    (hpc : s.producer.pc = .poll) : BatchAgrees ring ring' s t := by
  obtain ⟨f, rfl, hf⟩ := h
  have hstage : s.producer.pc.stage = .poll := by
    rw [hpc]
    rfl
  exact ⟨⟨hpc, hpc⟩, rfl, rfl, rfl, rfl, rfl, ⟨rfl, rfl⟩, hs.done hstage, ht.done hstage⟩

/-- A batch of `dup_proc_bnx2`, whatever the consumers do meanwhile, is one of `dup_proc_intel` that
is given just the slots whose NIC index is not the last of its page, and the other way round. -/
theorem bnx2_batch_agrees (cfg : Config) (s : System) (ring : DpaRing) (buf : ℕ → ℕ → UInt8)
    (hdvd : 256 ∣ ring.numSlots) (hslots : ring.numSlots < 2 ^ 32) (hofs : 0 ≤ ring.hwOfs)
    (hofs' : ring.hwOfs < ring.numSlots) (hcur : ring.cur < ring.numSlots) :
    let ring' := onlySlots ring (packetSlots ring)
    let bnx2 := fun es ↦ schedule (Bnx2System.produce cfg) (fun i s ↦ s.consume i) es
      (s.beginBnx2 ring buf)
    let intel := fun es ↦ schedule (System.produce cfg.forBnx2) (fun i t ↦ t.consume i) es
      (s.begin ring' (payload buf))
    (∀ es, (bnx2 es).producer.pc = .poll →
      ∃ es', es'.reduceOption = es.reduceOption ∧ BatchAgrees ring ring' (bnx2 es) (intel es')) ∧
    ∀ es', (intel es').producer.pc = .poll →
      ∃ es, es.reduceOption = es'.reduceOption ∧ BatchAgrees ring ring' (bnx2 es) (intel es') := by
  intro ring' bnx2 intel
  have hbegin := follows_begin s buf hdvd hslots hofs hofs' hcur
  have hbnx2 : ∀ es, Advances ring (min ring.avail dupPktPerProcess) (bnx2 es).toSystem := fun es ↦
    schedule_preserves (P := fun s : Bnx2System ↦
      Advances ring (min ring.avail dupPktPerProcess) s.toSystem)
      (fun _ h ↦ h.bnx2_produce) (fun i _ h ↦ h.consume i) es (advances_begin s ring buf)
  have hintel : ∀ es, Advances ring' (min ring'.avail dupPktPerProcess) (intel es) := fun es ↦
    schedule_preserves (fun _ h ↦ h.produce) (fun i _ h ↦ h.consume i) es
      (advances_begin s ring' (payload buf))
  constructor
  · intro es hpc
    obtain ⟨es', hsame, hfollows⟩ := (bnx2_stutters cfg).forward es hbegin
    exact ⟨es', hsame, hfollows.agrees (hbnx2 es) (hintel es') hpc⟩
  · intro es' hpc
    obtain ⟨es, hsame, hfollows⟩ := (bnx2_stutters cfg).backward es' hbegin
    have hpc' : (bnx2 es).producer.pc = .poll := by
      obtain ⟨f, heq, -⟩ := hfollows
      have hpcs := congrArg (fun t : System ↦ t.producer.pc) heq
      exact hpcs.symm.trans hpc
    exact ⟨es, hsame, hfollows.agrees (hbnx2 es) (hintel es') hpc'⟩

/-- One copy with two slots, and an input ring whose next slots are the last two of a page and the
first of the other. -/
def lastSlot : System where
  queue := fun _ ↦ dupQueueInit ⟨0, 0, 0, 0, 0, 0, 0, 0, 0⟩ 0 2 64 64
  slots := fun _ _ ↦ ⟨0, 0, fun _ ↦ 0⟩
  ring := ⟨512, 3, 254, 0, 0, 2048, fun i ↦ ⟨i, 1, 0⟩⟩
  buf := fun _ _ ↦ 7
  producer := ⟨.poll, 0, 0, 0, 0, 0, 0, fun _ ↦ 0, fun _ ↦ 1⟩
  consumer := fun _ ↦ ⟨.wait, 0⟩
  targs := ⟨0, 0, 0, 0⟩
  record := ⟨[], fun _ ↦ [], fun _ ↦ []⟩

theorem bnx2_batch_agrees_lastSlot :
    packetSlots lastSlot.ring = [254, 256] ∧
      ∃ es', es'.reduceOption = [] ∧ BatchAgrees lastSlot.ring
        (onlySlots lastSlot.ring (packetSlots lastSlot.ring))
        (schedule (Bnx2System.produce ⟨1, 2048⟩) (fun i s ↦ s.consume i) (List.replicate 20 none)
          (lastSlot.beginBnx2 lastSlot.ring lastSlot.buf))
        (schedule (System.produce (Config.forBnx2 ⟨1, 2048⟩)) (fun i t ↦ t.consume i) es'
          (lastSlot.begin (onlySlots lastSlot.ring (packetSlots lastSlot.ring))
            (payload lastSlot.buf))) :=
  ⟨by decide +kernel, (bnx2_batch_agrees ⟨1, 2048⟩ lastSlot lastSlot.ring lastSlot.buf
    (by decide) (by decide) (by decide) (by decide) (by decide)).1 (List.replicate 20 none)
    (by decide +kernel)⟩

/-- What a batch still has to do, for each step of the producer at least 1. -/
def work (cfg : Config) (s : System) : ℕ :=
  let slots := fun k ↦ k * (5 * cfg.copies + 2) + (2 * cfg.copies + 3)
  let rest := slots (s.producer.numProc - (s.producer.rx + 1))
  match s.producer.pc with
  | .poll => 0
  | .take => slots (s.producer.numProc - s.producer.rx)
  | .copy i => rest + 5 * (cfg.copies - i) + 1
  | .refill i => rest + 5 * (cfg.copies - (i + 1)) + 5
  | .store i => rest + 5 * (cfg.copies - (i + 1)) + 4
  | .publish i => rest + 5 * (cfg.copies - (i + 1)) + 3
  | .refresh i => rest + 5 * (cfg.copies - (i + 1)) + 2
  | .flush i => 2 * (cfg.copies - i) + 2
  | .flushed i => 2 * (cfg.copies - (i + 1)) + 3
  | .finish => 1

theorem pc_of_work_eq_zero (h : work cfg s = 0) : s.producer.pc = .poll := by
  unfold work at h
  cases hpc : s.producer.pc with
  | poll => rfl
  | _ =>
    rw [hpc] at h
    dsimp only at h
    omega

theorem work_slot {k : ℕ} (h : s.producer.rx < s.producer.numProc) :
    (s.producer.numProc - s.producer.rx) * k =
      (s.producer.numProc - (s.producer.rx + 1)) * k + k := by
  rw [show s.producer.numProc - s.producer.rx =
    s.producer.numProc - (s.producer.rx + 1) + 1 by omega, Nat.add_mul, Nat.one_mul]

theorem work_copy (hpc : s.producer.pc = .copy i) : work cfg (s.copy cfg i) ≤ work cfg s - 1 := by
  unfold System.copy
  split_ifs with hi hzero
  · simp only [work, hpc, System.goto]
    omega
  · simp only [work, hpc, System.goto]
    omega
  · simp only [work, hpc]
    omega

theorem work_refill (hpc : s.producer.pc = .refill i) : work cfg (s.refill i) ≤ work cfg s - 1 := by
  unfold System.refill
  by_cases hzero : dupQueueWriteAvali.atomically (s.queue i) = 0
  · simp only [hzero, if_true, work, hpc, System.goto, System.logVerdict, System.setQueue,
      System.setWavali]
    omega
  · simp only [hzero, if_false, work, hpc, System.goto, System.setWavali]
    omega

theorem work_flush (hpc : s.producer.pc = .flush i) :
    work cfg (s.flush cfg i) ≤ work cfg s - 1 := by
  unfold System.flush
  split_ifs with hi hofs
  · simp only [work, hpc, System.goto]
    omega
  · simp only [work, hpc, System.goto]
    omega
  · simp only [work, hpc, System.goto]
    omega

theorem work_publish (hpc : s.producer.pc = .publish i) :
    work cfg (s.publish i) ≤ work cfg s - 1 := by
  simp only [System.publish, System.goto, System.setQueue, work, hpc]
  omega

theorem work_refresh (hpc : s.producer.pc = .refresh i) :
    work cfg (s.refresh i) ≤ work cfg s - 1 := by
  simp only [System.refresh, System.goto, System.setWavali, work, hpc]
  omega

theorem work_flushed (hpc : s.producer.pc = .flushed i) :
    work cfg (s.flushed i) ≤ work cfg s - 1 := by
  simp only [System.flushed, System.goto, System.setWavali, work, hpc]
  omega

theorem work_produce (s : Bnx2System) :
    work cfg (s.produce cfg).toSystem ≤ work cfg s.toSystem - 1 := by
  unfold Bnx2System.produce
  cases hpc : s.producer.pc with
  | poll => simp [work, hpc]
  | take =>
    unfold Bnx2System.take
    by_cases hlt : s.producer.rx < s.producer.numProc
    · have hslot := work_slot (k := 5 * cfg.copies + 2) hlt
      rw [if_pos hlt]
      split_ifs
      · simp only [work, hpc]
        omega
      · simp only [work, hpc]
        omega
      · simp only [work, hpc]
        omega
    · rw [if_neg hlt]
      simp only [work, hpc, System.goto]
      omega
  | copy i => exact work_copy hpc
  | refill i => exact work_refill hpc
  | store i =>
    unfold Bnx2System.store
    dsimp only
    split_ifs
    · simp only [work, hpc]
      omega
    · simp only [work, hpc]
      omega
  | publish i => exact work_publish hpc
  | refresh i => exact work_refresh hpc
  | flush i => exact work_flush hpc
  | flushed i => exact work_flushed hpc
  | finish => simp only [Bnx2System.finish, work, hpc, le_refl, Nat.sub_self]

/-- A batch of `dup_proc_bnx2` ends, whatever the consumers do meanwhile. -/
theorem bnx2_batch_ends (cfg : Config) (s : Bnx2System) (es : List (Option ℕ))
    (hes : work cfg s.toSystem ≤ es.countP Option.isNone) :
    (schedule (Bnx2System.produce cfg) (fun i s ↦ s.consume i) es s).producer.pc = .poll := by
  have hconsume : ∀ (i : ℕ) (s : Bnx2System),
      work cfg (s.consume i).toSystem = work cfg s.toSystem := by
    intro i s
    have hproducer := (consume_front s.toSystem i).2.2
    simp only [Bnx2System.consume, work, hproducer]
  have hspent := schedule_spends (m := fun s : Bnx2System ↦ work cfg s.toSystem)
    work_produce hconsume es s
  refine pc_of_work_eq_zero (Nat.eq_zero_of_le_zero (hspent.trans ?_))
  exact (Nat.sub_eq_zero_of_le hes).le

end

end Dpa.Duplicator
