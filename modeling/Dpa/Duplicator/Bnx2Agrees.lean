import Dpa.Duplicator.Bnx2

namespace Dpa.Duplicator

open Kernel Function MachineWord Library

variable {cfg : Config} {ring : DpaRing} {buf : ℕ → ℕ → UInt8} {cur n i : ℕ} {s : Bnx2System}

/-- The limit of `dup_proc_bnx2` as one that `dup_proc_intel` takes from its ring. -/
def Config.forBnx2 (cfg : Config) : Config := ⟨cfg.copies, cfg.bufSize + 65526⟩

theorem maxPktSize_forBnx2 (cfg : Config) : cfg.forBnx2.maxPktSize = cfg.maxPktSizeBnx2 := by
  unfold Config.maxPktSize Config.maxPktSizeBnx2 Config.forBnx2 dupSlotPacketOffset bnx2RxOffset u16
  dsimp only
  omega

/-- The bytes behind the header that the NIC puts before a packet. -/
def payload (buf : ℕ → ℕ → UInt8) : ℕ → ℕ → UInt8 := fun b j ↦ buf b (j + bnx2RxOffset)

def kept (ring : DpaRing) (buf : ℕ → ℕ → UInt8) : ℕ → ℕ → List Packet
  | _, 0 => []
  | cur, n + 1 =>
    if isLink ring cur then kept ring buf (dpaRingNext ring cur) n
    else packetAt ring (payload buf) cur :: kept ring buf (dpaRingNext ring cur) n

structure Feed where
  ring : DpaRing
  buf : ℕ → ℕ → UInt8
  cur : ℕ
  rx : ℕ
  numProc : ℕ
  input : List Packet
  log : ℕ → List (Packet × Bool)

def System.fed (s : System) (f : Feed) : System :=
  { s with
    ring := f.ring
    buf := f.buf
    producer := { s.producer with cur := f.cur, rx := f.rx, numProc := f.numProc }
    record := { s.record with input := f.input, log := f.log } }

/-- What is left to read of the other input is what is left but for the slots passed over. -/
structure Fed (s : Bnx2System) (f : Feed) : Prop where
  rx : s.producer.pc ≠ .poll → f.rx + s.ipass = s.producer.rx
  rest : s.producer.pc ≠ .poll → batch f.ring f.buf f.cur (f.numProc - f.rx) =
    kept s.ring s.buf s.producer.cur (s.producer.numProc - s.producer.rx)
  busy : s.producer.pc.stage = .copying →
    s.producer.rx < s.producer.numProc ∧ isLink s.ring s.producer.cur = false

def Follows (s : Bnx2System) (t : System) : Prop := ∃ f, t = s.toSystem.fed f ∧ Fed s f

variable {f : Feed}

theorem kept_cons (ring : DpaRing) (buf : ℕ → ℕ → UInt8) (hlt : cur < n)
    {c : ℕ} (hlink : isLink ring c = false) :
    kept ring buf c (n - cur) =
      packetAt ring (payload buf) c :: kept ring buf (dpaRingNext ring c) (n - (cur + 1)) := by
  rw [show n - cur = n - (cur + 1) + 1 by omega, kept, hlink]
  rfl

theorem Fed.head (hf : Fed s f) (hpc : s.producer.pc ≠ .poll)
    (hlt : s.producer.rx < s.producer.numProc) (hlink : isLink s.ring s.producer.cur = false) :
    f.rx < f.numProc ∧ packetAt f.ring f.buf f.cur = packetAt s.ring (payload s.buf) s.producer.cur ∧
      batch f.ring f.buf (dpaRingNext f.ring f.cur) (f.numProc - (f.rx + 1)) =
        kept s.ring s.buf (dpaRingNext s.ring s.producer.cur)
          (s.producer.numProc - (s.producer.rx + 1)) := by
  have hrest := hf.rest hpc
  rw [kept_cons s.ring s.buf hlt hlink] at hrest
  have hne : f.rx < f.numProc := by
    by_contra hge
    rw [show f.numProc - f.rx = 0 by omega] at hrest
    cases hrest
  rw [show f.numProc - f.rx = f.numProc - (f.rx + 1) + 1 by omega, batch, List.cons.injEq] at hrest
  exact ⟨hne, hrest.1, hrest.2⟩

theorem memcpy_congr {r r' : DpaRing} {b b' : ℕ → ℕ → UInt8} {c c' : ℕ}
    (h : packetAt r b c = packetAt r' b' c') (dst : ℕ → UInt8) :
    memcpy dst (b (r.slot c).bufIdx) (r.slot c).len =
      memcpy dst (b' (r'.slot c').bufIdx) (r'.slot c').len := by
  have hlen : (r.slot c).len = (r'.slot c').len := congrArg Packet.len h
  have hbytes := congrArg Packet.bytes h
  funext j
  unfold memcpy
  rw [← hlen]
  refine if_ctx_congr Iff.rfl (fun hj ↦ ?_) fun _ ↦ rfl
  have hget := congrArg (fun l ↦ l[j]?) hbytes
  simp only [packetAt, ← hlen, List.getElem?_map, List.getElem?_range hj, Option.map_some,
    Option.some.injEq] at hget
  exact hget

theorem Fed.len (hf : Fed s f) (hpc : s.producer.pc ≠ .poll)
    (hlt : s.producer.rx < s.producer.numProc) (hlink : isLink s.ring s.producer.cur = false) :
    (s.toSystem.fed f).inSlot.len = s.inSlot.len :=
  congrArg Packet.len (hf.head hpc hlt hlink).2.1

/-- A step that leaves the input alone and does not begin with a packet. -/
theorem Fed.of_same {s' : Bnx2System} {f' : Feed} (hf : Fed s f) (hpc : s.producer.pc ≠ .poll)
    (hring : s'.ring = s.ring) (hbuf : s'.buf = s.buf) (hcur : s'.producer.cur = s.producer.cur)
    (hrx : s'.producer.rx = s.producer.rx) (hnum : s'.producer.numProc = s.producer.numProc)
    (hipass : s'.ipass = s.ipass) (hfeed : (f'.ring, f'.buf, f'.cur, f'.rx, f'.numProc) =
      (f.ring, f.buf, f.cur, f.rx, f.numProc))
    (hbusy : s'.producer.pc.stage = .copying → s.producer.pc.stage = .copying) : Fed s' f' := by
  simp only [Prod.mk.injEq] at hfeed
  obtain ⟨hr, hb, hc, hx, hn⟩ := hfeed
  constructor
  case rx =>
    intro _
    rw [hx, hipass, hrx]
    exact hf.rx hpc
  case rest =>
    intro _
    rw [hr, hb, hc, hx, hn, hring, hbuf, hcur, hrx, hnum]
    exact hf.rest hpc
  case busy =>
    intro hstage
    rw [hring, hcur, hrx, hnum]
    exact hf.busy (hbusy hstage)

theorem Fed.copying (hf : Fed s f) (hstage : s.producer.pc.stage = .copying) :
    s.producer.pc ≠ .poll ∧ s.producer.rx < s.producer.numProc ∧
      isLink s.ring s.producer.cur = false := by
  refine ⟨fun hpc ↦ ?_, hf.busy hstage⟩
  rw [hpc] at hstage
  cases hstage

theorem follows_take (hf : Fed s f) (hpc : s.producer.pc = .take) :
    Follows (s.take cfg) ((s.toSystem.fed f).take cfg.forBnx2) ∨
      Follows (s.take cfg) (s.toSystem.fed f) ∧
        (s.take cfg).producer.numProc - (s.take cfg).producer.rx <
          s.producer.numProc - s.producer.rx := by
  have hpoll : s.producer.pc ≠ .poll := by
    rw [hpc]
    exact fun h ↦ by cases h
  unfold Bnx2System.take
  by_cases hlt : s.producer.rx < s.producer.numProc
  · rw [if_pos hlt]
    cases hlink : isLink s.ring s.producer.cur with
    | true =>
      rw [if_pos rfl]
      refine .inr ⟨⟨f, rfl, ?_, ?_, ?_⟩, ?_⟩
      · intro _
        have hrx := hf.rx hpoll
        dsimp only
        omega
      · intro _
        have hrest := hf.rest hpoll
        rw [show s.producer.numProc - s.producer.rx =
          s.producer.numProc - (s.producer.rx + 1) + 1 by omega, kept, hlink] at hrest
        exact hrest
      · intro hstage
        dsimp only at hstage
        rw [hpc] at hstage
        cases hstage
      · dsimp only
        omega
    | false =>
      rw [if_neg Bool.false_ne_true]
      obtain ⟨hlt', hpacket, hnext⟩ := hf.head hpoll hlt hlink
      have hlen := hf.len hpoll hlt hlink
      have hlen' : (f.ring.slot f.cur).len = s.inSlot.len := hlen
      refine .inl ?_
      unfold System.take
      rw [if_pos (show (s.toSystem.fed f).producer.rx < (s.toSystem.fed f).producer.numProc from
        hlt'), hlen, maxPktSize_forBnx2]
      by_cases hbad : s.inSlot.len > cfg.maxPktSizeBnx2 ∨ s.inSlot.len = 0
      · rw [if_pos hbad, if_pos hbad]
        refine ⟨{ f with cur := dpaRingNext f.ring f.cur, rx := f.rx + 1 }, rfl, ?_, ?_, ?_⟩
        · intro _
          have hrx := hf.rx hpoll
          dsimp only
          omega
        · exact fun _ ↦ hnext
        · intro hstage
          dsimp only at hstage
          rw [hpc] at hstage
          cases hstage
      · rw [if_neg hbad, if_neg hbad]
        exact ⟨f, rfl, fun _ ↦ hf.rx hpoll, fun _ ↦ hf.rest hpoll, fun _ ↦ ⟨hlt, hlink⟩⟩
  · rw [if_neg hlt]
    have hdone : ¬(s.toSystem.fed f).producer.rx < (s.toSystem.fed f).producer.numProc := by
      intro hlt'
      have hrest := hf.rest hpoll
      have hlt' : f.rx < f.numProc := hlt'
      rw [show s.producer.numProc - s.producer.rx = 0 by omega,
        show f.numProc - f.rx = f.numProc - (f.rx + 1) + 1 by omega] at hrest
      cases hrest
    unfold System.take
    rw [if_neg hdone]
    refine .inl ⟨f, rfl, fun _ ↦ hf.rx hpoll, fun _ ↦ hf.rest hpoll, fun hstage ↦ ?_⟩
    cases hstage

theorem follows_copy (hf : Fed s f) (hpc : s.producer.pc = .copy i) :
    Follows { s with toSystem := s.toSystem.copy cfg i }
      ((s.toSystem.fed f).copy cfg.forBnx2 i) := by
  have hstage : s.producer.pc.stage = .copying := by
    rw [hpc]
    rfl
  obtain ⟨hpoll, hlt, hlink⟩ := hf.copying hstage
  unfold System.copy
  by_cases hi : i < cfg.copies
  · rw [if_pos hi, if_pos (show i < cfg.forBnx2.copies from hi)]
    by_cases hzero : s.producer.wavali i = 0
    · rw [if_pos hzero, if_pos (show (s.toSystem.fed f).producer.wavali i = 0 from hzero)]
      exact ⟨f, rfl, hf.of_same hpoll rfl rfl rfl rfl rfl rfl rfl fun _ ↦ hstage⟩
    · rw [if_neg hzero, if_neg (show (s.toSystem.fed f).producer.wavali i ≠ 0 from hzero)]
      exact ⟨f, rfl, hf.of_same hpoll rfl rfl rfl rfl rfl rfl rfl fun _ ↦ hstage⟩
  · rw [if_neg hi, if_neg (show ¬i < cfg.forBnx2.copies from hi)]
    refine ⟨{ f with cur := dpaRingNext f.ring f.cur, rx := f.rx + 1 }, rfl, ?_, ?_, ?_⟩
    · intro _
      have hrx := hf.rx hpoll
      dsimp only
      omega
    · exact fun _ ↦ (hf.head hpoll hlt hlink).2.2
    · intro hstage'
      cases hstage'

theorem follows_refill (hf : Fed s f) (hpc : s.producer.pc = .refill i) :
    Follows (s.refill i) ((s.toSystem.fed f).refill i) := by
  have hstage : s.producer.pc.stage = .copying := by
    rw [hpc]
    rfl
  obtain ⟨hpoll, hlt, hlink⟩ := hf.copying hstage
  have hlen := hf.len hpoll hlt hlink
  unfold Bnx2System.refill System.refill
  by_cases hzero : dupQueueWriteAvali.atomically (s.queue i) = 0
  · simp only [hzero, hlen, if_true, show (s.toSystem.fed f).queue = s.queue from rfl]
    exact ⟨{ f with log := _ }, rfl, hf.of_same hpoll rfl rfl rfl rfl rfl rfl rfl fun _ ↦ hstage⟩
  · simp only [hzero, if_false, show (s.toSystem.fed f).queue = s.queue from rfl]
    exact ⟨f, rfl, hf.of_same hpoll rfl rfl rfl rfl rfl rfl rfl fun _ ↦ hstage⟩

theorem follows_store (hf : Fed s f) (hpc : s.producer.pc = .store i) :
    Follows (s.store i) ((s.toSystem.fed f).store i) := by
  have hstage : s.producer.pc.stage = .copying := by
    rw [hpc]
    rfl
  obtain ⟨hpoll, hlt, hlink⟩ := hf.copying hstage
  obtain ⟨-, hpacket, -⟩ := hf.head hpoll hlt hlink
  have hlen : (s.toSystem.fed f).inSlot.len = s.inSlot.len := congrArg Packet.len hpacket
  have hinfo : (s.toSystem.fed f).inSlot.info = s.inSlot.info := congrArg Packet.info hpacket
  have hcopy : ∀ dst, memcpy dst ((s.toSystem.fed f).buf (s.toSystem.fed f).inSlot.bufIdx)
      (s.toSystem.fed f).inSlot.len =
      memcpy dst (fun j ↦ s.buf s.inSlot.bufIdx (j + bnx2RxOffset)) s.inSlot.len :=
    memcpy_congr hpacket
  unfold Bnx2System.store System.store
  simp only [hcopy]
  rw [hlen, hinfo]
  exact ⟨{ f with log := _ }, rfl, hf.of_same hpoll rfl rfl rfl rfl rfl rfl rfl fun _ ↦ hstage⟩

theorem follows_flush (hf : Fed s f) (hpc : s.producer.pc = .flush i) :
    Follows { s with toSystem := s.toSystem.flush cfg i }
      ((s.toSystem.fed f).flush cfg.forBnx2 i) := by
  have hpoll : s.producer.pc ≠ .poll := by
    rw [hpc]
    exact fun h ↦ by cases h
  unfold System.flush
  by_cases hi : i < cfg.copies
  · rw [if_pos hi, if_pos (show i < cfg.forBnx2.copies from hi)]
    by_cases hofs : dupQueueWidxOffset (s.queue i) (s.producer.widx i) ≠ 0
    · rw [if_pos hofs, if_pos (show dupQueueWidxOffset ((s.toSystem.fed f).queue i)
        ((s.toSystem.fed f).producer.widx i) ≠ 0 from hofs)]
      exact ⟨f, rfl, hf.of_same hpoll rfl rfl rfl rfl rfl rfl rfl fun h ↦ by cases h⟩
    · rw [if_neg hofs, if_neg (show ¬dupQueueWidxOffset ((s.toSystem.fed f).queue i)
        ((s.toSystem.fed f).producer.widx i) ≠ 0 from hofs)]
      exact ⟨f, rfl, hf.of_same hpoll rfl rfl rfl rfl rfl rfl rfl fun h ↦ by cases h⟩
  · rw [if_neg hi, if_neg (show ¬i < cfg.forBnx2.copies from hi)]
    exact ⟨f, rfl, hf.of_same hpoll rfl rfl rfl rfl rfl rfl rfl fun h ↦ by cases h⟩

/-- The slots passed over are counted neither as packets nor as errors. -/
theorem follows_finish (hf : Fed s f) (hpc : s.producer.pc = .finish) :
    Follows s.finish (s.toSystem.fed f).finish := by
  have hpoll : s.producer.pc ≠ .poll := by
    rw [hpc]
    exact fun h ↦ by cases h
  have hrx : f.rx = s.producer.rx - s.ipass := by
    have h := hf.rx hpoll
    omega
  refine ⟨{ f with ring := { f.ring with avail := f.ring.avail - f.rx, cur := f.cur } }, ?_, ?_,
    ?_, ?_⟩
  · unfold System.finish Bnx2System.finish System.fed
    simp only [hrx]
  · exact fun h ↦ absurd rfl h
  · exact fun h ↦ absurd rfl h
  · exact fun h ↦ by cases h

theorem follows_produce {t : System} (h : Follows s t) :
    Follows (s.produce cfg) (t.produce cfg.forBnx2) ∨
      Follows (s.produce cfg) t ∧
        (s.produce cfg).producer.numProc - (s.produce cfg).producer.rx <
          s.producer.numProc - s.producer.rx := by
  obtain ⟨f, rfl, hf⟩ := h
  have hsame : (s.toSystem.fed f).producer.pc = s.producer.pc := rfl
  unfold Bnx2System.produce System.produce
  rw [hsame]
  cases hpc : s.producer.pc with
  | poll => exact .inl ⟨f, rfl, hf⟩
  | take => exact follows_take hf hpc
  | copy i => exact .inl (follows_copy hf hpc)
  | refill i => exact .inl (follows_refill hf hpc)
  | store i => exact .inl (follows_store hf hpc)
  | publish i =>
    refine .inl ⟨f, rfl, hf.of_same ?_ rfl rfl rfl rfl rfl rfl rfl ?_⟩
    · exact hpc ▸ fun h ↦ by cases h
    · exact fun _ ↦ hpc ▸ rfl
  | refresh i =>
    refine .inl ⟨f, rfl, hf.of_same ?_ rfl rfl rfl rfl rfl rfl rfl ?_⟩
    · exact hpc ▸ fun h ↦ by cases h
    · exact fun _ ↦ hpc ▸ rfl
  | flush i => exact .inl (follows_flush hf hpc)
  | flushed i =>
    refine .inl ⟨f, rfl, hf.of_same ?_ rfl rfl rfl rfl rfl rfl rfl ?_⟩
    · exact hpc ▸ fun h ↦ by cases h
    · exact fun h ↦ by cases h
  | finish => exact .inl (follows_finish hf hpc)

theorem consume_fed (s : System) (f : Feed) (i : ℕ) :
    (s.fed f).consume i = (s.consume i).fed f := by
  unfold System.consume
  have hsame : (s.fed f).consumer i = s.consumer i := rfl
  simp only [hsame]
  cases hpc : (s.consumer i).pc with
  | wait =>
    by_cases hzero : dupQueueReadAvali.atomically (s.queue i) = 0
    · simp only [show (s.fed f).queue = s.queue from rfl, hzero, if_true]
    · simp only [show (s.fed f).queue = s.queue from rfl, hzero, if_false]
      rfl
  | call j v =>
    by_cases hlt : j < v
    · simp only [hlt, if_true]
      rfl
    · simp only [hlt, if_false]
      rfl

theorem consume_front (s : System) (i : ℕ) :
    (s.consume i).ring = s.ring ∧ (s.consume i).buf = s.buf ∧
      (s.consume i).producer = s.producer := by
  unfold System.consume
  cases hpc : (s.consumer i).pc with
  | wait =>
    by_cases hzero : dupQueueReadAvali.atomically (s.queue i) = 0
    · simp only [hpc, hzero, if_true, and_self]
    · simp only [hpc, hzero, if_false, and_self]
  | call j v =>
    by_cases hlt : j < v
    · simp only [hpc, hlt, if_true, and_self]
    · simp only [hpc, hlt, if_false, System.setQueue, and_self]

theorem follows_consume {t : System} (h : Follows s t) (i : ℕ) :
    Follows (s.consume i) (t.consume i) := by
  obtain ⟨f, rfl, hf⟩ := h
  obtain ⟨hring, hbuf, hproducer⟩ := consume_front s.toSystem i
  refine ⟨f, consume_fed s.toSystem f i, ?_, ?_, ?_⟩
  · show (s.toSystem.consume i).producer.pc ≠ .poll → _ = (s.toSystem.consume i).producer.rx
    rw [hproducer]
    exact hf.rx
  · show (s.toSystem.consume i).producer.pc ≠ .poll → _ = kept (s.toSystem.consume i).ring
      (s.toSystem.consume i).buf (s.toSystem.consume i).producer.cur
      ((s.toSystem.consume i).producer.numProc - (s.toSystem.consume i).producer.rx)
    rw [hproducer, hring, hbuf]
    exact hf.rest
  · show (s.toSystem.consume i).producer.pc.stage = .copying →
      (s.toSystem.consume i).producer.rx < (s.toSystem.consume i).producer.numProc ∧
        isLink (s.toSystem.consume i).ring (s.toSystem.consume i).producer.cur = false
    rw [hproducer, hring]
    exact hf.busy

/-- `dup_proc_bnx2` and `dup_proc_intel` go side by side but for the slots that the first one
passes over. -/
theorem bnx2_stutters (cfg : Config) :
    Stutters (Bnx2System.produce cfg) (fun i s ↦ s.consume i) (System.produce cfg.forBnx2)
      (fun i t ↦ t.consume i) Follows fun s ↦ s.producer.numProc - s.producer.rx where
  own _ _ := follows_produce
  env i _ _ h := follows_consume h i

end Dpa.Duplicator
