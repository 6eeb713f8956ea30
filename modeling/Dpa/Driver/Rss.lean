import Dpa.Library.Toeplitz

namespace Dpa.Driver

open Function Toeplitz

structure RssRegs where
  rssrk : ℕ → BitVec 32
  reta : ℕ → BitVec 32

def fillSeeds (seed : ℕ → BitVec 32) (regs : RssRegs) : RssRegs :=
  (List.range 10).foldl (fun regs i ↦ { regs with rssrk := update regs.rssrk i (seed i) }) regs

structure IxgbeRss where
  indices : ℕ
  tcs : ℕ
  numTxQueues : ℕ

def ixgbeMaxq (a : IxgbeRss) : ℕ :=
  if a.tcs = 0 then a.indices else min a.indices (a.numTxQueues / a.tcs)

def ixgbeSeed : List (BitVec 32) :=
  [0x5A6D5A6D, 0x5A6D5A6D, 0x5A6D5A6D, 0x5A6D5A6D, 0x5A6D5A6D, 0x5A6D5A6D, 0x5A6D5A6D, 0x5A6D5A6D,
    0x5A6D5A6D, 0x5A6D5A6D]

def ixgbeRetaLoop (maxq : ℕ) : ℕ → ℕ → ℕ → BitVec 32 → (ℕ → BitVec 32) → ℕ → BitVec 32
  | 0, _, _, _, table => table
  | n + 1, i, j, reta, table =>
    let j := if j = maxq then 0 else j
    let reta := (reta <<< 8) ||| BitVec.ofNat 32 (j * 0x11)
    ixgbeRetaLoop maxq n (i + 1) (j + 1) reta
      (if i &&& 3 = 3 then update table (i >>> 2) reta else table)

/-- `ixgbe_setup_mrqc`, as far as the key and the table go. -/
def ixgbeSetupMrqc (a : IxgbeRss) (regs : RssRegs) : RssRegs :=
  let regs := fillSeeds (fun i ↦ ixgbeSeed.getD i 0) regs
  { regs with reta := ixgbeRetaLoop (ixgbeMaxq a) 128 0 0 0 regs.reta }

inductive E1000MacType
  | undefined
  | mac82575
  | mac82576
  | mac82580
  | i350

structure IgbRss where
  mac : E1000MacType
  rssQueues : ℕ
  vfsAllocatedCount : ℕ

def igbRsshash : List (BitVec 8) :=
  [0x6d, 0x5a, 0x6d, 0x5a, 0x6d, 0x5a, 0x6d, 0x5a, 0x6d, 0x5a,
    0x6d, 0x5a, 0x6d, 0x5a, 0x6d, 0x5a, 0x6d, 0x5a, 0x6d, 0x5a,
    0x6d, 0x5a, 0x6d, 0x5a, 0x6d, 0x5a, 0x6d, 0x5a, 0x6d, 0x5a,
    0x6d, 0x5a, 0x6d, 0x5a, 0x6d, 0x5a, 0x6d, 0x5a, 0x6d, 0x5a]

def igbRsskey (j : ℕ) : BitVec 32 :=
  let byte := fun k ↦ (igbRsshash.getD (j * 4 + k) 0).setWidth 32
  byte 0 ||| (byte 1 <<< 8) ||| (byte 2 <<< 16) ||| (byte 3 <<< 24)

def igbRssShifts (a : IgbRss) : ℕ × ℕ × ℕ :=
  if a.vfsAllocatedCount ≠ 0 then
    match a.mac with
    | .i350 => (1, 0, 0)
    | .mac82580 => (1, 0, 0)
    | .mac82576 => (2, 3, 0)
    | .mac82575 => (a.rssQueues, 2, 6)
    | .undefined => (a.rssQueues, 0, 0)
  else
    match a.mac with
    | .mac82575 => (a.rssQueues, 6, 0)
    | _ => (a.rssQueues, 0, 0)

def shiftIn (word : BitVec 32) (x : BitVec 8) : BitVec 32 := (word <<< 8) ||| x.setWidth 32

/-- `union e1000_reta`, the first byte being the low one. -/
def retaDword (bytes : ℕ → BitVec 8) : BitVec 32 :=
  shiftIn (shiftIn (shiftIn (shiftIn 0 (bytes 3)) (bytes 2)) (bytes 1)) (bytes 0)

def igbRetaLoop (numRxQueues shift shift2 : ℕ) :
    ℕ → ℕ → (ℕ → BitVec 8) → (ℕ → BitVec 32) → ℕ → BitVec 32
  | 0, _, _, table => table
  | n + 1, j, bytes, table =>
    let byte := BitVec.ofNat 8 ((j % numRxQueues) <<< shift)
    let byte := if shift2 = 0 then byte else byte ||| BitVec.ofNat 8 (numRxQueues <<< shift2)
    let bytes := update bytes (j &&& 3) byte
    igbRetaLoop numRxQueues shift shift2 n (j + 1) bytes
      (if j &&& 3 = 3 then update table (j >>> 2) (retaDword bytes) else table)

/-- `igb_setup_mrqc`, as far as the key and the table go; `bytes` is what is in `reta` at first. -/
def igbSetupMrqc (a : IgbRss) (bytes : ℕ → BitVec 8) (regs : RssRegs) : RssRegs :=
  let regs := fillSeeds igbRsskey regs
  let (numRxQueues, shift, shift2) := igbRssShifts a
  { regs with reta := igbRetaLoop numRxQueues shift shift2 (32 * 4) 0 bytes regs.reta }

def bits {n : ℕ} (x : BitVec n) : List Bool := List.ofFn x.getMsb

/-- What is hashed of a packet: the addresses, and the ports where it is TCP. -/
inductive Packet
  | ipv4 (src dst : BitVec 32) (ports : Option (BitVec 16 × BitVec 16))
  | ipv6 (src dst : BitVec 128) (ports : Option (BitVec 16 × BitVec 16))

def Packet.reverse : Packet → Packet
  | ipv4 src dst ports => ipv4 dst src (ports.map Prod.swap)
  | ipv6 src dst ports => ipv6 dst src (ports.map Prod.swap)

def portFields : Option (BitVec 16 × BitVec 16) → List (List Bool)
  | none => []
  | some (src, dst) => [bits src, bits dst]

def Packet.fields : Packet → List (List Bool)
  | ipv4 src dst ports => [bits src, bits dst] ++ portFields ports
  | ipv6 src dst ports => [bits src, bits dst] ++ portFields ports

namespace RssRegs

variable (regs : RssRegs)

/-- Bit `i` of the key: the first byte is the low one of the first register, and its first bit the
high one. -/
def keyBit (i : ℕ) : Bool := (regs.rssrk (i / 32)).getLsbD (8 * (i % 32 / 8) + (7 - i % 8))

def rssHash (p : Packet) : BitVec 32 := hash 32 regs.keyBit p.fields.flatten

def retaIndex (p : Packet) : ℕ := (regs.rssHash p).toNat % 128

def retaEntry (e : ℕ) : BitVec 8 := (regs.reta (e / 4)).extractLsb' (8 * (e % 4)) 8

/-- The queue that a packet goes to; `decode` gets it from the entry. -/
def queue (decode : BitVec 8 → ℕ) (p : Packet) : ℕ := decode (regs.retaEntry (regs.retaIndex p))

end RssRegs

section

variable {regs : RssRegs} {seed : ℕ → BitVec 32} {i : ℕ}

theorem fillSeeds_rssrk (hi : i < 10) : (fillSeeds seed regs).rssrk i = seed i := by
  have hfold : ∀ n, i < n → ((List.range n).foldl
      (fun regs i ↦ { regs with rssrk := update regs.rssrk i (seed i) }) regs).rssrk i = seed i := by
    intro n hn
    induction n with
    | zero => omega
    | succ n ih =>
      rw [List.range_succ, List.foldl_append]
      dsimp only [List.foldl_cons, List.foldl_nil]
      by_cases hin : i = n
      · rw [hin, update_self]
      · rw [update_of_ne hin]
        exact ih (by omega)
  exact hfold 10 hi

theorem ixgbeSeed_eq (hi : i < 10) : ixgbeSeed.getD i 0 = 0x5A6D5A6D#32 := by
  interval_cases i <;> rfl

theorem igbRsskey_eq (hi : i < 10) : igbRsskey i = 0x5A6D5A6D#32 := by
  interval_cases i <;> decide

theorem keyBit_repeats (h : ∀ i < 10, regs.rssrk i = 0x5A6D5A6D#32) :
    Repeats regs.keyBit 16 320 := by
  have hbit : ∀ i < 320, regs.keyBit i =
      (0x5A6D5A6D#32).getLsbD (8 * (i % 32 / 8) + (7 - i % 32 % 8)) := by
    intro i hi
    rw [RssRegs.keyBit, h _ (by omega), Nat.mod_mod_of_dvd i (by decide)]
  have hall : ∀ x < 32, (0x5A6D5A6D#32).getLsbD (8 * ((x + 16) % 32 / 8) + (7 - (x + 16) % 32 % 8)) =
      (0x5A6D5A6D#32).getLsbD (8 * (x / 8) + (7 - x % 8)) := by decide
  intro i hi
  rw [hbit _ hi, hbit i (by omega), ← Nat.mod_add_mod]
  exact hall (i % 32) (Nat.mod_lt i (by decide))

@[simp] theorem length_bits {n : ℕ} (x : BitVec n) : (bits x).length = n := List.length_ofFn

theorem portFields_swap (ports : Option (BitVec 16 × BitVec 16)) :
    (portFields (ports.map Prod.swap)).Perm (portFields ports) := by
  cases ports with
  | none => exact List.Perm.refl _
  | some x => exact List.Perm.swap _ _ _

theorem fields_reverse (p : Packet) : p.reverse.fields.Perm p.fields := by
  cases p with
  | ipv4 src dst ports => exact (List.Perm.swap _ _ _).append (portFields_swap ports)
  | ipv6 src dst ports => exact (List.Perm.swap _ _ _).append (portFields_swap ports)

/-- Every field is a multiple of 16 bits long, and 288 bits are hashed at most. -/
theorem fields_length (p : Packet) :
    (∀ s ∈ p.fields, 16 ∣ s.length) ∧ p.fields.flatten.length ≤ 288 := by
  cases p with
  | ipv4 src dst ports =>
    cases ports with
    | none => simp [Packet.fields, portFields]
    | some x => simp [Packet.fields, portFields]
  | ipv6 src dst ports =>
    cases ports with
    | none => simp [Packet.fields, portFields]
    | some x => simp [Packet.fields, portFields]

theorem rssHash_reverse (h : ∀ i < 10, regs.rssrk i = 0x5A6D5A6D#32) (p : Packet) :
    regs.rssHash p.reverse = regs.rssHash p := by
  obtain ⟨hdvd, hlen⟩ := fields_length p.reverse
  exact hash_perm (keyBit_repeats h) hdvd (by omega) (fields_reverse p)

end

def wordByte (word : BitVec 32) (b : ℕ) : BitVec 8 := word.extractLsb' (8 * b) 8

section

variable {m i j n b v : ℕ} {word : BitVec 32} {table : ℕ → BitVec 32} {bytes : ℕ → BitVec 8}

theorem getLsbD_shiftIn (word : BitVec 32) (x : BitVec 8) (hi : i < 32) :
    (shiftIn word x).getLsbD i = if i < 8 then x.getLsbD i else word.getLsbD (i - 8) := by
  rw [shiftIn, BitVec.getLsbD_or, BitVec.getLsbD_shiftLeft, BitVec.getLsbD_setWidth,
    decide_eq_true hi]
  by_cases hlow : i < 8
  · rw [decide_eq_true hlow, if_pos hlow]
    simp
  · rw [decide_eq_false hlow, if_neg hlow, BitVec.getLsbD_of_ge x i (by omega)]
    simp

theorem wordByte_shiftIn_zero (word : BitVec 32) (x : BitVec 8) :
    wordByte (shiftIn word x) 0 = x := by
  ext k hk
  rw [wordByte, BitVec.getElem_extractLsb', getLsbD_shiftIn _ _ (by omega), Nat.mul_zero,
    Nat.zero_add, if_pos hk, BitVec.getLsbD_eq_getElem hk]

theorem wordByte_shiftIn_succ (word : BitVec 32) (x : BitVec 8) (hb : b < 3) :
    wordByte (shiftIn word x) (b + 1) = wordByte word b := by
  ext k hk
  rw [wordByte, wordByte, BitVec.getElem_extractLsb', BitVec.getElem_extractLsb',
    getLsbD_shiftIn _ _ (by omega), if_neg (by omega)]
  congr 1
  omega

theorem wordByte_retaDword (hb : b < 4) : wordByte (retaDword bytes) b = bytes b := by
  rw [retaDword]
  interval_cases b
  · rw [wordByte_shiftIn_zero]
  · rw [wordByte_shiftIn_succ _ _ (by decide), wordByte_shiftIn_zero]
  · rw [wordByte_shiftIn_succ _ _ (by decide), wordByte_shiftIn_succ _ _ (by decide),
      wordByte_shiftIn_zero]
  · rw [wordByte_shiftIn_succ _ _ (by decide), wordByte_shiftIn_succ _ _ (by decide),
      wordByte_shiftIn_succ _ _ (by decide), wordByte_shiftIn_zero]

/-- The table is right up to word `i / 4`, and the bytes for the next word are there that have been
put together so far; `place b` is where byte `b` goes. -/
structure Filling (place : ℕ → ℕ) (value : ℕ → BitVec 8) (part : ℕ → BitVec 8)
    (table : ℕ → BitVec 32) (i : ℕ) : Prop where
  part : ∀ b < i % 4, part b = value (4 * (i / 4) + b)
  words : ∀ v < i / 4, ∀ b < 4, wordByte (table v) (place b) = value (4 * v + b)

variable {place : ℕ → ℕ} {value : ℕ → BitVec 8} {part part' : ℕ → BitVec 8}

/-- A round of a loop that puts the bytes of a word together and writes it when it has all four. -/
theorem Filling.next (h : Filling place value part table i)
    (hpart : ∀ b ≤ i % 4, part' b = value (4 * (i / 4) + b))
    (hword : i % 4 = 3 → ∀ b < 4, wordByte word (place b) = part' b) :
    Filling place value part' (if i &&& 3 = 3 then update table (i >>> 2) word else table)
      (i + 1) := by
  have hand : i &&& 3 = i % 4 := Nat.and_two_pow_sub_one_eq_mod i 2
  have hshift : i >>> 2 = i / 4 := Nat.shiftRight_eq_div_pow i 2
  rw [hand, hshift]
  by_cases hlast : i % 4 = 3
  · rw [if_pos hlast]
    refine ⟨fun b hb ↦ by omega, fun v hv b hb ↦ ?_⟩
    by_cases hvi : v = i / 4
    · rw [hvi, update_self, hword hlast b hb, hpart b (by omega)]
    · rw [update_of_ne hvi]
      exact h.words v (by omega) b hb
  · have hdiv : (i + 1) / 4 = i / 4 := by omega
    rw [if_neg hlast]
    refine ⟨fun b hb ↦ ?_, fun v hv ↦ h.words v (by omega)⟩
    rw [hdiv]
    exact hpart b (by omega)

theorem Filling.start : Filling place value part table 0 :=
  ⟨fun b hb ↦ absurd hb (Nat.not_lt_zero b), fun v hv ↦ absurd hv (Nat.not_lt_zero v)⟩

theorem Filling.congr (h : Filling place value part table i) (hpart : ∀ b < i % 4, part' b = part b) :
    Filling place value part' table i :=
  ⟨fun b hb ↦ (hpart b hb).trans (h.part b hb), h.words⟩

theorem igbRetaLoop_words {shift : ℕ}
    (h : Filling id (fun x ↦ BitVec.ofNat 8 ((x % m) <<< shift)) bytes table j) :
    ∀ v < (j + n) / 4, ∀ b < 4, wordByte (igbRetaLoop m shift 0 n j bytes table v) b =
      BitVec.ofNat 8 (((4 * v + b) % m) <<< shift) := by
  induction n generalizing j bytes table with
  | zero => exact h.words
  | succ n ih =>
    have hand : j &&& 3 = j % 4 := Nat.and_two_pow_sub_one_eq_mod j 2
    rw [igbRetaLoop, ← Nat.add_assoc, Nat.add_right_comm, if_pos rfl]
    refine ih (h.next (fun b hb ↦ ?_) fun _ b hb ↦ wordByte_retaDword hb)
    rw [hand]
    by_cases hbj : b = j % 4
    · rw [hbj, update_self, Nat.div_add_mod]
    · rw [update_of_ne hbj]
      exact h.part b (by omega)

theorem ofNat_setWidth {c : ℕ} (hc : c < 256) : BitVec.ofNat 32 c = (BitVec.ofNat 8 c).setWidth 32 := by
  apply BitVec.eq_of_toNat_eq
  rw [BitVec.toNat_setWidth, BitVec.toNat_ofNat, BitVec.toNat_ofNat, Nat.mod_eq_of_lt hc]

/-- What `ixgbe_setup_mrqc` writes; the first byte of a word is the high one. -/
theorem ixgbeRetaLoop_words (hm : 1 ≤ m) (hm16 : m ≤ 16) (hj : (if j = m then 0 else j) = i % m)
    (h : Filling (3 - ·) (fun x ↦ BitVec.ofNat 8 (x % m * 0x11))
      (fun b ↦ wordByte word (i % 4 - 1 - b)) table i) :
    ∀ v < (i + n) / 4, ∀ b < 4, wordByte (ixgbeRetaLoop m n i j word table v) (3 - b) =
      BitVec.ofNat 8 ((4 * v + b) % m * 0x11) := by
  induction n generalizing i j word table with
  | zero => exact h.words
  | succ n ih =>
    have hlt := Nat.mod_lt i hm
    rw [ixgbeRetaLoop, ← Nat.add_assoc, Nat.add_right_comm, hj, ofNat_setWidth (by omega), ← shiftIn]
    have hnext : Filling (3 - ·) (fun x ↦ BitVec.ofNat 8 (x % m * 0x11))
        (fun b ↦ wordByte (shiftIn word (BitVec.ofNat 8 (i % m * 0x11))) (i % 4 - b))
        (if i &&& 3 = 3 then
          update table (i >>> 2) (shiftIn word (BitVec.ofNat 8 (i % m * 0x11)))
        else table) (i + 1) := by
      refine h.next (fun b hb ↦ ?_) fun hlast b hb ↦ ?_
      · by_cases hbi : b = i % 4
        · rw [hbi, Nat.sub_self, wordByte_shiftIn_zero, Nat.div_add_mod]
        · have hpos : i % 4 - b = i % 4 - 1 - b + 1 := by omega
          rw [hpos, wordByte_shiftIn_succ _ _ (by omega)]
          exact h.part b (by omega)
      · rw [hlast]
    refine ih ?_ (hnext.congr fun b hb ↦ ?_)
    · have hmod : (i + 1) % m = (i % m + 1) % m := (Nat.mod_add_mod i m 1).symm
      rw [hmod]
      by_cases hlast : i % m + 1 = m
      · rw [if_pos hlast, hlast, Nat.mod_self]
      · rw [if_neg hlast]
        exact (Nat.mod_eq_of_lt (by omega)).symm
    · have hmod : (i + 1) % 4 = i % 4 + 1 := by omega
      rw [hmod, Nat.add_sub_cancel]

theorem ixgbeSetupMrqc_reta (a : IxgbeRss) (regs : RssRegs) : (ixgbeSetupMrqc a regs).reta =
    ixgbeRetaLoop (ixgbeMaxq a) 128 0 0 0 (fillSeeds (fun i ↦ ixgbeSeed.getD i 0) regs).reta := by
  simp only [ixgbeSetupMrqc]

theorem igbSetupMrqc_reta (a : IgbRss) (bytes : ℕ → BitVec 8) (regs : RssRegs) :
    (igbSetupMrqc a bytes regs).reta = igbRetaLoop (igbRssShifts a).1 (igbRssShifts a).2.1
      (igbRssShifts a).2.2 (32 * 4) 0 bytes (fillSeeds igbRsskey regs).reta := by
  simp only [igbSetupMrqc]

theorem ixgbeSetupMrqc_rssrk {a : IxgbeRss} {regs : RssRegs} (hi : i < 10) :
    (ixgbeSetupMrqc a regs).rssrk i = 0x5A6D5A6D#32 := by
  simp only [ixgbeSetupMrqc]
  exact (fillSeeds_rssrk hi).trans (ixgbeSeed_eq hi)

theorem igbSetupMrqc_rssrk {a : IgbRss} {regs : RssRegs} (hi : i < 10) :
    (igbSetupMrqc a bytes regs).rssrk i = 0x5A6D5A6D#32 := by
  simp only [igbSetupMrqc]
  exact (fillSeeds_rssrk hi).trans (igbRsskey_eq hi)

theorem retaEntry_eq (regs : RssRegs) (e : ℕ) :
    regs.retaEntry e = wordByte (regs.reta (e / 4)) (e % 4) := rfl

theorem ixgbe_retaEntry {a : IxgbeRss} {regs : RssRegs} {e : ℕ} (ha : ixgbeMaxq a = m)
    (hm : 1 ≤ m) (hm16 : m ≤ 16) (he : e < 128) :
    (ixgbeSetupMrqc a regs).retaEntry e =
      BitVec.ofNat 8 ((4 * (e / 4) + (3 - e % 4)) % m * 0x11) := by
  have hfirst : (if 0 = m then 0 else 0) = 0 % m := by rw [ite_self, Nat.zero_mod]
  have hwords : ∀ v < (0 + 128) / 4, ∀ b < 4, wordByte (ixgbeRetaLoop m 128 0 0 0
      (fillSeeds (fun i ↦ ixgbeSeed.getD i 0) regs).reta v) (3 - b) =
        BitVec.ofNat 8 ((4 * v + b) % m * 0x11) := ixgbeRetaLoop_words hm hm16 hfirst .start
  have hword := hwords (e / 4) (by omega) (3 - e % 4) (by omega)
  have hplace : 3 - (3 - e % 4) = e % 4 := by omega
  rw [hplace] at hword
  rw [retaEntry_eq, ixgbeSetupMrqc_reta, ha]
  exact hword

theorem igb_retaEntry {shift : ℕ} {a : IgbRss} {regs : RssRegs} {e : ℕ}
    (ha : igbRssShifts a = (m, shift, 0)) (he : e < 128) :
    (igbSetupMrqc a bytes regs).retaEntry e = BitVec.ofNat 8 ((e % m) <<< shift) := by
  have hwords : ∀ v < (0 + 32 * 4) / 4, ∀ b < 4, wordByte (igbRetaLoop m shift 0 (32 * 4) 0 bytes
      (fillSeeds igbRsskey regs).reta v) b = BitVec.ofNat 8 (((4 * v + b) % m) <<< shift) :=
    igbRetaLoop_words .start
  have hword := hwords (e / 4) (by omega) (e % 4) (by omega)
  rw [Nat.div_add_mod] at hword
  rw [retaEntry_eq, igbSetupMrqc_reta, ha]
  exact hword

theorem igbRssShifts_of_no_vfs {a : IgbRss} (hvfs : a.vfsAllocatedCount = 0) :
    ∃ shift, igbRssShifts a = (a.rssQueues, shift, 0) := by
  rw [igbRssShifts, if_neg (not_not.2 hvfs)]
  cases a.mac with
  | mac82575 => exact ⟨6, rfl⟩
  | undefined => exact ⟨0, rfl⟩
  | mac82576 => exact ⟨0, rfl⟩
  | mac82580 => exact ⟨0, rfl⟩
  | i350 => exact ⟨0, rfl⟩

end

/-- Both directions of a flow go to the same queue, and all queues are below `m`. -/
structure Bidirectional (regs : RssRegs) (decode : BitVec 8 → ℕ) (m : ℕ) : Prop where
  hash : ∀ p : Packet, regs.rssHash p.reverse = regs.rssHash p
  entry : ∀ p : Packet, regs.retaIndex p.reverse = regs.retaIndex p
  queue : ∀ p : Packet, regs.queue decode p.reverse = regs.queue decode p
  below : ∀ e < 128, decode (regs.retaEntry e) < m

section

variable {m : ℕ} {regs : RssRegs} {decode : BitVec 8 → ℕ}

theorem Bidirectional.of_key (hkey : ∀ i < 10, regs.rssrk i = 0x5A6D5A6D#32)
    (hbelow : ∀ e < 128, decode (regs.retaEntry e) < m) : Bidirectional regs decode m := by
  have hentry : ∀ p : Packet, regs.retaIndex p.reverse = regs.retaIndex p := by
    intro p
    rw [RssRegs.retaIndex, RssRegs.retaIndex, rssHash_reverse hkey]
  refine ⟨rssHash_reverse hkey, hentry, fun p ↦ ?_, hbelow⟩
  rw [RssRegs.queue, RssRegs.queue, hentry]

/-- The queue is in the low four bits of an entry. -/
def ixgbeQueue (entry : BitVec 8) : ℕ := (entry &&& 0xf).toNat

/-- The queue is above the shift. -/
def igbQueue (a : IgbRss) (entry : BitVec 8) : ℕ := (entry >>> (igbRssShifts a).2.1).toNat

theorem ixgbeQueue_mul {x : ℕ} (hx : x < 16) : ixgbeQueue (BitVec.ofNat 8 (x * 0x11)) = x := by
  interval_cases x <;> rfl

theorem igbQueue_shiftLeft_le {a : IgbRss} {shift : ℕ} (ha : (igbRssShifts a).2.1 = shift) (x : ℕ) :
    igbQueue a (BitVec.ofNat 8 (x <<< shift)) ≤ x := by
  rw [igbQueue, ha, BitVec.toNat_ushiftRight, BitVec.toNat_ofNat, Nat.shiftRight_eq_div_pow,
    Nat.shiftLeft_eq]
  calc x * 2 ^ shift % 2 ^ 8 / 2 ^ shift ≤ x * 2 ^ shift / 2 ^ shift :=
        Nat.div_le_div_right (Nat.mod_le _ _)
    _ = x := Nat.mul_div_cancel x (Nat.two_pow_pos shift)

end

/-- What the two drivers program distributes packets over the queues by flow. -/
theorem rss_bidirectional {m : ℕ} (hm : 1 ≤ m) (hm16 : m ≤ 16) :
    (∀ a regs, ixgbeMaxq a = m → Bidirectional (ixgbeSetupMrqc a regs) ixgbeQueue m) ∧
      ∀ a bytes regs, a.vfsAllocatedCount = 0 → a.rssQueues = m →
        Bidirectional (igbSetupMrqc a bytes regs) (igbQueue a) m := by
  constructor
  · intro a regs ha
    refine .of_key (fun _ ↦ ixgbeSetupMrqc_rssrk) fun e he ↦ ?_
    have hlt : (4 * (e / 4) + (3 - e % 4)) % m < m := Nat.mod_lt _ hm
    rw [ixgbe_retaEntry ha hm hm16 he, ixgbeQueue_mul (by omega)]
    exact hlt
  · intro a bytes regs hvfs hqueues
    obtain ⟨shift, hshift⟩ := igbRssShifts_of_no_vfs hvfs
    rw [hqueues] at hshift
    refine .of_key (fun _ ↦ igbSetupMrqc_rssrk) fun e he ↦ ?_
    rw [igb_retaEntry hshift he]
    exact (igbQueue_shiftLeft_le (congrArg (·.2.1) hshift) _).trans_lt (Nat.mod_lt e hm)

theorem rss_bidirectional_four :
    ixgbeMaxq ⟨8, 2, 8⟩ = 4 ∧
      Bidirectional (ixgbeSetupMrqc ⟨8, 2, 8⟩ ⟨fun _ ↦ 0, fun _ ↦ 0⟩) ixgbeQueue 4 ∧
      Bidirectional (igbSetupMrqc ⟨.mac82575, 4, 0⟩ (fun _ ↦ 0) ⟨fun _ ↦ 0, fun _ ↦ 0⟩)
        (igbQueue ⟨.mac82575, 4, 0⟩) 4 := by
  obtain ⟨hixgbe, higb⟩ := rss_bidirectional (m := 4) (by decide) (by decide)
  exact ⟨rfl, hixgbe _ _ rfl, higb _ _ _ rfl rfl⟩

end Dpa.Driver
