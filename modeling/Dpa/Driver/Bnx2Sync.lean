import Dpa.Library.Paged
import Dpa.Driver.Bnx2

namespace Dpa.Driver

open Kernel MachineWord Cyclic Paged Function Loop

variable {β : Type} {N R o T a i j r resvd : ℕ} {m : DpaModule} {s s' : Bnx2Queue β}

/-- The sizes of ring that the driver uses with this module: the slots of the user ring and
the packets of the NIC ring. -/
inductive Sized : ℕ → ℕ → Prop
  | two : Sized 512 510
  | three : Sized 1024 765
  | four : Sized 1024 1020

/-- The driver asks for one of them, whatever number of descriptors the module is given. -/
theorem Sized.of_count {n : ℕ} (h₁ : 256 ≤ n) (h₂ : n ≤ 4096) :
    Sized (bnx2FindMaxRing (dpaRxRingCount n) maxRxRings * rxDescCnt) (dpaRxRingCount n) := by
  have h : dpaRxRingCount n = 510 ∨ dpaRxRingCount n = 765 ∨ dpaRxRingCount n = 1020 := by
    change (if min n 1020 % 255 = 0 then min n 1020 else (min n 1020 / 255 + 1) * 255) = 510 ∨
      (if min n 1020 % 255 = 0 then min n 1020 else (min n 1020 / 255 + 1) * 255) = 765 ∨
      (if min n 1020 % 255 = 0 then min n 1020 else (min n 1020 / 255 + 1) * 255) = 1020
    split_ifs <;> omega
  rcases h with h | h | h
  · rw [h, show bnx2FindMaxRing 510 maxRxRings * rxDescCnt = 512 by decide +kernel]
    exact .two
  · rw [h, show bnx2FindMaxRing 765 maxRxRings * rxDescCnt = 1024 by decide +kernel]
    exact .three
  · rw [h, show bnx2FindMaxRing 1020 maxRxRings * rxDescCnt = 1024 by decide +kernel]
    exact .four

theorem Sized.bound (h : Sized N R) : N ≤ 2 ^ 30 := by cases h <;> decide

theorem Sized.nonempty (h : Sized N R) : 0 < N := by cases h <;> decide

theorem Sized.lt (h : Sized N R) : R < N := by cases h <;> decide

theorem Sized.le (h : Sized N R) : N ≤ 1024 := by cases h <;> decide

theorem Sized.dvd (h : Sized N R) : 256 ∣ N := by cases h <;> decide

theorem Sized.mod_mod (h : Sized N R) (x : ℕ) : x % 65536 % N = x % N := by
  cases h <;> omega

theorem Sized.and (h : Sized N R) (x : ℕ) : x &&& (N - 1) = x % N := by
  cases h with
  | two => exact Nat.and_two_pow_sub_one_eq_mod x 9
  | three => exact Nat.and_two_pow_sub_one_eq_mod x 10
  | four => exact Nat.and_two_pow_sub_one_eq_mod x 10

theorem Sized.place_size (h : Sized N R) : place 255 R = R / 255 * 256 := by cases h <;> rfl

theorem Sized.place_le (h : Sized N R) : place 255 R ≤ N := by cases h <;> decide

theorem and_maxRxDescCnt (x : ℕ) : x &&& maxRxDescCnt = x % 256 :=
  Nat.and_two_pow_sub_one_eq_mod x 8

theorem and_beforeLast (x : ℕ) : x &&& (maxRxDescCnt - 1) = maxRxDescCnt - 1 ↔ 254 ≤ x % 256 := by
  have hmask : maxRxDescCnt - 1 = maxRxDescCnt &&& 254 := by decide
  have htable : ∀ y < 256, y &&& 254 = 254 ↔ 254 ≤ y := by decide +kernel
  have hlt := Nat.mod_lt x (show 0 < 256 by decide)
  rw [hmask, ← Nat.and_assoc, and_maxRxDescCnt]
  exact htable _ hlt

theorem rxRing_eq {x : ℕ} (hx : x < 2 ^ 32) : rxRing x = x / 256 := by
  have hmask : (0xFFFFFFFF ^^^ maxRxDescCnt) >>> 8 = 2 ^ 24 - 1 := by decide
  rw [rxRing, Nat.shiftRight_and_distrib, hmask, Nat.and_two_pow_sub_one_eq_mod,
    Nat.shiftRight_eq_div_pow]
  omega

theorem place_mod_255 (t : ℕ) : place 255 t % 256 = t % 255 := place_mod (by decide) t

/-- The free-running index goes through the places of a paged counter. -/
theorem nextRxBd_place (t : ℕ) :
    nextRxBd (place 255 t % 65536) = place 255 (t + 1) % 65536 := by
  have hlt := place_mod_lt (w := 255) (by decide) t
  have hmod : place 255 t % 65536 % 256 = place 255 t % 256 := by omega
  rw [nextRxBd, place_succ (by decide)]
  simp only [and_beforeLast, hmod]
  by_cases hlast : place 255 t % 256 = 254
  · rw [if_pos (by omega), if_pos hlast, u16]
    omega
  · rw [if_neg (by omega), if_neg hlast, u16]
    omega

theorem nextRxBd_iterate (t i : ℕ) :
    nextRxBd^[i] (place 255 t % 65536) = place 255 (t + i) % 65536 := by
  induction i with
  | zero => rfl
  | succ i ih => rw [iterate_succ_apply', ih, nextRxBd_place, Nat.add_assoc]

/-- The indices of a queue whose NIC ring was last reset `T` harvested packets ago, at slot `o`
of the user ring. -/
structure Bnx2Places (N R o T : ℕ) (s : Bnx2Queue β) : Prop where
  sized : Sized N R
  slots : s.kring.nkrNumSlots = N
  ringSize : s.rxRingSize = R
  maxRingIdx : s.rxMaxRingIdx = N - 1
  ofs_lt : o < N
  hwofs : s.kring.nkrHwofs = o
  cons : s.nic.rxCons = place 255 T % 65536

/-- The kernel's side of a queue whose NIC ring was last reset `T` harvested packets ago, at
slot `o` of the user ring, and which has `a` slots pending. -/
structure Bnx2Core (N R o T a : ℕ) (m : DpaModule) (s : Bnx2Queue β) : Prop where
  sized : Sized N R
  slots : s.kring.nkrNumSlots = N
  ringSize : s.rxRingSize = R
  maxRingIdx : s.rxMaxRingIdx = N - 1
  ofs_lt : o < N
  hwofs : s.kring.nkrHwofs = o
  hwcur_lt : s.kring.nrHwcur < N
  hwavail : s.kring.nrHwavail = a
  room : a < N
  cons : s.nic.rxCons = place 255 T % 65536
  good : ∀ x < N, (bufVpa m.bufs (s.ring.slot x)).1 ≠ m.bufs.base

theorem Bnx2Core.places (hc : Bnx2Core N R o T a m s) : Bnx2Places N R o T s :=
  ⟨hc.sized, hc.slots, hc.ringSize, hc.maxRingIdx, hc.ofs_lt, hc.hwofs, hc.cons⟩

theorem Bnx2Core.numSlots (hc : Bnx2Core N R o T a m s) : s.numSlots = N - 1 := by
  have hb := hc.sized.bound
  have hN := hc.sized.nonempty
  rw [Bnx2Queue.numSlots, hc.slots, u32_of_mem (by omega) (by omega)]
  omega

theorem Bnx2Places.rxRingIdx (hp : Bnx2Places N R o T s) (x : ℕ) :
    s.rxRingIdx (x % 65536) = x % N := by
  rw [Bnx2Queue.rxRingIdx, hp.maxRingIdx, hp.sized.and, hp.sized.mod_mod]

theorem Bnx2Places.slotOf (hp : Bnx2Places N R o T s) (x : ℕ) :
    s.slotOf (x % 65536) = pos N o x := by
  have hb := hp.sized.bound
  have hN := hp.sized.nonempty
  have hlt : pos N (x % N) o < N := pos_lt hN
  rw [Bnx2Queue.slotOf, hp.rxRingIdx,
    dpaIdxN2k_eq hb hp.slots hp.hwofs hp.ofs_lt (Nat.mod_lt _ hN), u32_natCast (by omega), pos, pos,
    Nat.mod_add_mod, Nat.add_comm]

theorem Sized.slot_injective (h : Sized N R) {i j : ℕ} (hi : i < R) (hj : j < R)
    (heq : pos N o (place 255 (T + i)) = pos N o (place 255 (T + j))) : i = j := by
  have hmono := place_strictMono (w := 255) (by decide)
  have hspan (k : ℕ) (hk : k < R) : place 255 (T + k) - place 255 T < N := by
    unfold place
    cases h <;> omega
  have hle (k : ℕ) : place 255 T + (place 255 (T + k) - place 255 T) = place 255 (T + k) :=
    Nat.add_sub_cancel' (hmono.monotone (Nat.le_add_right T k))
  rw [← hle i, ← hle j, ← pos_pos, ← pos_pos] at heq
  have hdist := pos_injective (hspan i hi) (hspan j hj) heq
  have hplace : place 255 (T + i) = place 255 (T + j) := by rw [← hle i, ← hle j, hdist]
  exact Nat.add_left_cancel (hmono.injective hplace)

def harvestRounds (s : Bnx2Queue β) (i : ℕ) : Bnx2Harvest β := s.harvestRound^[i] s.beginHarvest

theorem harvestRounds_succ (s : Bnx2Queue β) (i : ℕ) :
    harvestRounds s (i + 1) = s.harvestRound (harvestRounds s i) :=
  iterate_succ_apply' s.harvestRound i s.beginHarvest

def Bnx2Queue.frameTaken (s : Bnx2Queue β) (x : ℕ) : Frame β :=
  ⟨(s.frameOf x).len, (s.frameOf x).info s.rxMode, (s.frameOf x).contents⟩

theorem Bnx2Places.rounds_swCons (hp : Bnx2Places N R o T s) (i : ℕ) :
    (harvestRounds s i).swCons = place 255 (T + i) % 65536 := by
  induction i with
  | zero => exact hp.cons
  | succ i ih =>
    rw [harvestRounds_succ, ← Nat.add_assoc, ← nextRxBd_place, ← ih]
    rfl

theorem Bnx2Places.rounds_k (hp : Bnx2Places N R o T s) (i : ℕ) :
    (harvestRounds s i).k = pos N o (place 255 (T + i)) := by
  have hk : (harvestRounds s i).k = s.slotOf (harvestRounds s i).swCons := by
    cases i with
    | zero => rfl
    | succ i =>
      rw [harvestRounds_succ]
      rfl
  rw [hk, hp.rounds_swCons, hp.slotOf]

theorem rounds_i (s : Bnx2Queue β) (hi : i < 2 ^ 32) : (harvestRounds s i).i = i := by
  induction i with
  | zero => rfl
  | succ i ih =>
    rw [harvestRounds_succ]
    change u32 (((harvestRounds s i).i : ℤ) + 1) = i + 1
    rw [ih (by omega), ← Nat.cast_succ, u32_natCast hi]

theorem Bnx2Places.rounds_taken (hp : Bnx2Places N R o T s) (i : ℕ) :
    (harvestRounds s i).taken =
      (List.range i).map fun j ↦ s.frameTaken (place 255 (T + j) % 65536) := by
  induction i with
  | zero => rfl
  | succ i ih =>
    rw [harvestRounds_succ, List.range_succ, List.map_append, List.map_singleton, ← ih,
      ← hp.rounds_swCons]
    rfl

theorem Bnx2Core.rounds_slot_succ (hc : Bnx2Core N R o T a m s) (i : ℕ) :
    (harvestRounds s (i + 1)).slot =
      update (harvestRounds s i).slot (pos N o (place 255 (T + i)))
        { (harvestRounds s i).slot (pos N o (place 255 (T + i))) with
          len := (s.frameTaken (place 255 (T + i) % 65536)).len
          info := (s.frameTaken (place 255 (T + i) % 65536)).info } := by
  rw [harvestRounds_succ, ← hc.places.rounds_k, ← hc.places.rounds_swCons]
  rfl

theorem Bnx2Core.rounds_slot_off (hc : Bnx2Core N R o T a m s) {x : ℕ}
    (hx : ∀ j < i, x ≠ pos N o (place 255 (T + j))) :
    (harvestRounds s i).slot x = s.ring.slot x := by
  induction i with
  | zero => rfl
  | succ i ih =>
    rw [hc.rounds_slot_succ, update_of_ne (hx i (Nat.lt_succ_self i))]
    exact ih fun j hj ↦ hx j (by omega)

theorem Bnx2Core.rounds_slot_at (hc : Bnx2Core N R o T a m s) (hi : i ≤ R) (hj : j < i) :
    (harvestRounds s i).slot (pos N o (place 255 (T + j))) =
      { s.ring.slot (pos N o (place 255 (T + j))) with
        len := (s.frameTaken (place 255 (T + j) % 65536)).len
        info := (s.frameTaken (place 255 (T + j) % 65536)).info } := by
  induction i with
  | zero => omega
  | succ i ih =>
    rw [hc.rounds_slot_succ]
    rcases Nat.lt_succ_iff_lt_or_eq.1 hj with hlt | rfl
    · have hne : pos N o (place 255 (T + j)) ≠ pos N o (place 255 (T + i)) := by
        intro heq
        have := hc.sized.slot_injective (by omega) (by omega) heq
        omega
      rw [update_of_ne hne]
      exact ih (by omega) hlt
    · rw [update_self, hc.rounds_slot_off]
      intro k hk heq
      have := hc.sized.slot_injective (by omega) (by omega) heq
      omega

theorem rounds_bufIdx (s : Bnx2Queue β) (i x : ℕ) :
    ((harvestRounds s i).slot x).bufIdx = (s.ring.slot x).bufIdx := by
  induction i with
  | zero => rfl
  | succ i ih =>
    rw [harvestRounds_succ, ← ih]
    change (update (harvestRounds s i).slot (harvestRounds s i).k _ x).bufIdx = _
    by_cases hx : x = (harvestRounds s i).k
    · rw [hx, update_self]
    · rw [update_of_ne hx]

namespace Bnx2Queue

variable (s : Bnx2Queue β)

/-- How many packets a harvest finds: those before the consumer index of the status block, as
far as the ring has room for them. -/
def ready : ℕ :=
  leading (fun j ↦ (j : ℤ) + s.kring.nrHwavail < s.rxRingSize - 1 ∧
    nextRxBd^[j] s.nic.rxCons ≠ bnx2GetHwRxCons s.nic.hwRxCons) s.rxRingSize

/-- The page links among the descriptors of the next `i` packets. -/
def linksPassed (i : ℕ) : ℕ := (s.nic.rxCons % 256 + i) / 255

/-- The ends of pages of the user ring that the slots of the next `i` packets and of their
page links go over, less one where a ring of 765 comes round the end of the user ring. -/
def linksCounted (i : ℕ) : ℕ :=
  let k := s.slotOf s.nic.rxCons
  let n := i + s.linksPassed i
  (k + n) / 256 - k / 256 - if s.rxRingSize = 765 ∧ s.kring.nkrNumSlots ≤ k + n then 1 else 0

end Bnx2Queue

theorem Bnx2Places.linksPassed (hp : Bnx2Places N R o T s) (i : ℕ) :
    s.linksPassed i = (T % 255 + i) / 255 := by
  have hmod : place 255 T % 65536 % 256 = place 255 T % 256 := by omega
  rw [Bnx2Queue.linksPassed, hp.cons, hmod, place_mod_255]

theorem Bnx2Places.place_add (hp : Bnx2Places N R o T s) (i : ℕ) :
    place 255 (T + i) = place 255 T + (i + s.linksPassed i) := by
  rw [hp.linksPassed]
  unfold place
  omega

theorem Bnx2Places.ready_room (hp : Bnx2Places N R o T s) (havail : s.kring.nrHwavail = a) :
    s.ready = 0 ∨ s.ready + a < R := by
  by_contra hroom
  obtain ⟨h0, hR⟩ := not_or.1 hroom
  have hlast := of_lt_leading (show s.ready - 1 < s.ready by omega)
  have hroom := (of_decide_eq_true hlast).1
  rw [havail, hp.ringSize] at hroom
  omega

theorem Bnx2Places.ready_le (hp : Bnx2Places N R o T s) : s.ready ≤ R :=
  (leading_le _ _).trans hp.ringSize.le

theorem Bnx2Places.harvest_loop (hp : Bnx2Places N R o T s) (havail : s.kring.nrHwavail = a)
    (ha : a < N) : loop s.moreToHarvest s.harvestRound s.rxRingSize s.beginHarvest =
      harvestRounds s s.ready := by
  have hR := hp.sized.lt
  have hN := hp.sized.le
  rw [loop_eq]
  congr 1
  refine leading_congr ?_
  intro j hj
  rw [hp.ringSize] at hj
  change s.moreToHarvest (harvestRounds s j) = _
  rw [Bnx2Queue.moreToHarvest, hp.rounds_swCons, rounds_i s (by omega), hp.cons, nextRxBd_iterate,
    havail, hp.ringSize, u32_of_mem (by omega) (by omega), u32_of_mem (by omega) (by omega)]
  congr 1
  simp only [eq_iff_iff]
  refine and_congr_left fun _ ↦ ?_
  omega

theorem Sized.pages (h : Sized N R) {k k' e t : ℕ} (hk : k < N) (ht : t < 255)
    (he : e = (t + i) / 255) (hi : i < R) (hk' : k' = (k + (i + e)) % N) :
    pagesBetween ((R / 256 : ℕ) + 1) (k / 256) (k' / 256) +
      (if k' / 256 = k / 256 ∧ i > 255 then (R / 256 : ℕ) + 1 else 0) =
    ((k + (i + e)) / 256 - k / 256 - if R = 765 ∧ N ≤ k + (i + e) then 1 else 0 : ℕ) := by
  have hwrap : k' = if k + (i + e) < N then k + (i + e) else k + (i + e) - N := by
    rw [hk']
    exact mod_of_lt_two (by cases h <;> omega)
  have hpage : (k + (i + e)) / 256 = if k + (i + e) < N then k' / 256 else k' / 256 + N / 256 := by
    cases h <;> split_ifs at hwrap ⊢ <;> omega
  unfold pagesBetween
  cases h with
  | two => split_ifs at hwrap hpage ⊢ <;> omega
  | three => split_ifs at hwrap hpage ⊢ <;> omega
  | four => split_ifs at hwrap hpage ⊢ <;> omega

theorem pagesBetween_bounds (p k k' : ℕ) (hk : k < N) (hk' : k' < N) :
    -(N : ℤ) ≤ pagesBetween p k k' ∧ pagesBetween p k k' ≤ p + N := by
  unfold pagesBetween
  split_ifs <;> omega

/-- What the code adds for the page links that a harvest has passed. -/
theorem Bnx2Places.addLinks (hp : Bnx2Places N R o T s) (hi : i < R) (ha : a < N) :
    s.addLinks (rxRing (s.slotOf s.nic.rxCons)) (rxRing (pos N o (place 255 (T + i)))) i (a + i) =
      a + i + s.linksCounted i := by
  have hN := hp.sized.le
  have hR := hp.sized.lt
  have hlt := pos_lt (a := o) (i := place 255 T) hp.sized.nonempty
  have hlt' := pos_lt (a := o) (i := place 255 (T + i)) hp.sized.nonempty
  have hk : s.slotOf s.nic.rxCons = pos N o (place 255 T) := by rw [hp.cons, hp.slotOf]
  have hmove : pos N o (place 255 (T + i)) =
      (pos N o (place 255 T) + (i + s.linksPassed i)) % N := by
    rw [hp.place_add, ← pos_pos]
    rfl
  have hsum := hp.sized.pages hlt (Nat.mod_lt T (by decide)) (hp.linksPassed i) hi hmove
  unfold Bnx2Queue.addLinks Bnx2Queue.linksCounted
  rw [hk, hp.ringSize, hp.slots]
  generalize pos N o (place 255 T) = k at *
  generalize pos N o (place 255 (T + i)) = k' at *
  simp only
  rw [← hsum, rxRing_eq (by omega), rxRing_eq (by omega), rxRing_eq (by omega)]
  have hbounds := pagesBetween_bounds (N := N) (R / 256 + 1) (k / 256) (k' / 256) (by omega)
    (by omega)
  rw [Nat.cast_succ] at hbounds
  generalize pagesBetween ((R / 256 : ℕ) + 1) (k / 256) (k' / 256) = c at hbounds
  rw [s32_of_mem (x := a + i + c) (by omega) (by omega)]
  by_cases hround : k' / 256 = k / 256 ∧ i > 255
  · refine (if_pos hround).trans ?_
    rw [if_pos hround, s32_of_mem (by omega) (by omega), add_assoc]
    rfl
  · refine (if_neg hround).trans ?_
    rw [if_neg hround, Nat.cast_zero, add_zero]

structure Bnx2Harvested (T i : ℕ) (s s' : Bnx2Queue β) : Prop where
  hwavail : s'.kring.nrHwavail = s.kring.nrHwavail + i + s.linksCounted i
  hwcur : s'.kring.nrHwcur = s.kring.nrHwcur
  slots : s'.kring.nkrNumSlots = s.kring.nkrNumSlots
  hwofs : s'.kring.nkrHwofs = s.kring.nkrHwofs
  ring : s'.ring = { s.ring with slot := (harvestRounds s i).slot }
  nic : s'.nic = { s.nic with rxCons := place 255 (T + i) % 65536 }
  ringSize : s'.rxRingSize = s.rxRingSize
  maxRingIdx : s'.rxMaxRingIdx = s.rxMaxRingIdx
  rxMode : s'.rxMode = s.rxMode
  mem : s'.mem = s.mem
  harvested : s'.harvested = s.harvested ++
    (List.range i).map fun j ↦ s.frameTaken (place 255 (T + j) % 65536)

theorem Bnx2Places.linksCounted_zero (hp : Bnx2Places N R o T s) : s.linksCounted 0 = 0 := by
  have hlt := pos_lt (a := o) (i := place 255 T) hp.sized.nonempty
  have hk : s.slotOf s.nic.rxCons = pos N o (place 255 T) := by rw [hp.cons, hp.slotOf]
  have hlinks : s.linksPassed 0 = 0 := by
    rw [hp.linksPassed]
    omega
  unfold Bnx2Queue.linksCounted
  simp only [hk, hlinks, hp.slots]
  split_ifs <;> omega

theorem Bnx2Places.afterHarvest (hp : Bnx2Places N R o T s) (havail : s.kring.nrHwavail = a)
    (ha : a < N) : Bnx2Harvested T s.ready s s.afterHarvest := by
  have hN := hp.sized.le
  have hR := hp.sized.lt
  have hroom := hp.ready_room havail
  have hi := rounds_i s (show s.ready < 2 ^ 32 by have := hp.ready_le; omega)
  rw [Bnx2Queue.afterHarvest, hp.harvest_loop havail ha]
  by_cases h0 : s.ready = 0
  · rw [h0] at hi ⊢
    have hstay : s.endHarvest (harvestRounds s 0) =
        { s with kring := { s.kring with
          nrKflags := s.kring.nrKflags &&& (0xFFFFFFFF ^^^ dpaKrPendIntr) } } := by
      have hnil : s.harvested ++ (harvestRounds s 0).taken = s.harvested := List.append_nil _
      unfold Bnx2Queue.endHarvest
      simp only [hi, ne_eq, not_true_eq_false, if_false, hnil]
      rfl
    rw [hstay]
    refine ⟨?_, rfl, rfl, rfl, rfl, ?_, rfl, rfl, rfl, rfl, (List.append_nil _).symm⟩
    · rw [hp.linksCounted_zero, Nat.cast_zero, add_zero, add_zero]
    · change s.nic = { s.nic with rxCons := place 255 T % 65536 }
      rw [← hp.cons]
  · have hadd := hp.addLinks (i := s.ready) (by omega) ha
    have hval : s.addLinks (rxRing (s.slotOf s.nic.rxCons))
        (rxRing (pos N o (place 255 (T + s.ready)))) s.ready (s32 (s.kring.nrHwavail + s.ready)) =
        s.kring.nrHwavail + s.ready + s.linksCounted s.ready := by
      rw [havail, s32_of_mem (by omega) (by omega), hadd]
    unfold Bnx2Queue.endHarvest
    simp only [hi, ne_eq, h0, not_false_eq_true, if_true, hp.rounds_k, hp.rounds_swCons,
      hp.rounds_taken]
    exact ⟨hval, rfl, rfl, rfl, rfl, rfl, rfl, rfl, rfl, rfl, rfl⟩

theorem linksCounted_le (s : Bnx2Queue β) (i : ℕ) :
    s.linksCounted i ≤ (255 + (i + s.linksPassed i)) / 256 := by
  unfold Bnx2Queue.linksCounted
  simp only
  omega

theorem Bnx2Core.counted_room (hc : Bnx2Core N R o T a m s) (hi : i = 0 ∨ i + a < R) :
    a + i + s.linksCounted i < N := by
  have ha := hc.room
  rcases hi with rfl | hi
  · rwa [hc.places.linksCounted_zero]
  · have hlinks := hc.places.linksPassed i
    have hmod := Nat.mod_lt T (show 0 < 255 by decide)
    have hle := linksCounted_le s i
    cases hc.sized <;> omega

theorem Bnx2Core.harvested (hc : Bnx2Core N R o T a m s) (hv : Bnx2Harvested T i s s')
    (hi : i = 0 ∨ i + a < R) : Bnx2Core N R o (T + i) (a + i + s.linksCounted i) m s' where
  sized := hc.sized
  slots := hv.slots.trans hc.slots
  ringSize := hv.ringSize.trans hc.ringSize
  maxRingIdx := hv.maxRingIdx.trans hc.maxRingIdx
  ofs_lt := hc.ofs_lt
  hwofs := hv.hwofs.trans hc.hwofs
  hwcur_lt := hv.hwcur.trans_lt hc.hwcur_lt
  hwavail := by
    rw [hv.hwavail, hc.hwavail]
    push_cast
    rfl
  room := hc.counted_room hi
  cons := by rw [hv.nic]
  good := by
    intro x hx
    have hbuf : bufVpa m.bufs (s'.ring.slot x) = bufVpa m.bufs (s.ring.slot x) := by
      rw [hv.ring]
      unfold bufVpa
      rw [rounds_bufIdx]
    rw [hbuf]
    exact hc.good x hx

def releaseRounds (s : Bnx2Queue β) (j : ℕ) : Bnx2Release := s.releaseRound^[j] s.beginRelease

theorem releaseRounds_succ (s : Bnx2Queue β) (j : ℕ) :
    releaseRounds s (j + 1) = s.releaseRound (releaseRounds s j) :=
  iterate_succ_apply' s.releaseRound j s.beginRelease

theorem Bnx2Core.release_k (hc : Bnx2Core N R o T a m s) (j : ℕ) :
    (releaseRounds s j).k = pos N s.kring.nrHwcur j := by
  induction j with
  | zero => exact (pos_zero hc.hwcur_lt).symm
  | succ j ih =>
    rw [releaseRounds_succ, ← ringSucc_pos hc.sized.bound hc.sized.nonempty, ← ih, ← hc.maxRingIdx]
    rfl

theorem release_j (s : Bnx2Queue β) (hj : j < 2 ^ 32) : (releaseRounds s j).j = j := by
  induction j with
  | zero => rfl
  | succ j ih =>
    rw [releaseRounds_succ]
    change u32 (((releaseRounds s j).j : ℤ) + 1) = j + 1
    rw [ih (by omega), ← Nat.cast_succ, u32_natCast hj]

theorem Bnx2Core.release_rounds (hc : Bnx2Core N R o T a m s) {u : ℕ} (hj : j ≤ N)
    (hu : ∀ i < j, pos N s.kring.nrHwcur i ≠ u) :
    s.release m u N s.beginRelease = s.release m u (N - j) (releaseRounds s j) := by
  induction j with
  | zero => rfl
  | succ j ih =>
    have hk := hc.release_k j
    have hgood := hc.good _ (pos_lt (a := s.kring.nrHwcur) (i := j) hc.sized.nonempty)
    rw [ih (by omega) (fun i hi ↦ hu i (by omega)), show N - j = N - (j + 1) + 1 by omega,
      releaseRounds_succ]
    rw [← hk] at hgood
    exact (if_neg (hk.trans_ne (hu j (by omega)))).trans (if_neg hgood)

theorem Bnx2Core.release_run (hc : Bnx2Core N R o T a m s) (hr : r < N) :
    s.release m (pos N s.kring.nrHwcur r) N s.beginRelease = some (releaseRounds s r, false) := by
  have hu : ∀ i < r, pos N s.kring.nrHwcur i ≠ pos N s.kring.nrHwcur r := by
    intro i hi heq
    have := pos_injective (by omega) hr heq
    omega
  rw [hc.release_rounds hr.le hu, show N - r = N - r - 1 + 1 by omega]
  exact if_pos (hc.release_k r)

/-- `s'` is `s` after `r` slots are released, `resvd` being the number of those that the user
keeps. -/
structure Bnx2Released (N r resvd : ℕ) (s s' : Bnx2Queue β) : Prop where
  hwavail : s'.kring.nrHwavail = s.kring.nrHwavail - r
  hwcur : s'.kring.nrHwcur = pos N s.kring.nrHwcur r
  slots : s'.kring.nkrNumSlots = s.kring.nkrNumSlots
  hwofs : s'.kring.nkrHwofs = s.kring.nkrHwofs
  ring : s'.ring = { s.ring with avail := u32 (s.kring.nrHwavail - r - resvd) }
  nic : s'.nic = { s.nic with
    rxProd := (releaseRounds s r).swProd
    bidx := if r = 0 then s.nic.bidx else (releaseRounds s r).swProd }
  ringSize : s'.rxRingSize = s.rxRingSize
  maxRingIdx : s'.rxMaxRingIdx = s.rxMaxRingIdx
  rxMode : s'.rxMode = s.rxMode
  mem : s'.mem = s.mem
  harvested : s'.harvested = s.harvested

/-- The rest of a call whose user has passed `r` slots that it does not keep. -/
theorem Bnx2Core.released (hc : Bnx2Core N R o T a m s) (r resvd : ℕ) (hr : r + resvd ≤ a)
    (hav : s.ring.avail + resvd < N) :
    ∃ s', s.releaseAndReport m (pos N s.kring.nrHwcur (r + resvd)) resvd = some (0, s') ∧
      Bnx2Released N r resvd s s' := by
  have hb := hc.sized.bound
  have hN := hc.sized.nonempty
  have ha := hc.room
  have hwavail := hc.hwavail
  have hchk : checkedResvd s.numSlots s.ring resvd = resvd := by
    rw [hc.numSlots]
    exact checkedResvd_eq hb hN hav
  have hlast : releaseEnd s.numSlots (pos N s.kring.nrHwcur (r + resvd)) resvd =
      pos N s.kring.nrHwcur r := by
    rw [hc.numSlots, releaseEnd_eq hb hc.hwcur_lt (by omega) (by omega), Nat.add_sub_cancel]
  unfold Bnx2Queue.releaseAndReport
  simp only [hchk, hlast, if_true]
  by_cases h0 : r = 0
  · subst h0
    rw [if_pos (pos_zero hc.hwcur_lt).symm]
    refine ⟨_, rfl, ?_, ?_, rfl, rfl, ?_, rfl, rfl, rfl, rfl, rfl, rfl⟩
    · rw [Nat.cast_zero, sub_zero]
    · exact (pos_zero hc.hwcur_lt).symm
    · rw [Nat.cast_zero, sub_zero]
  · have hne : s.kring.nrHwcur ≠ pos N s.kring.nrHwcur r := by
      intro heq
      have h00 : pos N s.kring.nrHwcur 0 = pos N s.kring.nrHwcur r :=
        (pos_zero hc.hwcur_lt).trans heq
      exact h0 (pos_injective hN (by omega) h00).symm
    have hav' : s32 (s.kring.nrHwavail - r) = s.kring.nrHwavail - r :=
      s32_of_mem (by omega) (by omega)
    rw [if_neg hne, hc.slots, hc.release_run (by omega)]
    refine ⟨_, rfl, ?_⟩
    simp only [Bnx2Queue.endRelease, release_j s (show r < 2 ^ 32 by omega), hav']
    refine ⟨rfl, rfl, rfl, rfl, rfl, ?_, rfl, rfl, rfl, rfl, rfl⟩
    rw [if_neg h0]

/-- The user's side: it has passed all but `avail` of the pending slots and keeps `reserved` of
those. -/
structure Bnx2User (N a : ℕ) (s : Bnx2Queue β) : Prop where
  avail : s.ring.avail + s.ring.reserved ≤ a
  cur : s.ring.cur = pos N s.kring.nrHwcur (a - s.ring.avail)

def Bnx2Queue.offsetTold (s : Bnx2Queue β) : Bnx2Queue β :=
  { s with ring := { s.ring with hwOfs := s.kring.nkrHwofs } }

theorem Bnx2Core.offsetTold (hc : Bnx2Core N R o T a m s) : Bnx2Core N R o T a m s.offsetTold :=
  ⟨hc.sized, hc.slots, hc.ringSize, hc.maxRingIdx, hc.ofs_lt, hc.hwofs, hc.hwcur_lt, hc.hwavail,
    hc.room, hc.cons, hc.good⟩

theorem Bnx2Core.rxSync (hc : Bnx2Core N R o T a m s) (hu : Bnx2User N a s) (doLock : Bool) :
    ∃ s₁ s', s.bnx2DpaRxSync m true doLock = some (0, s') ∧
      Bnx2Harvested T s.ready s.offsetTold s₁ ∧
      Bnx2Released N (a - s.ring.avail - s.ring.reserved) s.ring.reserved s₁ s' := by
  have hav := hu.avail
  have ha := hc.room
  have hroom := hc.places.ready_room hc.hwavail
  have hlt : ¬s.ring.cur > s.numSlots := by
    have hcur : s.ring.cur < N := by
      rw [hu.cur]
      exact pos_lt hc.sized.nonempty
    rw [hc.numSlots]
    omega
  have hv := hc.offsetTold.places.afterHarvest hc.offsetTold.hwavail hc.room
  have hc₁ := hc.offsetTold.harvested hv hroom
  have hring := hv.ring
  have hhwcur := hv.hwcur
  change Bnx2Harvested T s.ready s.offsetTold s.offsetTold.afterHarvest at hv
  have hpend : dpaPendIntr = 0 := rfl
  have hbody : s.bnx2DpaRxSync m true doLock =
      s.offsetTold.afterHarvest.releaseAndReport m s.ring.cur s.ring.reserved := by
    unfold Bnx2Queue.bnx2DpaRxSync
    simp only [Bool.not_true, Bool.false_eq_true, if_false, hlt, hpend, true_or, if_true]
    rfl
  generalize s.offsetTold.afterHarvest = s₁ at *
  have hav₁ : s₁.ring.avail = s.ring.avail := by
    rw [hring]
    rfl
  obtain ⟨s', heq, hr⟩ := hc₁.released (a - s.ring.avail - s.ring.reserved)
    s.ring.reserved (by omega) (by omega)
  refine ⟨s₁, s', ?_, hv, hr⟩
  rw [hbody, ← heq, hhwcur, Nat.sub_add_cancel (by omega)]
  congr 1
  exact hu.cur

theorem Bnx2Core.rxSync_returns (hc : Bnx2Core N R o T a m s) (hu : Bnx2User N a s)
    (carrier doLock : Bool) : ∃ s', s.bnx2DpaRxSync m carrier doLock = some (0, s') := by
  cases carrier with
  | false => exact ⟨s, rfl⟩
  | true =>
    obtain ⟨_, s', heq, _⟩ := hc.rxSync hu doLock
    exact ⟨s', heq⟩

theorem Bnx2Core.released_core (hc : Bnx2Core N R o T a m s) (hr : Bnx2Released N r resvd s s')
    (hle : r ≤ a) : Bnx2Core N R o T (a - r) m s' where
  sized := hc.sized
  slots := hr.slots.trans hc.slots
  ringSize := hr.ringSize.trans hc.ringSize
  maxRingIdx := hr.maxRingIdx.trans hc.maxRingIdx
  ofs_lt := hc.ofs_lt
  hwofs := hr.hwofs.trans hc.hwofs
  hwcur_lt := by
    rw [hr.hwcur]
    exact pos_lt hc.sized.nonempty
  hwavail := by rw [hr.hwavail, hc.hwavail, Nat.cast_sub hle]
  room := by
    have := hc.room
    omega
  cons := by
    rw [hr.nic]
    exact hc.cons
  good := by
    rw [hr.ring]
    exact hc.good

theorem Bnx2Core.synced {s₁ : Bnx2Queue β} (hc : Bnx2Core N R o T a m s) (hu : Bnx2User N a s)
    (hv : Bnx2Harvested T s.ready s.offsetTold s₁)
    (hr : Bnx2Released N (a - s.ring.avail - s.ring.reserved) s.ring.reserved s₁ s') :
    s'.ring.avail = s.ring.avail + (s.ready + s.linksCounted s.ready) ∧
      Bnx2Core N R o (T + s.ready)
        (s.ring.avail + s.ring.reserved + (s.ready + s.linksCounted s.ready)) m s' ∧
      Bnx2User N (s.ring.avail + s.ring.reserved + (s.ready + s.linksCounted s.ready)) s' := by
  have hav := hu.avail
  have hN := hc.sized.le
  have hroom := hc.places.ready_room hc.hwavail
  have hc₁ := hc.offsetTold.harvested hv hroom
  have hroom₁ := hc₁.room
  have hwavail₁ := hc₁.hwavail
  change s₁.kring.nrHwavail = (a + s.ready + s.linksCounted s.ready : ℕ) at hwavail₁
  change a + s.ready + s.linksCounted s.ready < N at hroom₁
  have hring : s'.ring.cur = s.ring.cur ∧ s'.ring.reserved = s.ring.reserved := by
    rw [hr.ring, hv.ring]
    exact ⟨rfl, rfl⟩
  have havail : s'.ring.avail = s.ring.avail + (s.ready + s.linksCounted s.ready) := by
    rw [hr.ring]
    change u32 (s₁.kring.nrHwavail - _ - _) = _
    rw [hwavail₁, u32_of_mem (by omega) (by omega)]
    omega
  have hc' := hc₁.released_core hr (by omega)
  change Bnx2Core N R o (T + s.ready) (a + s.ready + s.linksCounted s.ready - _) m s' at hc'
  rw [show a + s.ready + s.linksCounted s.ready - (a - s.ring.avail - s.ring.reserved) =
    s.ring.avail + s.ring.reserved + (s.ready + s.linksCounted s.ready) by omega] at hc'
  refine ⟨havail, hc', ?_, ?_⟩
  · omega
  · rw [hring.1, hu.cur, hr.hwcur, hv.hwcur, pos_pos, havail]
    congr 1
    omega

end Dpa.Driver
