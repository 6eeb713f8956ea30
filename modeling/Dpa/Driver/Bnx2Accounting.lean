import Dpa.Driver.Bnx2Reset

namespace Dpa.Driver

open Kernel MachineWord Cyclic Paged Function Loop

variable {β : Type} {N R o T a i n p q : ℕ} {s : Bnx2Queue β}

def Bnx2Queue.harvestEnd (s : Bnx2Queue β) : Bnx2Harvest β :=
  loop s.moreToHarvest s.harvestRound s.rxRingSize s.beginHarvest

/-- From consumer index `cons`, a ring of `R` descriptors at offset `o` goes over an end of a page
of the user ring whenever it goes over a page link, and over one more where a ring of 765 comes
round the end of the user ring. -/
def CrossesAlike (N R o cons i : ℕ) : Prop :=
  let n := i + (cons % 256 + i) / 255
  let inUser := (cons + o) % 256 + n % 256
  let inNic := cons % 256 + n % 256
  if R = 765 ∧ N ≤ (cons + o) % N + n then 256 ≤ inUser ∧ inNic < 256
  else 256 ≤ inUser ↔ 256 ≤ inNic

instance : Decidable (CrossesAlike N R o q i) := by
  unfold CrossesAlike
  infer_instance

/-- The pages that a walk of `n` places ends above the one it began in. -/
theorem pages_crossed (n : ℕ) (hp : p < 256) :
    (p + n) / 256 = n / 256 + if 256 ≤ p + n % 256 then 1 else 0 := by
  split_ifs <;> omega

/-- The ends of pages of the user ring and the page links agree in number exactly where they are
crossed alike. -/
theorem Bnx2Places.linksCounted_eq_iff (hp : Bnx2Places N R o T s) (hi : i < R) :
    s.linksCounted i = s.linksPassed i ↔ CrossesAlike N R o s.nic.rxCons i := by
  have hcons : s.nic.rxCons % 256 = T % 255 := by
    have hmod : place 255 T % 65536 % 256 = place 255 T % 256 := by omega
    rw [hp.cons, hmod, place_mod_255]
  have hslot : s.slotOf s.nic.rxCons = (s.nic.rxCons + o) % N := by
    rw [hp.cons, hp.slotOf, pos, Nat.add_comm, Nat.add_mod, ← hp.sized.mod_mod (place 255 T),
      ← Nat.add_mod]
  have hT := Nat.mod_lt T (show 0 < 255 by decide)
  have huser : (s.nic.rxCons + o) % N % 256 = (s.nic.rxCons + o) % 256 :=
    Nat.mod_mod_of_dvd _ hp.sized.dvd
  have hk : (s.nic.rxCons + o) % N < N := Nat.mod_lt _ hp.sized.nonempty
  unfold Bnx2Queue.linksCounted Bnx2Queue.linksPassed CrossesAlike
  simp only [hslot, hp.slots, hp.ringSize]
  generalize (s.nic.rxCons + o) % N = k at *
  generalize s.nic.rxCons % 256 = c at *
  generalize (s.nic.rxCons + o) % 256 = u at *
  generalize hn : i + (c + i) / 255 = n
  have hlinks : (c + i) / 255 = (c + n) / 256 := by omega
  have hcount : (k + n) / 256 - k / 256 = (u + n) / 256 := by omega
  have hwrap : N ≤ k + n → 1 ≤ (u + n) / 256 := by
    intro hle
    have hdvd := hp.sized.dvd
    omega
  rw [hcount, hlinks, pages_crossed n (show c < 256 by omega)]
  rw [pages_crossed n (show u < 256 by omega)] at hwrap ⊢
  split_ifs at hwrap ⊢ <;> omega

theorem Bnx2Places.harvestEnd (hp : Bnx2Places N R o T s) (havail : s.kring.nrHwavail = a)
    (ha : a < N) : s.harvestEnd = harvestRounds s s.ready :=
  hp.harvest_loop havail ha

/-- The user slots of the old and of the new consumer index are as far apart as the packets and
the page links between them. -/
theorem Bnx2Places.ahead_slots (hp : Bnx2Places N R o T s) (hi : i < R) :
    ahead N (s.slotOf s.nic.rxCons) (harvestRounds s i).k = i + s.linksPassed i := by
  have hlinks := hp.linksPassed i
  have hT := Nat.mod_lt T (show 0 < 255 by decide)
  have hlt : i + s.linksPassed i < N := by cases hp.sized <;> omega
  rw [hp.rounds_k, hp.cons, hp.slotOf, hp.place_add, ← pos_pos,
    ahead_pos (pos_lt hp.sized.nonempty) hlt]

theorem hwavail_of_harvest (hR : R = s.rxRingSize) (hlt : 1 ≤ R ∧ R ≤ 1024)
    (hlo : -2 ^ 31 ≤ s.kring.nrHwavail) (hhi : s.kring.nrHwavail < 2 ^ 31)
    (htaken : s.harvestEnd.i ≠ 0) : ∃ a : ℕ, s.kring.nrHwavail = a ∧ a < R - 1 := by
  have hgo : s.moreToHarvest s.beginHarvest = true := by
    by_contra hstop
    apply htaken
    rw [Bnx2Queue.harvestEnd]
    cases hn : s.rxRingSize with
    | zero => rfl
    | succ n =>
      rw [loop, if_neg hstop]
      rfl
  have hroom : ¬u32 ((0 : ℕ) + s.kring.nrHwavail) ≥ u32 (s.rxRingSize - 1) := by
    simp only [Bnx2Queue.moreToHarvest, decide_eq_true_eq] at hgo
    exact hgo.1
  rw [← hR] at hroom
  refine ⟨s.kring.nrHwavail.toNat, ?_, ?_⟩
  · unfold u32 at hroom
    omega
  · unfold u32 at hroom
    omega

/-- What the harvest of a call adds to `nr_hwavail`: the forward distance of the consumer index
in the user ring, which is its packets and the page links they skip, exactly where both sides
cross their pages alike. -/
theorem harvest_accounting_iff (h₁ : 256 ≤ n) (h₂ : n ≤ 4096)
    (hR : s.rxRingSize = dpaRxRingCount n)
    (hmax : s.rxMaxRingIdx = bnx2FindMaxRing s.rxRingSize maxRxRings * rxDescCnt - 1)
    (hslots : s.kring.nkrNumSlots = s.rxMaxRingIdx + 1) (ho : o < s.kring.nkrNumSlots)
    (hofs : s.kring.nkrHwofs = o) (hcons : s.nic.rxCons < 65536)
    (hlink : s.nic.rxCons % 256 ≠ 255) (hlo : -2 ^ 31 ≤ s.kring.nrHwavail)
    (hhi : s.kring.nrHwavail < 2 ^ 31) (htaken : s.harvestEnd.i ≠ 0) :
    s.harvestEnd.i ≤ s.rxRingSize - 1 ∧
      ahead s.kring.nkrNumSlots (s.slotOf s.nic.rxCons) s.harvestEnd.k =
        s.harvestEnd.i + s.linksPassed s.harvestEnd.i ∧
      (s.afterHarvest.kring.nrHwavail = s.kring.nrHwavail +
          ahead s.kring.nkrNumSlots (s.slotOf s.nic.rxCons) s.harvestEnd.k ↔
        CrossesAlike s.kring.nkrNumSlots s.rxRingSize o s.nic.rxCons s.harvestEnd.i) := by
  have hsize : Sized s.kring.nkrNumSlots s.rxRingSize := by
    have hof := Sized.of_count h₁ h₂
    have hpos := hof.nonempty
    rw [← hR] at hof hpos
    rwa [hslots, hmax, Nat.sub_add_cancel hpos]
  have hlast : s.rxMaxRingIdx = s.kring.nkrNumSlots - 1 := by omega
  clear hslots hR hmax
  generalize hnum : s.kring.nkrNumSlots = N at *
  generalize hsz : s.rxRingSize = R at *
  have hN := hsize.lt
  have hle := hsize.le
  have hone : 1 ≤ R := by cases hsize <;> decide
  obtain ⟨a, havail, ha⟩ := hwavail_of_harvest hsz.symm ⟨hone, by omega⟩ hlo hhi htaken
  have hp : Bnx2Places N R o (used 255 s.nic.rxCons) s := by
    refine ⟨hsize, hnum, hsz, hlast, ho, hofs, ?_⟩
    rw [place_used hlink, Nat.mod_eq_of_lt hcons]
  have hend := hp.harvestEnd havail (by omega)
  have hready := hp.ready_le
  have hi : s.harvestEnd.i = s.ready := by rw [hend, rounds_i s (by omega)]
  have hroom := (hp.ready_room havail).resolve_left (hi ▸ htaken)
  have hahead := hp.ahead_slots (show s.ready < R by omega)
  have hv := hp.afterHarvest havail (by omega)
  rw [hi, hend, hahead]
  refine ⟨by omega, rfl, ?_⟩
  rw [← hp.linksCounted_eq_iff (by omega), hv.hwavail]
  omega

def beforeLink (hwofs : ℤ) : Bnx2Queue ℕ :=
  { twoPages with
    kring := { twoPages.kring with nkrHwofs := hwofs }
    nic := { twoPages.nic with rxCons := 253, hwRxCons := 254 } }

/-- At offset 2 the packet moves the consumer by one slot, over the end of a page of the user
ring and over no page link, and two are added for it. -/
theorem harvest_beforeLink : (beforeLink 2).harvestEnd.i = 1 ∧
    (beforeLink 2).linksPassed 1 = 0 ∧
    ahead 512 ((beforeLink 2).slotOf 253) (beforeLink 2).harvestEnd.k = 1 ∧
    (beforeLink 2).kring.nrHwavail = 0 ∧ (beforeLink 2).afterHarvest.kring.nrHwavail = 2 ∧
    (beforeLink 2).afterHarvest.kring.nrHwavail ≠ (beforeLink 2).kring.nrHwavail +
      ahead 512 ((beforeLink 2).slotOf 253) (beforeLink 2).harvestEnd.k := by
  decide +kernel

/-- Five packets to harvest, three before a page link and two after it, at offset 1. -/
def acrossLink : Bnx2Queue ℕ :=
  { beforeLink 1 with nic := { twoPages.nic with rxCons := 252, hwRxCons := 258 } }

theorem harvest_accounting_iff_acrossLink : acrossLink.harvestEnd.i = 5 ∧
    acrossLink.linksPassed 5 = 1 ∧ acrossLink.afterHarvest.kring.nrHwavail =
      acrossLink.kring.nrHwavail + ahead 512 (acrossLink.slotOf acrossLink.nic.rxCons)
        acrossLink.harvestEnd.k := by
  refine ⟨by decide +kernel, by decide, ?_⟩
  exact (harvest_accounting_iff (n := 256) (o := 1) (by decide) (by decide) (by decide)
    (by decide +kernel) rfl (by decide) rfl (by decide) (by decide) (by decide) (by decide)
    (by decide +kernel)).2.2.2 (by decide +kernel)

end Dpa.Driver
