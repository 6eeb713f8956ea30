import Dpa.Driver.Intel

namespace Dpa.Driver

open Kernel MachineWord Cyclic Function

variable {N o h r i : ℕ} {bits : RxBits} {m : DpaModule} {s s' : RxQueue}

structure Indexed (N o : ℕ) (s : RxQueue) : Prop where
  nonempty : 0 < N
  bound : N ≤ 2 ^ 30
  slots : s.kring.nkrNumSlots = N
  ofs_lt : o < N
  hwofs : s.kring.nkrHwofs = o
  clean_lt : s.nic.nextToClean < N
  hwcur_lt : s.kring.nrHwcur < N

theorem Indexed.numSlots (hs : Indexed N o s) : s.numSlots = N - 1 := by
  have hN := hs.nonempty
  have hb := hs.bound
  rw [RxQueue.numSlots, hs.slots, u32_of_mem (by omega) (by omega)]
  omega

theorem Indexed.n2k (hs : Indexed N o s) (hi : i < N) :
    dpaIdxN2k s.kring i = (pos N i o : ℕ) :=
  dpaIdxN2k_eq hs.bound hs.slots hs.hwofs hs.ofs_lt hi

theorem Indexed.k2n (hs : Indexed N o s) (hi : i < N) :
    dpaIdxK2n s.kring i = (ahead N o i : ℕ) :=
  dpaIdxK2n_eq hs.bound hs.slots hs.hwofs hs.ofs_lt hi

def nicCur (N o : ℕ) (s : RxQueue) : ℕ := ahead N o s.kring.nrHwcur

def userClean (N o : ℕ) (s : RxQueue) : ℕ := pos N s.nic.nextToClean o

section

variable (bits m N o)

def harvestAt (s : RxQueue) (i : ℕ) : Harvest where
  slot := swept N s.nic.nextToClean (userClean N o s) (AdvRxDesc.harvestInto bits m.typeUpdate)
    s.nic.desc s.ring.slot i
  n := pos N s.nic.nextToClean i
  k := pos N (userClean N o s) i
  i := i
  bytes := u32 ((List.range i).map fun j ↦ (s.nic.desc (pos N s.nic.nextToClean j)).length).sum

def releaseAt (s : RxQueue) (i : ℕ) : Release where
  desc := swept N s.kring.nrHwcur (nicCur N o s) (fun slot d ↦ d.rearm (bufVpa m.bufs slot).2)
    s.ring.slot s.nic.desc i
  n := pos N (nicCur N o s) i
  k := pos N s.kring.nrHwcur i
  i := i
  given := s.nic.given ++ (List.range i).map (pos N s.kring.nrHwcur)

end

def DoneAt (N : ℕ) (bits : RxBits) (s : RxQueue) (i : ℕ) : Prop :=
  (s.nic.desc (pos N s.nic.nextToClean i)).done bits = true

def GoodAt (N : ℕ) (m : DpaModule) (s : RxQueue) (i : ℕ) : Prop :=
  (bufVpa m.bufs (s.ring.slot (pos N s.kring.nrHwcur i))).1 ≠ m.bufs.base

theorem u32_add_left (a b : ℕ) : u32 ((u32 a : ℕ) + (b : ℕ)) = u32 ((a + b : ℕ)) := by
  unfold u32
  omega

theorem Indexed.userClean_lt (hs : Indexed N o s) : userClean N o s < N := pos_lt hs.nonempty

theorem Indexed.nicCur_lt (hs : Indexed N o s) : nicCur N o s < N := ahead_lt hs.nonempty

theorem Indexed.beginHarvest (hs : Indexed N o s) : s.beginHarvest = harvestAt N o bits m s 0 := by
  have hb := hs.bound
  have hc := hs.clean_lt
  have hu := hs.userClean_lt
  have hk : u32 (dpaIdxN2k s.kring (s32 s.nic.nextToClean)) = pos N (userClean N o s) 0 := by
    rw [s32_of_mem (by omega) (by omega), hs.n2k hc, pos_zero hu]
    exact u32_natCast (by unfold userClean at hu; omega)
  have h0 : u32 (0 : ℕ) = 0 := u32_natCast (by decide)
  simp [RxQueue.beginHarvest, harvestAt, hk, pos_zero hc]
  exact h0.symm

theorem Indexed.harvest_step (hs : Indexed N o s) (hi : i < N) (hd : DoneAt N bits s i)
    (fuel : ℕ) : harvest bits m s.nic.desc s.numSlots (fuel + 1) (harvestAt N o bits m s i) =
      harvest bits m s.nic.desc s.numSlots fuel (harvestAt N o bits m s (i + 1)) := by
  have hb := hs.bound
  have hslot := swept_succ (a := s.nic.nextToClean) (AdvRxDesc.harvestInto bits m.typeUpdate)
    s.nic.desc s.ring.slot hs.userClean_lt hi
  refine (if_pos hd).trans ?_
  congr 1
  simp only [harvestAt, hs.numSlots, ringSucc_pos hb hs.nonempty, hslot, u32_add_left, List.range_succ,
    List.map_append, List.map_singleton, List.sum_append, List.sum_singleton]
  rw [← Nat.cast_succ, u32_natCast (by omega)]

theorem Indexed.harvest_run (hs : Indexed N o s) (hh : h < N) (hd : ∀ j < h, DoneAt N bits s j)
    (hn : ¬DoneAt N bits s h) :
    harvest bits m s.nic.desc s.numSlots N s.beginHarvest = some (harvestAt N o bits m s h) := by
  have hrun : ∀ fuel j, j ≤ h → h - j < fuel →
      harvest bits m s.nic.desc s.numSlots fuel (harvestAt N o bits m s j) =
        some (harvestAt N o bits m s h) := by
    intro fuel
    induction fuel with
    | zero => intro j _ hlt; omega
    | succ fuel ih =>
      intro j hj hlt
      rcases hj.lt_or_eq with hjh | rfl
      · rw [hs.harvest_step (by omega) (hd j hjh)]
        exact ih (j + 1) hjh (by omega)
      · exact if_neg hn
  rw [hs.beginHarvest]
  exact hrun N 0 (Nat.zero_le h) (by omega)

theorem Indexed.harvest_never (hs : Indexed N o s) (hd : ∀ j < N, DoneAt N bits s j) :
    harvest bits m s.nic.desc s.numSlots N s.beginHarvest = none := by
  have hrun : ∀ fuel j, j + fuel ≤ N →
      harvest bits m s.nic.desc s.numSlots fuel (harvestAt N o bits m s j) = none := by
    intro fuel
    induction fuel with
    | zero => intro j _; rfl
    | succ fuel ih =>
      intro j hj
      rw [hs.harvest_step (by omega) (hd j (by omega))]
      exact ih (j + 1) (by omega)
  rw [hs.beginHarvest]
  exact hrun N 0 (by omega)

theorem Indexed.beginRelease (hs : Indexed N o s) : s.beginRelease = releaseAt N o m s 0 := by
  have hb := hs.bound
  have hc := hs.hwcur_lt
  have hn := hs.nicCur_lt
  have hk : u32 (dpaIdxK2n s.kring (s32 s.kring.nrHwcur)) = pos N (nicCur N o s) 0 := by
    rw [s32_of_mem (by omega) (by omega), hs.k2n hc, pos_zero hn]
    exact u32_natCast (by unfold nicCur at hn; omega)
  simp [RxQueue.beginRelease, releaseAt, hk, pos_zero hc]

theorem Indexed.release_step (hs : Indexed N o s) {u : ℕ} (hi : i < N)
    (hu : pos N s.kring.nrHwcur i ≠ u) (hg : GoodAt N m s i) (fuel : ℕ) :
    release m s.ring.slot s.numSlots u (fuel + 1) (releaseAt N o m s i) =
      release m s.ring.slot s.numSlots u fuel (releaseAt N o m s (i + 1)) := by
  have hb := hs.bound
  have hdesc := swept_succ (a := s.kring.nrHwcur)
    (fun slot (d : AdvRxDesc) ↦ d.rearm (bufVpa m.bufs slot).2) s.ring.slot s.nic.desc
    hs.nicCur_lt hi
  refine (if_neg hu).trans ((if_neg hg).trans ?_)
  congr 1
  simp only [releaseAt, hs.numSlots, ringSucc_pos hb hs.nonempty, hdesc, List.append_assoc,
    List.range_succ, List.map_append, List.map_singleton]
  rw [← Nat.cast_succ, u32_natCast (by omega)]

theorem Indexed.release_rounds (hs : Indexed N o s) {u : ℕ} (hi : i ≤ N)
    (hu : ∀ j < i, pos N s.kring.nrHwcur j ≠ u) (hg : ∀ j < i, GoodAt N m s j) :
    release m s.ring.slot s.numSlots u N s.beginRelease =
      release m s.ring.slot s.numSlots u (N - i) (releaseAt N o m s i) := by
  rw [hs.beginRelease]
  induction i with
  | zero => rfl
  | succ i ih =>
    rw [ih (by omega) (fun j hj ↦ hu j (by omega)) (fun j hj ↦ hg j (by omega)),
      show N - i = N - (i + 1) + 1 by omega,
      hs.release_step (by omega) (hu i (by omega)) (hg i (by omega))]

theorem Indexed.release_run (hs : Indexed N o s) (hr : r < N) (hg : ∀ j < r, GoodAt N m s j) :
    release m s.ring.slot s.numSlots (pos N s.kring.nrHwcur r) N s.beginRelease =
      some (releaseAt N o m s r, false) := by
  have hu : ∀ j < r, pos N s.kring.nrHwcur j ≠ pos N s.kring.nrHwcur r := by
    intro j hj heq
    have := pos_injective (by omega) hr heq
    omega
  rw [hs.release_rounds hr.le hu hg, show N - r = N - r - 1 + 1 by omega]
  exact if_pos rfl

theorem Indexed.release_bad (hs : Indexed N o s) {u : ℕ} (hi : i < N)
    (hu : ∀ j ≤ i, pos N s.kring.nrHwcur j ≠ u) (hg : ∀ j < i, GoodAt N m s j)
    (hb : ¬GoodAt N m s i) :
    release m s.ring.slot s.numSlots u N s.beginRelease = some (releaseAt N o m s i, true) := by
  rw [hs.release_rounds hi.le (fun j hj ↦ hu j hj.le) hg, show N - i = N - i - 1 + 1 by omega]
  exact (if_neg (hu i le_rfl)).trans (if_pos (not_not.1 hb))

theorem Indexed.release_never (hs : Indexed N o s) {u : ℕ}
    (hu : ∀ j < N, pos N s.kring.nrHwcur j ≠ u) (hg : ∀ j < N, GoodAt N m s j) :
    release m s.ring.slot s.numSlots u N s.beginRelease = none := by
  rw [hs.release_rounds le_rfl hu hg, Nat.sub_self, release]

structure Harvested (N o : ℕ) (bits : RxBits) (m : DpaModule) (h : ℕ) (s s' : RxQueue) : Prop where
  hwavail : s'.kring.nrHwavail = s.kring.nrHwavail + h
  hwcur : s'.kring.nrHwcur = s.kring.nrHwcur
  slots : s'.kring.nkrNumSlots = s.kring.nkrNumSlots
  hwofs : s'.kring.nkrHwofs = s.kring.nkrHwofs
  ring : s'.ring = { s.ring with slot := (harvestAt N o bits m s h).slot }
  clean : s'.nic.nextToClean = pos N s.nic.nextToClean h
  desc : s'.nic.desc = s.nic.desc
  count : s'.nic.count = s.nic.count
  head : s'.nic.head = s.nic.head
  tail : s'.nic.tail = s.nic.tail
  given : s'.nic.given = s.nic.given
  numRxDescs : s'.numRxDescs = s.numRxDescs

/-- `s'` is `s` after `r` slots are given back to the NIC, `resvd` being the number of those
that the user wants to keep. -/
structure Released (N o : ℕ) (m : DpaModule) (r resvd : ℕ) (s s' : RxQueue) : Prop where
  hwavail : s'.kring.nrHwavail = s.kring.nrHwavail - r
  hwcur : s'.kring.nrHwcur = pos N s.kring.nrHwcur r
  slots : s'.kring.nkrNumSlots = s.kring.nkrNumSlots
  hwofs : s'.kring.nkrHwofs = s.kring.nkrHwofs
  slot : s'.ring.slot = s.ring.slot
  numSlots : s'.ring.numSlots = s.ring.numSlots
  cur : s'.ring.cur = s.ring.cur
  avail : s'.ring.avail = u32 (s.kring.nrHwavail - r - s.checkedResvd resvd)
  reserved : s'.ring.reserved = if s.checkedResvd resvd = resvd then s.ring.reserved else 0
  clean : s'.nic.nextToClean = s.nic.nextToClean
  desc : s'.nic.desc = (releaseAt N o m s r).desc
  count : s'.nic.count = s.nic.count
  head : s'.nic.head = s.nic.head
  tail : s'.nic.tail = if r = 0 then s.nic.tail else pos N (nicCur N o s) (r + (N - 1))
  given : s'.nic.given = s.nic.given ++ (List.range r).map (pos N s.kring.nrHwcur)
  numRxDescs : s'.numRxDescs = s.numRxDescs

/-- A harvest of `h` packets, the count of pending slots apart. -/
structure Gathered (N o : ℕ) (bits : RxBits) (m : DpaModule) (h : ℕ) (s s' : RxQueue) : Prop where
  hwcur : s'.kring.nrHwcur = s.kring.nrHwcur
  slots : s'.kring.nkrNumSlots = s.kring.nkrNumSlots
  hwofs : s'.kring.nkrHwofs = s.kring.nkrHwofs
  ring : s'.ring = { s.ring with slot := (harvestAt N o bits m s h).slot }
  clean : s'.nic.nextToClean = pos N s.nic.nextToClean h
  desc : s'.nic.desc = s.nic.desc
  count : s'.nic.count = s.nic.count
  head : s'.nic.head = s.nic.head
  tail : s'.nic.tail = s.nic.tail
  given : s'.nic.given = s.nic.given
  numRxDescs : s'.numRxDescs = s.numRxDescs

theorem Indexed.gathered (hs : Indexed N o s) (bits : RxBits) (m : DpaModule) (h : ℕ) :
    Gathered N o bits m h s (s.endHarvest (harvestAt N o bits m s h)) := by
  have hc := hs.clean_lt
  by_cases h0 : h = 0
  · subst h0
    simp only [RxQueue.endHarvest, harvestAt, ne_eq, not_true_eq_false, if_false]
    exact ⟨rfl, rfl, rfl, rfl, (pos_zero hc).symm, rfl, rfl, rfl, rfl, rfl, rfl⟩
  · simp only [RxQueue.endHarvest, harvestAt, ne_eq, h0, not_false_eq_true, if_true]
    exact ⟨rfl, rfl, rfl, rfl, rfl, rfl, rfl, rfl, rfl, rfl, rfl⟩

theorem Gathered.indexed (hg : Gathered N o bits m h s s') (hs : Indexed N o s) :
    Indexed N o s' where
  nonempty := hs.nonempty
  bound := hs.bound
  slots := hg.slots.trans hs.slots
  ofs_lt := hs.ofs_lt
  hwofs := hg.hwofs.trans hs.hwofs
  clean_lt := by
    rw [hg.clean]
    exact pos_lt hs.nonempty
  hwcur_lt := by
    rw [hg.hwcur]
    exact hs.hwcur_lt

theorem Harvested.gathered (hv : Harvested N o bits m h s s') : Gathered N o bits m h s s' :=
  ⟨hv.hwcur, hv.slots, hv.hwofs, hv.ring, hv.clean, hv.desc, hv.count, hv.head, hv.tail, hv.given,
    hv.numRxDescs⟩

theorem Indexed.endHarvest (hs : Indexed N o s) (bits : RxBits) (m : DpaModule) (h : ℕ)
    (hlo : -2 ^ 31 ≤ s.kring.nrHwavail + h) (hhi : s.kring.nrHwavail + h < 2 ^ 31) :
    Harvested N o bits m h s (s.endHarvest (harvestAt N o bits m s h)) := by
  obtain ⟨hcur, hslots, hofs, hring, hclean, hdesc, hcount, hhead, htail, hgiven, hnum⟩ :=
    hs.gathered bits m h
  refine ⟨?_, hcur, hslots, hofs, hring, hclean, hdesc, hcount, hhead, htail, hgiven, hnum⟩
  by_cases h0 : h = 0
  · subst h0
    simp [RxQueue.endHarvest, harvestAt]
  · simp only [RxQueue.endHarvest, harvestAt, ne_eq, h0, not_false_eq_true, if_true]
    exact s32_of_mem hlo hhi

theorem Harvested.indexed (hv : Harvested N o bits m h s s') (hs : Indexed N o s) :
    Indexed N o s' :=
  hv.gathered.indexed hs

theorem Released.indexed (hr : Released N o m r i s s') (hs : Indexed N o s) :
    Indexed N o s' where
  nonempty := hs.nonempty
  bound := hs.bound
  slots := hr.slots.trans hs.slots
  ofs_lt := hs.ofs_lt
  hwofs := hr.hwofs.trans hs.hwofs
  clean_lt := by
    rw [hr.clean]
    exact hs.clean_lt
  hwcur_lt := by
    rw [hr.hwcur]
    exact pos_lt hs.nonempty

theorem prev_pos {n : ℕ} (hb : N ≤ 2 ^ 30) (hn : n < N) :
    (if n = 0 then N - 1 else u32 (n - 1)) = pos N n (N - 1) := by
  rw [← prev_eq hn]
  split_ifs with h0
  · rfl
  · rw [u32_of_mem (by omega) (by omega)]
    omega

def dropReserved (s : RxQueue) (resvd : ℕ) : RxQueue :=
  if s.checkedResvd resvd = resvd then s else { s with ring := { s.ring with reserved := 0 } }

def reportAvail (s : RxQueue) (resvd : ℕ) : RxQueue :=
  { s with ring := { s.ring with avail := u32 (s.kring.nrHwavail - resvd) } }

theorem releaseAndReport_eq (m : DpaModule) (u resvd : ℕ) (s : RxQueue) :
    s.releaseAndReport m u resvd =
      if s.kring.nrHwcur = s.releaseEnd u (s.checkedResvd resvd) then
        some (0, reportAvail (dropReserved s resvd) (s.checkedResvd resvd))
      else
        match release m s.ring.slot s.numSlots (s.releaseEnd u (s.checkedResvd resvd))
          s.kring.nkrNumSlots s.beginRelease with
        | none => none
        | some (r, true) => some (RxQueue.reinit m
            { dropReserved s resvd with
              nic := { s.nic with desc := r.desc, given := r.given } } false)
        | some (r, false) => some (0, reportAvail ((dropReserved s resvd).endRelease
            (s.releaseEnd u (s.checkedResvd resvd)) r) (s.checkedResvd resvd)) := by
  unfold RxQueue.releaseAndReport dropReserved
  by_cases hc : s.checkedResvd resvd = resvd
  · simp only [hc, if_true]
    rfl
  · simp only [hc, if_false]
    rfl

/-- What a release loop that makes `r` rounds leaves, `resvd` being the number of slots that the
user wants to keep: the count of pending slots is whatever its 32 bits hold. -/
structure Arrived (N o : ℕ) (m : DpaModule) (r resvd : ℕ) (s s' : RxQueue) : Prop where
  hwavail : s'.kring.nrHwavail = if r = 0 then s.kring.nrHwavail else s32 (s.kring.nrHwavail - r)
  hwcur : s'.kring.nrHwcur = pos N s.kring.nrHwcur r
  slots : s'.kring.nkrNumSlots = s.kring.nkrNumSlots
  hwofs : s'.kring.nkrHwofs = s.kring.nkrHwofs
  slot : s'.ring.slot = s.ring.slot
  numSlots : s'.ring.numSlots = s.ring.numSlots
  cur : s'.ring.cur = s.ring.cur
  avail : s'.ring.avail = u32 (s'.kring.nrHwavail - s.checkedResvd resvd)
  reserved : s'.ring.reserved = if s.checkedResvd resvd = resvd then s.ring.reserved else 0
  clean : s'.nic.nextToClean = s.nic.nextToClean
  desc : s'.nic.desc = (releaseAt N o m s r).desc
  count : s'.nic.count = s.nic.count
  head : s'.nic.head = s.nic.head
  tail : s'.nic.tail = if r = 0 then s.nic.tail else pos N (nicCur N o s) (r + (N - 1))
  given : s'.nic.given = s.nic.given ++ (List.range r).map (pos N s.kring.nrHwcur)
  numRxDescs : s'.numRxDescs = s.numRxDescs

theorem Arrived.indexed (hr : Arrived N o m i r s s') (hs : Indexed N o s) : Indexed N o s' where
  nonempty := hs.nonempty
  bound := hs.bound
  slots := hr.slots.trans hs.slots
  ofs_lt := hs.ofs_lt
  hwofs := hr.hwofs.trans hs.hwofs
  clean_lt := by
    rw [hr.clean]
    exact hs.clean_lt
  hwcur_lt := by
    rw [hr.hwcur]
    exact pos_lt hs.nonempty

theorem Indexed.arrived (hs : Indexed N o s) {u resvd : ℕ} (hr : r < N)
    (hlast : s.releaseEnd u (s.checkedResvd resvd) = pos N s.kring.nrHwcur r)
    (hg : ∀ j < r, GoodAt N m s j) :
    ∃ s', s.releaseAndReport m u resvd = some (0, s') ∧ Arrived N o m r resvd s s' := by
  have hc := hs.hwcur_lt
  have hb := hs.bound
  have hdrop : (dropReserved s resvd).kring = s.kring ∧ (dropReserved s resvd).nic = s.nic ∧
      (dropReserved s resvd).numRxDescs = s.numRxDescs ∧
      (dropReserved s resvd).ring.slot = s.ring.slot ∧
      (dropReserved s resvd).ring.numSlots = s.ring.numSlots ∧
      (dropReserved s resvd).ring.cur = s.ring.cur ∧
      (dropReserved s resvd).ring.reserved =
        if s.checkedResvd resvd = resvd then s.ring.reserved else 0 := by
    unfold dropReserved
    split_ifs
    · exact ⟨rfl, rfl, rfl, rfl, rfl, rfl, rfl⟩
    · exact ⟨rfl, rfl, rfl, rfl, rfl, rfl, rfl⟩
  obtain ⟨hkr, hnic, hdescs, hslot, hnum, hcur, hres⟩ := hdrop
  rw [releaseAndReport_eq, hlast]
  by_cases h0 : r = 0
  · subst h0
    rw [if_pos (pos_zero hc).symm]
    refine ⟨_, rfl, ?_⟩
    simp only [reportAvail]
    refine ⟨?_, ?_, ?_, ?_, hslot, hnum, hcur, rfl, hres, ?_, ?_, ?_, ?_, ?_, ?_, hdescs⟩
    · simp [hkr]
    · simp [hkr, pos_zero hc]
    · simp [hkr]
    · simp [hkr]
    · simp [hnic]
    · simp [hnic, releaseAt]
    · simp [hnic]
    · simp [hnic]
    · simp [hnic]
    · simp [hnic]
  · have hne : s.kring.nrHwcur ≠ pos N s.kring.nrHwcur r := by
      intro heq
      rw [← pos_zero hc, pos_pos, Nat.zero_add] at heq
      exact h0 (pos_injective hs.nonempty hr heq).symm
    have hrun := hs.release_run hr hg
    rw [if_neg hne, hs.slots, hrun]
    refine ⟨_, rfl, ?_⟩
    have htail := prev_pos hb (pos_lt (a := nicCur N o s) (i := r) hs.nonempty)
    rw [pos_pos] at htail
    simp only [reportAvail, RxQueue.endRelease]
    refine ⟨?_, rfl, ?_, ?_, hslot, hnum, hcur, rfl, hres, ?_, rfl, ?_, ?_, ?_, rfl, hdescs⟩
    · rw [hkr, if_neg h0]
      rfl
    · rw [hkr]
    · rw [hkr]
    · rw [hnic]
    · rw [hnic]
    · rw [hnic]
    · have hns : u32 (s.kring.nkrNumSlots - 1) = N - 1 := hs.numSlots
      rw [if_neg h0, ← htail]
      simp only [RxQueue.numSlots, hkr, hns, releaseAt]

theorem Arrived.released (ha : Arrived N o m r i s s') (hlo : -2 ^ 31 ≤ s.kring.nrHwavail - r)
    (hhi : s.kring.nrHwavail < 2 ^ 31) : Released N o m r i s s' := by
  obtain ⟨hcount, hcur, hslots, hofs, hslot, hnum, hucur, havail, hres, hclean, hdesc, hnic, hhead,
    htail, hgiven, hdescs⟩ := ha
  have hleft : s'.kring.nrHwavail = s.kring.nrHwavail - r := by
    rw [hcount, s32_of_mem hlo (by omega)]
    split_ifs <;> omega
  rw [hleft] at havail
  exact ⟨hleft, hcur, hslots, hofs, hslot, hnum, hucur, havail, hres, hclean, hdesc, hnic, hhead,
    htail, hgiven, hdescs⟩

theorem Indexed.released (hs : Indexed N o s) {u resvd : ℕ} (hr : r < N)
    (hlast : s.releaseEnd u (s.checkedResvd resvd) = pos N s.kring.nrHwcur r)
    (hg : ∀ j < r, GoodAt N m s j) (hlo : -2 ^ 31 ≤ s.kring.nrHwavail - r)
    (hhi : s.kring.nrHwavail < 2 ^ 31) :
    ∃ s', s.releaseAndReport m u resvd = some (0, s') ∧ Released N o m r resvd s s' := by
  obtain ⟨s', heq, ha⟩ := hs.arrived hr hlast hg
  exact ⟨s', heq, ha.released hlo hhi⟩

theorem Indexed.rxSyncBody (hs : Indexed N o s) {u : ℕ} (hu : u < N) (hh : h < N)
    (hd : ∀ j < h, DoneAt N bits s j) (hn : ¬DoneAt N bits s h) (doLock : Bool) (resvd : ℕ) :
    s.rxSyncBody bits m true doLock u resvd =
      (s.endHarvest (harvestAt N o bits m s h)).releaseAndReport m u resvd := by
  have hlt : ¬u > s.numSlots := by
    rw [hs.numSlots]
    omega
  have hrun := hs.harvest_run (m := m) hh hd hn
  unfold RxQueue.rxSyncBody
  have hpend : dpaPendIntr = 0 := rfl
  simp only [Bool.not_true, Bool.false_eq_true, if_false, hlt, hpend, true_or, if_true]
  rw [RxQueue.afterHarvest, hs.slots, hrun]
  rfl

end Dpa.Driver
