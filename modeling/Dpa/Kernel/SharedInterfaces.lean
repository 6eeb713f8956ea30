import Dpa.Kernel.Registration
import Dpa.Kernel.SharedObjects

namespace Dpa.Kernel

open Function Library MachineWord PoolMemory

section

variable {ι : Type} [DecidableEq ι] [Fintype ι] {pools : PoolId → DpaObjPool} {bufSize : ℕ}
  (hp : SoundPools pools bufSize) {l : Share} {t : ι} {i m n ndesc : ℕ} {slot : ℕ → DpaSlot}
  {rx : ℕ → RxRing} {b : Bool}

omit [DecidableEq ι] [Fintype ι] in
theorem range_of_spare {p : PoolId} {G : PoolId → List ℕ} (h : FreeObjs (l.spare pools) G) :
    ∀ x ∈ G p, 2 ≤ x ∧ x < (pools p).objTotal :=
  fun x hx ↦ (Share.mem_spare.1 ((h p).2 x hx)).1

theorem shares_release (hl : l.stage = .rest b)
    (hheld : FreeObjs (l.spare pools) (only .bufPool (idxsFrom slot 0 i))) :
    Shares pools t (fun _ l' ↦ l' = l)
      (Program.forEach (fun j ↦ dpaObjFree (pools .bufPool) .bufPool (slot j).bufIdx)
        (List.range i).reverse) (l.gain (only .bufPool (idxsFrom slot 0 i))) := by
  have hperm := idxs_perm slot i
  refine Program.Keeps.mono (shares_releases (p := .bufPool) (g := fun j ↦ [(slot j).bufIdx])
    (fun j hj l hl hmay ↦ ?_) hl ?_) ?_
  · refine shares_free hl (range_of_spare (p := .bufPool) hheld _ ?_).2 hmay
    rw [only_self]
    exact hperm.subset (List.mem_flatMap.2 ⟨j, hj, List.mem_singleton.2 rfl⟩)
  · refine .inr ⟨hperm.nodup_iff.2 hheld.of_only.1, fun x hx ↦ ?_⟩
    rw [Share.gain]
    dsimp only
    rw [only_self, Finset.mem_union, List.mem_toFinset]
    exact .inr (hperm.subset hx)
  · rintro _ l' rfl
    exact Share.lose_gain hheld (only_perm hperm)

include hp in
theorem shares_newBufsLoop (slot : ℕ → DpaSlot) (hl : l.stage = .rest true)
    (hheld : FreeObjs (l.spare pools) (only .bufPool (idxsFrom slot 0 i))) :
    Shares pools t (fun r l' ↦ r.1 = false ∧ l' = l ∨ r.1 = true ∧
        FreeObjs (l.spare pools) (only .bufPool (idxsFrom r.2 0 (i + m))) ∧
        l' = l.gain (only .bufPool (idxsFrom r.2 0 (i + m))))
      (newBufsLoop pools bufSize n m i slot) (l.gain (only .bufPool (idxsFrom slot 0 i))) := by
  induction m generalizing i slot with
  | zero => exact .inr ⟨rfl, hheld, rfl⟩
  | succ m ih =>
    rw [newBufsLoop]
    refine Program.Keeps.bind (shares_malloc (hp.sound .bufPool) bufSize hl) ?_
    rintro vaddr l' (⟨rfl, rfl⟩ | ⟨x, hx, hfree, rfl⟩)
    · rw [if_pos rfl]
      refine (shares_release hl hheld).bind ?_
      rintro _ l' rfl
      exact .inl ⟨rfl, rfl⟩
    · obtain ⟨-, hlt, rfl⟩ := hx
      rw [if_neg ((hp.sound .bufPool).vaddr_ne hlt), dpaBufIndex_vaddr hp hlt, Share.gain_gain,
        only_append]
      rw [Share.spare_gain] at hfree
      have hheld' := hheld.append hfree
      rw [only_append] at hheld'
      have hidx := idxsFrom_update slot i
        { slot i with bufIdx := x, len := u16 (pools .bufPool).objSize }
      rw [← hidx] at hheld' ⊢
      have hrest := ih _ hheld'
      rwa [Nat.add_right_comm, Nat.add_assoc] at hrest

include hp in
theorem shares_newRing {Q : Option ℕ × (ℕ → RxRing) → Share → Prop} (hl : l.stage = .rest true)
    (hok : ∀ new, Filled pools bufSize ndesc new → FreeObjs (l.spare pools) (ringGrant pools new) →
      Shares pools t Q (newRingsLoop pools bufSize ndesc m (i + 1) (update rx i new))
        (l.gain (ringGrant pools new)))
    (hstop : ∀ new, Pointer pools new →
      FreeObjs (l.spare pools) (only .ringPool (ringObj pools new)) →
      Q (some i, update rx i new) (l.gain (only .ringPool (ringObj pools new)))) :
    Shares pools t Q (newRingsLoop pools bufSize ndesc (m + 1) i rx) l := by
  rw [newRingsLoop]
  refine Program.Keeps.bind (shares_malloc (hp.sound .ringPool) _ hl) ?_
  rintro va l' (⟨rfl, rfl⟩ | ⟨x, hx, hfree, rfl⟩)
  · rw [if_pos rfl]
    have hnew := hstop { rx i with ringVa := 0, kring := zeroKring } (.inl rfl)
    rw [ringObj, if_pos rfl, only_nil, Share.gain_nil] at hnew
    exact hnew .nil
  · have hne : va ≠ 0 := by
      rw [hx.2.2]
      exact (hp.sound .ringPool).vaddr_ne hx.2.1
    rw [if_neg hne]
    let base := newRing pools bufSize va ndesc
    have hnil : only .bufPool (idxsFrom base.ring.slot 0 0) = fun _ ↦ [] := by
      rw [idxsFrom, List.range'_zero, List.map_nil, only_nil]
    have hbufs := shares_newBufsLoop (t := t) (i := 0) (m := ndesc) (n := ndesc)
      (l := l.gain (only .ringPool [x])) hp base.ring.slot hl (by rw [hnil]; exact .nil)
    rw [hnil, Share.gain_nil] at hbufs
    refine Program.Keeps.bind hbufs ?_
    rintro ⟨ok, slot⟩ l' hgot
    let new : RxRing := { base with ring := { base.ring with slot := slot } }
    have hnew : IsObject (pools .ringPool) new.ringVa x := hx
    have hobj := ringObj_eq hp hnew
    rcases hgot with ⟨rfl, rfl⟩ | ⟨rfl, hbuf, rfl⟩
    · have hend := hstop new (.inr ⟨x, hnew⟩)
      rw [hobj] at hend
      exact hend hfree
    · have hgrant : (fun p ↦ only .ringPool [x] p ++ only .bufPool (idxsFrom slot 0 ndesc) p) =
          ringGrant pools new := by
        funext p
        cases p with
        | ifPool => rfl
        | ringPool => exact hobj.symm
        | bufPool =>
          change idxsFrom slot 0 ndesc = _
          rw [idxsFrom, ← List.range_eq_range']
          rfl
      rw [Nat.zero_add, Share.spare_gain] at hbuf
      have hrest := hok new ⟨x, slot, hnew, rfl⟩
      rw [← hgrant] at hrest
      rw [Nat.zero_add, Share.gain_gain]
      exact hrest (hfree.append hbuf)

/-- What the ring loop gains: the rings before `i + g`, and then it has come to its end, or one more
that it could not fill. -/
structure RingsGained (pools : PoolId → DpaObjPool) (bufSize ndesc : ℕ) (l : Share) (i m : ℕ)
    (rx : ℕ → RxRing) (failed : Option ℕ) (rx' : ℕ → RxRing) (l' : Share) (g : ℕ)
    (G : PoolId → List ℕ) : Prop where
  last : failed = none ∧ g = m ∧ G = ringGrants pools rx' (List.range' i g) ∨
    failed = some (i + g) ∧ g < m ∧ Pointer pools (rx' (i + g)) ∧
      G = fun p ↦ ringGrants pools rx' (List.range' i g) p ++
        only .ringPool (ringObj pools (rx' (i + g))) p
  filled : ∀ j, i ≤ j → j < i + g → Filled pools bufSize ndesc (rx' j)
  keep : ∀ j, j < i ∨ i + g < j → rx' j = rx j
  free : FreeObjs (l.spare pools) G
  gain : l' = l.gain G

include hp in
theorem shares_newRingsLoop (rx : ℕ → RxRing) (hl : l.stage = .rest true) :
    Shares pools t (fun r l' ↦ ∃ g G, RingsGained pools bufSize ndesc l i m rx r.1 r.2 l' g G)
      (newRingsLoop pools bufSize ndesc m i rx) l := by
  induction m generalizing i rx l with
  | zero =>
    refine ⟨0, fun _ ↦ [], .inl ⟨rfl, rfl, rfl⟩, fun j _ _ ↦ by omega, fun j _ ↦ rfl, .nil, ?_⟩
    rw [Share.gain_nil]
  | succ m ih =>
    refine shares_newRing hp hl (fun new hnew hfree ↦ ?_) fun new hptr hfree ↦ ?_
    · refine (ih (l := l.gain (ringGrant pools new)) (update rx i new) hl).mono ?_
      rintro ⟨failed, rx'⟩ l' ⟨g, G, h⟩
      dsimp only at h ⊢
      have hi : rx' i = new := by rw [h.keep i (.inl (Nat.lt_succ_self i)), update_self]
      have hadd : i + 1 + g = i + (g + 1) := by omega
      have hrest := h.free
      rw [Share.spare_gain] at hrest
      refine ⟨g + 1, fun p ↦ ringGrant pools new p ++ G p, ?_, fun j hj hj' ↦ ?_, fun j hj ↦ ?_,
        hfree.append hrest, ?_⟩
      · rcases h.last with ⟨hnone, rfl, rfl⟩ | ⟨hsome, hg, hptr, rfl⟩
        · refine .inl ⟨hnone, rfl, ?_⟩
          rw [← hi, ringGrants_cons, List.range'_succ]
        · rw [hadd] at hsome hptr
          refine .inr ⟨hsome, by omega, hptr, ?_⟩
          funext p
          rw [← hi, ← List.append_assoc, List.range'_succ, ← ringGrants_cons, hadd]
      · rcases hj.eq_or_lt with rfl | hlt
        · rwa [hi]
        · exact h.filled j hlt (by omega)
      · rw [h.keep j (by omega), update_of_ne (by omega)]
      · rw [h.gain, Share.gain_gain]
    · dsimp only
      refine ⟨0, only .ringPool (ringObj pools new), .inr ⟨rfl, Nat.succ_pos m, ?_, ?_⟩,
        fun j _ _ ↦ by omega, fun j hj ↦ update_of_ne (by omega) _ _, hfree, rfl⟩
      · rwa [Nat.add_zero, update_self]
      · funext p
        rw [Nat.add_zero, update_self]
        rfl

theorem shares_freeSlots (new : RxRing) (hl : l.stage = .rest b)
    (hvalid : ∀ x ∈ slotIdxs new, 2 ≤ x ∧ x < (pools .bufPool).objTotal)
    (hmay : l.May .bufPool (slotIdxs new)) :
    Shares pools t (fun _ l' ↦ l' = l.lose (only .bufPool (slotIdxs new))) (freeSlots pools new)
      l := by
  rw [slotIdxs, List.map_eq_flatMap] at hmay ⊢
  refine shares_releases (fun j hj l hl hmay ↦ ?_) hl hmay
  obtain ⟨hlow, hlt⟩ := hvalid _ (List.mem_map.2 ⟨j, hj, rfl⟩)
  rw [dpaFreeBuf, if_neg (by omega)]
  exact shares_free hl hlt hmay

theorem shares_freeSlots_all {js : List ℕ} (hl : l.stage = .rest b)
    (hvalid : ∀ j ∈ js, ∀ x ∈ slotIdxs (rx j), 2 ≤ x ∧ x < (pools .bufPool).objTotal)
    (hmay : l.May .bufPool (js.flatMap fun j ↦ slotIdxs (rx j))) :
    Shares pools t (fun _ l' ↦ l' = l.lose (only .bufPool (js.flatMap fun j ↦ slotIdxs (rx j))))
      (Program.forEach (fun j ↦ freeSlots pools (rx j)) js) l :=
  shares_releases (fun j hj _ hl hmay ↦ shares_freeSlots (rx j) hl (hvalid j hj) hmay) hl hmay

theorem shares_freeVa {p : PoolId} (hsound : (pools p).Sound) (hmapped : (pools p).Mapped)
    {va x : ℕ} (hx : IsObject (pools p) va x) (hl : l.stage = .rest b) (hmay : l.May p [x]) :
    Shares pools t (fun _ l' ↦ l' = l.lose (only p [x])) (dpaObjFreeVa (pools p) p va) l := by
  obtain ⟨-, hlt, rfl⟩ := hx
  rw [dpaObjFreeVa, vaIndex_vaddr hsound hmapped hlt]
  exact shares_free hl hlt hmay

include hp in
theorem shares_dpaFreeRings {nrx : ℕ} (hptr : ∀ j < nrx, Pointer pools (rx j))
    (hl : l.stage = .rest b)
    (hmay : l.May .ringPool ((List.range nrx).flatMap fun j ↦ ringObj pools (rx j))) :
    Shares pools t
      (fun _ l' ↦ l' = l.lose
        (only .ringPool ((List.range nrx).flatMap fun j ↦ ringObj pools (rx j))))
      (dpaFreeRings pools nrx rx) l := by
  refine shares_releases (fun j hj l hl hmay ↦ ?_) hl hmay
  rcases hptr j (List.mem_range.1 hj) with hnull | ⟨x, hx⟩
  · rw [if_pos hnull, ringObj, if_pos hnull, only_nil, Share.lose_nil]
    rfl
  · have hne : (rx j).ringVa ≠ 0 := by
      rw [hx.2.2]
      exact (hp.sound .ringPool).vaddr_ne hx.2.1
    rw [ringObj_eq hp hx] at hmay ⊢
    rw [if_neg hne]
    exact shares_freeVa (hp.sound .ringPool) hp.ringMapped hx hl hmay

include hp in
/-- The cleanup of a registration that found its interface unused and could not have all rings. -/
theorem shares_undo {α : Type} {Q : α → Share → Prop} {f : PoolProgram α}
    (hl : l.stage = .rest true) (hdifs : l.reg.difs = []) (howned : ∀ p, l.owned p = ∅) {va x : ℕ}
    (hx : IsObject (pools .ifPool) va x) {g nrx : ℕ} (hg : g < nrx)
    (hptr : ∀ j < nrx, Pointer pools (rx j))
    (hfree : FreeObjs (l.spare pools) fun p ↦ only .ifPool [x] p ++
      (ringGrants pools rx (List.range g) p ++ only .ringPool (ringObj pools (rx g)) p))
    (hf : Shares pools t Q f l) :
    Shares pools t Q
      (Program.forEach (fun j ↦ freeSlots pools (rx j)) (List.range g).reverse >>= fun _ ↦
        dpaFreeRings pools nrx rx >>= fun _ ↦ dpaIfFree pools va >>= fun _ ↦ f)
      (l.gain fun p ↦ only .ifPool [x] p ++
        (ringGrants pools rx (List.range g) p ++ only .ringPool (ringObj pools (rx g)) p)) := by
  have hbufs := hfree .bufPool
  have hperm : ((List.range g).reverse.flatMap fun j ↦ slotIdxs (rx j)).Perm
      ((List.range g).flatMap fun j ↦ slotIdxs (rx j)) := (List.reverse_perm _).flatMap_right _
  simp only [only_of_ne, ne_eq, reduceCtorEq, not_false_eq_true, List.nil_append, List.append_nil,
    ringGrants_bufPool] at hbufs
  refine Program.Keeps.bind (shares_freeSlots_all hl (fun j hj y hy ↦ ?_) ?_) ?_
  · have hmem := hperm.subset (List.mem_flatMap.2 ⟨j, hj, hy⟩)
    exact (Share.mem_spare.1 (hbufs.2 y hmem)).1
  · refine .inr ⟨hperm.nodup_iff.2 hbufs.1, fun y hy ↦ ?_⟩
    have hmem := hperm.subset hy
    simpa [Share.gain, only_of_ne] using Or.inr hmem
  rintro _ l' rfl
  refine Program.Keeps.bind (shares_dpaFreeRings hp hptr hl (.inl ⟨rfl, hdifs⟩)) ?_
  rintro _ l' rfl
  refine Program.Keeps.bind (shares_freeVa (hp.sound .ifPool) hp.ifMapped hx hl ?_) ?_
  · refine .inr ⟨List.nodup_singleton x, fun y hy ↦ ?_⟩
    obtain rfl := List.mem_singleton.1 hy
    simp [Share.gain, Share.lose, only_of_ne]
  rintro _ l' rfl
  rw [Share.lose_lose, Share.lose_lose, Share.lose_gain_of_empty howned]
  · exact hf
  · intro p
    cases p with
    | ifPool => simp [only_of_ne]
    | bufPool =>
      simp only [only_self, only_of_ne, ne_eq, reduceCtorEq, not_false_eq_true, List.nil_append,
        List.append_nil, ringGrants_bufPool]
      exact hperm.symm.subset
    | ringPool =>
      simp only [only_self, only_of_ne, ne_eq, reduceCtorEq, not_false_eq_true, List.nil_append,
        List.append_nil, ringGrants_ringPool]
      rw [range_split hg, List.flatMap_append, List.flatMap_cons, ← List.append_assoc]
      exact List.subset_append_left _ _

inductive Share.NewIf (pools : PoolId → DpaObjPool) (bufSize : ℕ) (dadp : DpaAdapter) (l : Share) :
    Option DpaIf × DpaAdapter → Share → Prop
  | failed (dadp' : DpaAdapter) (hrefs : dadp'.refs = dadp.refs)
      (hptr : ∀ j < dadp'.numRxRings, Pointer pools (dadp'.rxRings j))
      (hkeep : 0 < dadp.refs → dadp' = dadp) : Share.NewIf pools bufSize dadp l (none, dadp') l
  | again (dif : DpaIf) (x : ℕ) (hrefs : 0 < dadp.refs) (hdif : IsObject (pools .ifPool) dif.va x)
      (hfree : FreeObjs (l.spare pools) (only .ifPool [x])) :
      Share.NewIf pools bufSize dadp l (some dif, { dadp with refs := dadp.refs + 1 })
        (l.gain (only .ifPool [x]))
  | first (dif : DpaIf) (x : ℕ) (rx : ℕ → RxRing) (hrefs : ¬0 < dadp.refs)
      (hdif : IsObject (pools .ifPool) dif.va x)
      (hfilled : ∀ j < dadp.numRxRings, Filled pools bufSize dadp.numRxDescs (rx j))
      (hfree : FreeObjs (l.spare pools) fun p ↦
        only .ifPool [x] p ++ ringGrants pools rx (List.range dadp.numRxRings) p) :
      Share.NewIf pools bufSize dadp l (some dif, { dadp with refs := dadp.refs + 1, rxRings := rx })
        (l.gain fun p ↦ only .ifPool [x] p ++
          ringGrants pools rx (List.range dadp.numRxRings) p)

include hp in
theorem shares_dpaNewIf {dadp : DpaAdapter} (hl : l.stage = .rest false)
    (hptr : ∀ j < dadp.numRxRings, Pointer pools (dadp.rxRings j))
    (hidle : ¬0 < dadp.refs → l.reg.difs = [] ∧ ∀ p, l.owned p = ∅) :
    Shares pools t (Share.NewIf pools bufSize dadp l) (dpaNewIf pools bufSize dadp) l := by
  have hback : ∀ G, ((l.goto (.rest true)).gain G).goto (.rest false) = l.gain G := by
    intro G
    rw [← hl]
    rfl
  have hgoto : (l.goto (.rest true)).goto (.rest false) = l := by
    have hnil := hback fun _ ↦ []
    rwa [Share.gain_nil, Share.gain_nil] at hnil
  rw [dpaNewIf]
  refine Program.Keeps.bind (shares_lock hl) ?_
  rintro _ l' rfl
  refine Program.Keeps.bind (shares_malloc (hp.sound .ifPool) _ rfl) ?_
  rintro va l' (⟨rfl, rfl⟩ | ⟨x, hx, hfree, rfl⟩)
  · rw [if_pos rfl]
    refine Program.Keeps.bind (shares_unlock rfl) ?_
    rintro _ l' rfl
    rw [hgoto]
    exact .failed dadp rfl hptr fun _ ↦ rfl
  have hne : va ≠ 0 := by
    rw [hx.2.2]
    exact (hp.sound .ifPool).vaddr_ne hx.2.1
  rw [if_neg hne]
  by_cases hrefs : dadp.refs > 0
  · rw [if_pos hrefs]
    refine Program.Keeps.bind (shares_unlock rfl) ?_
    rintro _ l' rfl
    rw [hback]
    exact .again _ x hrefs hx hfree
  · rw [if_neg hrefs]
    obtain ⟨hdifs, howned⟩ := hidle hrefs
    refine Program.Keeps.bind (shares_newRingsLoop hp dadp.rxRings rfl) ?_
    rintro ⟨failed, rx⟩ l' ⟨g, G, h⟩
    dsimp only at h ⊢
    have hall := hfree.append (Share.spare_gain (l := l.goto (.rest true)) pools ▸ h.free)
    rw [h.gain, Share.gain_gain]
    rcases h.last with ⟨rfl, rfl, rfl⟩ | ⟨rfl, hg, hptrg, rfl⟩
    · rw [← List.range_eq_range'] at hall ⊢
      refine Program.Keeps.bind (shares_unlock rfl) ?_
      rintro _ l' rfl
      rw [hback]
      exact .first _ x rx hrefs hx (fun j hj ↦ h.filled j (Nat.zero_le j) (by omega)) hall
    · have hkeep := h.keep
      rw [Nat.zero_add] at hall hptrg hkeep ⊢
      rw [← List.range_eq_range'] at hall ⊢
      have hptr' : ∀ j < dadp.numRxRings, Pointer pools (rx j) := by
        intro j hj
        rcases lt_trichotomy j g with hlt | rfl | hlt
        · exact (h.filled j (Nat.zero_le j) (by omega)).pointer
        · exact hptrg
        · rw [hkeep j (.inr hlt)]
          exact hptr j hj
      refine shares_undo (l := l.goto (.rest true)) hp rfl hdifs howned hx hg hptr' hall ?_
      refine Program.Keeps.bind (shares_unlock rfl) ?_
      rintro _ l' rfl
      rw [hgoto]
      exact .failed { dadp with rxRings := rx } rfl hptr' fun hpos ↦ absurd hpos hrefs

include hp in
theorem shares_freeAll (dadp : DpaAdapter) (hl : l.stage = .rest false)
    (hptr : ∀ j < dadp.numRxRings, Pointer pools (dadp.rxRings j))
    (hheld : FreeObjs l.owned (ringGrants pools dadp.rxRings (List.range dadp.numRxRings)))
    (hvalid : ∀ y ∈ l.owned .bufPool, 2 ≤ y ∧ y < (pools .bufPool).objTotal) :
    Shares pools t
      (fun _ l' ↦ l' = l.lose (ringGrants pools dadp.rxRings (List.range dadp.numRxRings)))
      (freeAll pools dadp) l := by
  have hring := hheld .ringPool
  have hbuf := hheld .bufPool
  rw [freeAll]
  refine Program.Keeps.bind (shares_lock hl) ?_
  rintro _ l' rfl
  refine Program.Keeps.bind (shares_freeSlots_all (l := l.goto (.rest true)) rfl
    (fun j hj y hy ↦ hvalid y (hbuf.2 y (List.mem_flatMap.2 ⟨j, hj, hy⟩))) (.inr hbuf)) ?_
  rintro _ l' rfl
  refine Program.Keeps.bind (shares_unlock rfl) ?_
  rintro _ l' rfl
  refine (shares_dpaFreeRings hp hptr rfl ?_).mono ?_
  · refine .inr ⟨hring.1, fun y hy ↦ ?_⟩
    simpa [Share.goto, Share.lose, only_of_ne] using hring.2 y hy
  · rintro _ l' rfl
    have hback : ((l.goto (.rest true)).lose (only .bufPool ((List.range dadp.numRxRings).flatMap
        fun j ↦ slotIdxs (dadp.rxRings j)))).goto (.rest false) =
        l.lose (only .bufPool ((List.range dadp.numRxRings).flatMap fun j ↦
          slotIdxs (dadp.rxRings j))) := by
      rw [← hl]
      rfl
    rw [hback, Share.lose_lose]
    refine Share.lose_perm fun p ↦ ?_
    cases p with
    | ifPool => simp [only_of_ne]
    | ringPool => simp [only_of_ne]
    | bufPool => simp [only_of_ne]

include hp in
theorem shares_destructor_last (dadp : DpaAdapter) (hl : l.stage = .rest false)
    (hrefs : dadp.refs ≤ 1) (hptr : ∀ j < dadp.numRxRings, Pointer pools (dadp.rxRings j))
    {va x : ℕ} (hx : IsObject (pools .ifPool) va x)
    (hheld : FreeObjs l.owned fun p ↦
      only .ifPool [x] p ++ ringGrants pools dadp.rxRings (List.range dadp.numRxRings) p)
    (hvalid : ∀ y ∈ l.owned .bufPool, 2 ≤ y ∧ y < (pools .bufPool).objTotal) :
    Shares pools t (fun dadp' l' ↦ dadp' = { dadp with refs := dadp.refs - 1 } ∧
        l' = l.lose fun p ↦ only .ifPool [x] p ++
          ringGrants pools dadp.rxRings (List.range dadp.numRxRings) p)
      (dpaDestructorLocked pools dadp va) l := by
  have hle : dadp.refs - 1 ≤ 0 := by omega
  have hall : Shares pools t
      (fun _ l' ↦ l' = l.lose (ringGrants pools dadp.rxRings (List.range dadp.numRxRings)))
      (freeAll pools { dadp with refs := dadp.refs - 1 }) l :=
    shares_freeAll hp _ hl hptr hheld.right hvalid
  have hlast : Shares pools t
      (fun _ l' ↦ l' = l.lose fun p ↦ only .ifPool [x] p ++
        ringGrants pools dadp.rxRings (List.range dadp.numRxRings) p)
      (destroyLast pools { dadp with refs := dadp.refs - 1 } va) l := by
    refine Program.Keeps.bind hall ?_
    rintro _ l' rfl
    refine Program.Keeps.mono (shares_freeVa (hp.sound .ifPool) hp.ifMapped hx hl ?_) ?_
    · refine .inr ⟨List.nodup_singleton x, fun y hy ↦ ?_⟩
      have hy' : y ∈ l.owned .ifPool := (hheld .ifPool).2 y (by simpa using hy)
      simpa [Share.lose] using hy'
    · rintro _ l' rfl
      rw [Share.lose_lose]
      exact Share.lose_perm fun p ↦ List.perm_append_comm
  rw [dpaDestructorLocked, DpaAdapter.dropRef, if_pos hle]
  exact Program.Keeps.bind hlast fun _ l' hl' ↦ ⟨rfl, hl'⟩

include hp in
theorem shares_destructor_more {dadp : DpaAdapter} (hl : l.stage = .rest b)
    (hrefs : 1 < dadp.refs) {va x : ℕ} (hx : IsObject (pools .ifPool) va x)
    (hheld : x ∈ l.owned .ifPool) :
    Shares pools t (fun dadp' l' ↦ dadp' = { dadp with refs := dadp.refs - 1 } ∧
        l' = l.lose (only .ifPool [x])) (dpaDestructorLocked pools dadp va) l := by
  have hle : ¬dadp.refs - 1 ≤ 0 := by omega
  rw [dpaDestructorLocked, DpaAdapter.dropRef, if_neg hle]
  refine Program.Keeps.bind (shares_freeVa (hp.sound .ifPool) hp.ifMapped hx hl ?_) ?_
  · exact .inr ⟨List.nodup_singleton x, fun y hy ↦ List.mem_singleton.1 hy ▸ hheld⟩
  · rintro _ l' rfl
    exact ⟨rfl, rfl⟩

end

end Dpa.Kernel
