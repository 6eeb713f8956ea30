import Dpa.Kernel.SharedAlone
import Dpa.Kernel.SharedInterfaces

namespace Dpa.Kernel

open Function Library MachineWord Bitmap PoolMemory

structure Share.Idle (pools : PoolId → DpaObjPool) (bufSize : ℕ) (l : Share) : Prop where
  rest : l.stage = .rest false
  ready : l.reg.Ready pools bufSize
  free : FreeObjs (fun p ↦ Finset.Ico 2 (pools p).objTotal) (holding pools l.reg)
  owned : ∀ p, l.owned p = (holding pools l.reg p).toFinset

namespace Share.Idle

variable {pools : PoolId → DpaObjPool} {bufSize : ℕ} {l : Share} {G : PoolId → List ℕ} {r : Registry}

theorem same (h : l.Idle pools bufSize) (hready : r.Ready pools bufSize)
    (hholding : ∀ p, holding pools r p = holding pools l.reg p) :
    Share.Idle pools bufSize { l with reg := r } where
  rest := h.rest
  ready := hready
  free p := by
    rw [hholding]
    exact h.free p
  owned p := by
    rw [hholding]
    exact h.owned p

theorem gain (h : l.Idle pools bufSize) (hready : r.Ready pools bufSize)
    (hfree : FreeObjs (l.spare pools) G)
    (hperm : ∀ p, (holding pools l.reg p ++ G p).Perm (holding pools r p)) :
    Share.Idle pools bufSize { l.gain G with reg := r } where
  rest := h.rest
  ready := hready
  free p := by
    have hspare : l.spare pools =
        fun p ↦ Finset.Ico 2 (pools p).objTotal \ (holding pools l.reg p).toFinset := by
      funext p
      rw [Share.spare, h.owned]
    rw [hspare] at hfree
    have hall := h.free.append hfree p
    exact ⟨(hperm p).nodup_iff.1 hall.1, fun x hx ↦ hall.2 x ((hperm p).mem_iff.2 hx)⟩
  owned p := by
    show l.owned p ∪ (G p).toFinset = _
    rw [h.owned, ← List.toFinset_append]
    exact List.toFinset_eq_of_perm _ _ (hperm p)

theorem lose (h : l.Idle pools bufSize) (hready : r.Ready pools bufSize)
    (hperm : ∀ p, (holding pools l.reg p).Perm (holding pools r p ++ G p)) :
    Share.Idle pools bufSize { l.lose G with reg := r } where
  rest := h.rest
  ready := hready
  free p := by
    obtain ⟨hnodup, hmem⟩ := h.free p
    exact ⟨(List.nodup_append.1 ((hperm p).nodup_iff.1 hnodup)).1, fun x hx ↦
      hmem x ((hperm p).mem_iff.2 (List.mem_append_left _ hx))⟩
  owned p := by
    obtain ⟨-, -, hdisj⟩ := List.nodup_append.1 ((hperm p).nodup_iff.1 (h.free p).1)
    show l.owned p \ (G p).toFinset = _
    ext x
    rw [h.owned, Finset.mem_sdiff, List.mem_toFinset, List.mem_toFinset, List.mem_toFinset,
      (hperm p).mem_iff, List.mem_append]
    constructor
    · rintro ⟨hx | hx, hnot⟩
      · exact hx
      · exact absurd hx hnot
    · exact fun hx ↦ ⟨.inl hx, fun hG ↦ hdisj x hx x hG rfl⟩

theorem held (h : l.Idle pools bufSize) : FreeObjs l.owned (holding pools l.reg) :=
  fun p ↦ ⟨(h.free p).1, fun x hx ↦ by rwa [h.owned, List.mem_toFinset]⟩

theorem valid (h : l.Idle pools bufSize) (p : PoolId) :
    ∀ x ∈ l.owned p, 2 ≤ x ∧ x < (pools p).objTotal := by
  intro x hx
  rw [h.owned, List.mem_toFinset] at hx
  exact Finset.mem_Ico.1 ((h.free p).2 x hx)

end Share.Idle

section

variable {ι : Type} [DecidableEq ι] [Fintype ι] {pools : PoolId → DpaObjPool} {bufSize : ℕ}
  (hp : SoundPools pools bufSize) {l : Share} {t : ι} {k : ℕ}

theorem shares_regEnter {e : Bool} {dadp : DpaAdapter} {P : Option DpaIf × DpaAdapter → Share → Prop}
    (hnew : Shares pools t P (dpaNewIf pools bufSize dadp) l) :
    Shares pools t
      (fun a l' ↦ a = (.full, dadp) ∧ l' = l ∨ ∃ dif, a.1 = .of e dif ∧ P (dif, a.2) l')
      (regEnter pools bufSize e dadp) l := by
  rw [regEnter]
  split_ifs with hfull
  · exact .inl ⟨rfl, rfl⟩
  · exact Program.Keeps.bind hnew fun a l' ha ↦ .inr ⟨a.1, rfl, ha⟩

include hp

theorem shares_dpaRegIf (h : l.Idle pools bufSize) (regOk : Bool) :
    Shares pools t (fun r l' ↦ Share.Idle pools bufSize { l' with reg := r })
      (dpaRegIf pools bufSize regOk l.reg) l := by
  have hready := h.ready
  rw [dpaRegIf]
  have hdifs : ¬0 < l.reg.dadp.refs → l.reg.difs = [] := by
    intro hrefs
    by_contra hdifs
    exact hrefs (hready.refs_pos.2 hdifs)
  have hnew := shares_dpaNewIf (t := t) hp h.rest hready.pointer fun hrefs ↦
    ⟨hdifs hrefs, fun p ↦ by rw [h.owned, holding_nil (hdifs hrefs), List.toFinset_nil]⟩
  refine Program.Keeps.bind (shares_regEnter hnew) ?_
  rintro ⟨point, dadp⟩ l' (⟨heq, rfl⟩ | ⟨dif, hpoint, hgot⟩)
  · cases heq
    exact h
  dsimp only at hpoint hgot
  subst hpoint
  cases hgot with
  | failed dadp hrefs hptr hkeep =>
    obtain ⟨hready', hholding⟩ := hready.failed hrefs hptr hkeep
    exact h.same hready' hholding
  | again dif x hrefs hdif hfree =>
    obtain ⟨hready', hperm⟩ := hready.again hp hrefs hdif
    rw [hready.enabled.2 (hready.refs_pos.1 hrefs)] at hready' hperm ⊢
    exact h.gain hready' hfree hperm
  | first dif x rx hrefs hdif hfilled hfree =>
    have hoff : l.reg.enabled = false := by
      rw [Bool.eq_false_iff]
      exact fun hon ↦ hready.enabled.1 hon (hdifs hrefs)
    have hptr : ∀ j < l.reg.dadp.numRxRings, Pointer pools (rx j) := fun j hj ↦
      (hfilled j hj).pointer
    rw [hoff]
    cases regOk with
    | true =>
      obtain ⟨hready', hperm⟩ := hready.first hp (hdifs hrefs) hdif hfilled
      exact h.gain hready' hfree hperm
    | false =>
      have hzero : l.reg.dadp.refs + 1 ≤ 1 := by omega
      have hlast := shares_destructor_last (t := t) hp
        { l.reg.dadp with refs := l.reg.dadp.refs + 1, rxRings := rx }
        (l := l.gain fun p ↦ only .ifPool [x] p ++
          ringGrants pools rx (List.range l.reg.dadp.numRxRings) p) h.rest hzero hptr hdif
        (Share.freeObjs_gain hfree) (Share.valid_gain (h.valid .bufPool) hfree)
      refine Program.Keeps.bind hlast ?_
      rintro _ l' ⟨rfl, rfl⟩
      rw [Share.lose_gain hfree fun p ↦ List.Perm.refl _]
      refine h.same (hready.undone (hdifs hrefs) hptr) fun p ↦ ?_
      rw [holding_nil (hdifs hrefs), holding_nil]
      exact hdifs hrefs

theorem shares_dpaDestructor (h : l.Idle pools bufSize) :
    Shares pools t (fun r l' ↦ Share.Idle pools bufSize { l' with reg := r })
      (dpaDestructor pools k l.reg) l := by
  have hready := h.ready
  rw [dpaDestructor]
  cases hk : l.reg.difs[k]? with
  | none => exact h
  | some dif =>
    have hdifs : l.reg.difs ≠ [] := List.ne_nil_of_mem (List.mem_of_getElem? hk)
    obtain ⟨x, hx⟩ := hready.difs dif (List.mem_of_getElem? hk)
    dsimp only
    by_cases hlast : l.reg.dadp.refs ≤ 1
    · obtain ⟨hone, hnil⟩ := hready.only_dif hk hlast
      have hzero : l.reg.dadp.refs - 1 ≤ 0 := by omega
      have hholding : holding pools l.reg = fun p ↦ only .ifPool [x] p ++
          ringGrants pools l.reg.dadp.rxRings (List.range l.reg.dadp.numRxRings) p := by
        funext p
        rw [holding_cons hdifs, hone, List.flatMap_singleton, vaIndex_toList hp hx]
      have hdest := shares_destructor_last (t := t) hp _ h.rest hlast hready.pointer hx
        (hholding ▸ h.held) (h.valid .bufPool)
      refine Program.Keeps.bind hdest ?_
      rintro _ l' ⟨rfl, rfl⟩
      dsimp only
      rw [if_pos hzero, hnil]
      refine h.lose (hready.last hone) fun p ↦ ?_
      rw [hholding, holding_nil (r := ⟨_, _, []⟩) rfl, List.nil_append]
    · obtain ⟨hready', hperm⟩ := hready.less hp hk (not_le.1 hlast) hx
      have hpos : ¬l.reg.dadp.refs - 1 ≤ 0 := by omega
      have hheld : x ∈ l.owned .ifPool := by
        refine (h.held .ifPool).2 x ((hperm .ifPool).mem_iff.2 (List.mem_append_right _ ?_))
        simp
      have hdest := shares_destructor_more (t := t) hp h.rest (not_le.1 hlast) hx hheld
      refine Program.Keeps.bind hdest ?_
      rintro _ l' ⟨rfl, rfl⟩
      dsimp only
      rw [if_neg hpos]
      exact h.lose hready' hperm

end

section

variable {ι : Type} [DecidableEq ι] [Fintype ι] {pools : PoolId → DpaObjPool} {bufSize : ℕ}
  {ls : ι → Share} {s : SharedPools ι}

theorem PoolsShared.leave (h : PoolsShared pools ls s) (t : ι) (r : Registry) :
    PoolsShared pools (update ls t { ls t with reg := r })
      { s with interfaces := update s.interfaces t r } := by
  have hself := h.holds t
  refine h.move ⟨update_self .., hself.granted, hself.range, hself.locked, hself.fits⟩
    (fun u hu ↦ ?_) (fun hst u hu ↦ h.unlocked hst hu) (fun p x hx u hu ↦ h.apart_of_ne hx hu)
    (fun p x hx ↦ h.free_iff t hx) fun p ↦ rfl
  have hother := h.holds u
  refine ⟨?_, hother.granted, hother.range, hother.locked, hother.fits⟩
  show update s.interfaces t r u = _
  rw [update_of_ne hu]
  exact hother.reg

theorem sharing_kept (hp : SoundPools pools bufSize) :
    Threads.Kept (sharing pools bufSize : Threads ι RegCall Empty _ _ _ _) (fun _ _ _ ↦ True)
      Undisturbed (PoolsShared pools)
      (fun _ _ r l ↦ Share.Idle pools bufSize { l with reg := r })
      (fun _ l ↦ l.Idle pools bufSize) where
  enter ls s t k p s' hinv hidle _ henter := by
    have hreg := (hinv.holds t).reg
    cases k with
    | register regOk =>
      obtain ⟨rfl, rfl⟩ := Prod.mk.inj (Option.some.inj henter)
      rw [hreg]
      exact ⟨ls t, hinv.same t, shares_dpaRegIf hp hidle regOk⟩
    | unregister k =>
      obtain ⟨rfl, rfl⟩ := Prod.mk.inj (Option.some.inj henter)
      rw [hreg]
      exact ⟨ls t, hinv.same t, shares_dpaDestructor hp hidle⟩
  leave ls s t k r s' hinv hidle hleave := by
    obtain rfl := Option.some.inj hleave
    exact ⟨_, hinv.leave t r, hidle⟩
  outside _ _ e := nomatch e

omit [DecidableEq ι] in
/-- With nobody in a call what is shared is what the interfaces hold. -/
theorem PoolsShared.agree (h : PoolsShared pools ls s) (hidle : ∀ t, (ls t).Idle pools bufSize) :
    PoolsAgree pools s := by
  have howned : ∀ t p, (ls t).owned p = (holding pools (s.interfaces t) p).toFinset := by
    intro t p
    rw [(h.holds t).reg]
    exact (hidle t).owned p
  constructor
  case count =>
    intro p
    have hcount := h.count p
    have hzero : ∀ t ∈ Finset.univ, (ls t).stage.owed p = 0 := fun t _ ↦ by
      rw [(hidle t).rest]
      rfl
    rw [Finset.sum_eq_zero hzero, add_zero] at hcount
    exact_mod_cast hcount
  case owner =>
    intro p x hlow hlt hbit
    obtain ⟨t, ht⟩ : ∃ t, x ∈ (ls t).owned p := by
      by_contra hnone
      rw [(h.free p x hlt).2 ⟨hlow, not_exists.1 hnone⟩] at hbit
      cases hbit
    refine ⟨t, ?_, fun u hu ↦ ?_⟩
    · rwa [howned, List.mem_toFinset] at ht
    · dsimp only at hu
      rw [← List.mem_toFinset, ← howned] at hu
      exact h.apart u t p x hu ht
  case allocated =>
    intro t p
    rw [(h.holds t).reg]
    obtain ⟨hnodup, hmem⟩ := (hidle t).free p
    refine ⟨hnodup, fun x hx ↦ ?_⟩
    have hrange := Finset.mem_Ico.1 (hmem x hx)
    refine ⟨hrange, ?_⟩
    rw [Bool.eq_false_iff]
    intro hbit
    have hnot := ((h.free p x hrange.2).1 hbit).2 t
    rw [(hidle t).owned, List.mem_toFinset] at hnot
    exact hnot hx

def Share.start (d : ℕ × ℕ) : Share := ⟨dpaAttach d.1 d.2, fun _ ↦ ∅, .rest false⟩

omit [DecidableEq ι] [Fintype ι] in
theorem Share.Idle.start (pools : PoolId → DpaObjPool) (bufSize : ℕ) (d : ℕ × ℕ) :
    (Share.start d).Idle pools bufSize where
  rest := rfl
  ready := .attached _ _ _ _
  free _ := by
    rw [Share.start, holding_nil rfl]
    exact ⟨List.nodup_nil, fun _ hx ↦ absurd hx List.not_mem_nil⟩
  owned _ := by
    rw [Share.start, holding_nil rfl, List.toFinset_nil]

omit [DecidableEq ι] in
theorem PoolsShared.start {a : DpaMemAllocator} (l : ι → ℕ × ℕ)
    (hm : Represented a.pools ⟨a.words, false⟩ fun p ↦ Finset.Ico 2 (a.pools p).objTotal) :
    PoolsShared a.pools (fun t ↦ Share.start (l t)) (SharedPools.start a l) where
  holds t := ⟨rfl, fun _ _ ↦ rfl, fun _ _ hx ↦ absurd hx (Finset.notMem_empty _), nofun, trivial⟩
  alone _ _ ht := by cases ht
  apart _ _ _ _ hx := absurd hx (Finset.notMem_empty _)
  free p x hx := by
    have hbit := (hm p).bits x hx
    rw [SharedPools.start]
    dsimp only at hbit ⊢
    rw [hbit, decide_eq_true_eq, Finset.mem_Ico]
    exact ⟨fun h ↦ ⟨h.1, fun _ ↦ Finset.notMem_empty x⟩, fun h ↦ ⟨h.1, hx⟩⟩
  count p := by
    have hcount := (hm p).count
    have hbits := (hm p).eq_bits
    have hzero : ∀ t ∈ Finset.univ, (Share.start (l t)).stage.owed p = 0 := fun _ _ ↦ rfl
    rw [SharedPools.start]
    dsimp only at hcount hbits ⊢
    rw [hcount, hbits, Finset.sum_eq_zero hzero, add_zero]

end

/-- Whatever interfaces register and unregister at the same time, when no call is in progress every
pool counts the objects that are free, and what is allocated has one owner: so long as no store comes
between the load and the store of another, and a registration that finds its interface unused releases
no ring that it has not been given. -/
theorem poolsAgree_of_undisturbed {p : Params} {getFreePages : PoolId → ℕ → ℕ} {virtToPhys : ℕ → ℕ}
    (hpages : Pages getFreePages (dpaParamInit p)) {a : DpaMemAllocator}
    (ha : dpaMemInit getFreePages virtToPhys (dpaParamInit p) = some a) {ι : Type} [DecidableEq ι]
    [Fintype ι] (l : ι → ℕ × ℕ) {es : List (Threads.Event ι RegCall Empty)}
    {c : Threads.Config ι RegCall (SharedPools ι) Registry PoolAccess PoolAccess.Answer}
    (hes : Throughout (sharing a.pools (dpaParamInit p).bufSize).next
      (Threads.Meets (fun _ _ _ ↦ True) Undisturbed) es (.start (SharedPools.start a l)))
    (hrun : run (sharing a.pools (dpaParamInit p).bufSize).next es
      (.start (SharedPools.start a l)) = some c) (hquiet : ∀ t, c.tasks t = none) :
    PoolsAgree a.pools c.shared := by
  obtain ⟨-, hp, hm⟩ := loaded_pools hpages ha
  have hgood : (sharing a.pools (dpaParamInit p).bufSize).Good Undisturbed (PoolsShared a.pools)
      (fun _ _ r l ↦ Share.Idle a.pools (dpaParamInit p).bufSize { l with reg := r })
      (fun _ l ↦ l.Idle a.pools (dpaParamInit p).bufSize) (fun t ↦ Share.start (l t))
      (.start (SharedPools.start a l)) :=
    ⟨.start l hm, nofun, fun t _ ↦ .start _ _ (l t)⟩
  obtain ⟨ls, hgood'⟩ := hgood.run (sharing_kept hp) hes hrun
  exact hgood'.inv.agree fun t ↦ hgood'.idle t (hquiet t)

section

variable {a : DpaMemAllocator} (hc : Crowded a)

include hc

theorem crowded_one {m : PoolMemory} {G : PoolId → List ℕ}
    (ho : Owned ⟨a.words, false⟩ (fun q ↦ Finset.Ico 2 (a.pools q).objTotal) m G)
    (hlock : m.locked = false) (hif : (G .ifPool).length < 62) (hring : (G .ringPool).length < 2)
    (hbuf : (G .bufPool).length ≤ 256) :
    ∃ x y rx, Filled a.pools (dpaParamInit crowded).bufSize 256 (rx 0) ∧
      IsObject (a.pools .ringPool) (rx 0).ringVa y ∧
      IsObject (a.pools .ifPool) ((a.pools .ifPool).addrTbl x).vaddr x ∧
      (FreeObjs (fun q ↦ Finset.Ico 2 (a.pools q).objTotal \ (G q).toFinset) fun p ↦
        only .ifPool [x] p ++ ringGrant a.pools (rx 0) p) ∧
      (dpaNewIf a.pools (dpaParamInit crowded).bufSize (dpaAttach 1 256).dadp).run
          (access a.pools) m =
        some ((some (newIf a.pools ((a.pools .ifPool).addrTbl x).vaddr ⟨1, 1, 256, rx⟩),
          ⟨1, 1, 256, rx⟩), m.takeAll fun p ↦ only .ifPool [x] p ++ ringGrant a.pools (rx 0) p) := by
  obtain ⟨hp, hm, hifTotal, hlen, hringTotal, hrlen, hbufTotal⟩ := hc
  have hlen' : ifLen 1 ≤ (a.pools .ifPool).objSize := (by decide : ifLen 1 ≤ ifLen 2).trans hlen
  have hleft : ∀ q, (Finset.Ico 2 (a.pools q).objTotal \ (G q).toFinset).card + (G q).length =
      (a.pools q).objTotal - 2 := fun q ↦ (ho.free.card q).trans (Nat.card_Ico ..)
  have hifLeft := hleft .ifPool
  have hringLeft := hleft .ringPool
  have hbufLeft := hleft .bufPool
  exact run_dpaNewIf_one hp (ho.represented hm) hlock (Finset.card_pos.1 (by omega)) hlen' hrlen
    (Finset.card_pos.1 (by omega)) (by omega)

end

/-- Two interfaces are registered one after the other. -/
theorem poolsAgree_of_undisturbed_crowded : ∃ a,
    dpaMemInit farPages id (dpaParamInit crowded) = some a ∧
    ∃ es c, run (sharing a.pools (dpaParamInit crowded).bufSize).next es
      (.start (SharedPools.start a fun _ : Bool ↦ (1, 256))) = some c ∧
      (∀ t, (c.shared.interfaces t).difs ≠ []) ∧ PoolsAgree a.pools c.shared := by
  obtain ⟨a, ha, hc⟩ := crowded_loads
  have hp := hc.sound
  have hm := hc.represented
  have hopen : (0 : ℤ) ≠ (1 : ℕ) := by decide
  obtain ⟨x, y, rx, hfilled, hy, -, hfree, hnew⟩ := crowded_one hc .nil rfl
    (by decide) (by decide) (by decide)
  obtain ⟨es₁, g₁, hes₁, hrun₁⟩ := run_sharing_register
    (c := .start (SharedPools.start a fun _ : Bool ↦ (1, 256))) (t := false) rfl hopen hnew
  have hnone : Owned ⟨a.words, false⟩ (fun q ↦ Finset.Ico 2 (a.pools q).objTotal)
    ⟨a.words, false⟩ fun _ ↦ [] := .nil
  have howned := hnone.take hfree
  have hifLen : ([] ++ (only .ifPool [x] .ifPool ++ ringGrant a.pools (rx 0) .ifPool)).length = 1 := by
    simp
  have hringLen : ([] ++ (only .ifPool [x] .ringPool ++
      ringGrant a.pools (rx 0) .ringPool)).length = 1 := by
    simp [only_of_ne, ringObj_eq hp hy]
  have hbufLen : ([] ++ (only .ifPool [x] .bufPool ++
      ringGrant a.pools (rx 0) .bufPool)).length = 256 := by
    simp [only_of_ne, hfilled.slotIdxs_length]
  obtain ⟨x', y', rx', -, -, -, -, hnew'⟩ := crowded_one hc howned rfl (by omega) (by omega)
    (by omega)
  obtain ⟨es₂, g₂, hes₂, hrun₂⟩ := run_sharing_register
    (c := ⟨⟨_, update (fun _ ↦ dpaAttach 1 256) false _, g₁⟩, fun _ ↦ none⟩) (t := true) rfl hopen
    hnew'
  have hrun := run_trans hrun₁ hrun₂
  refine ⟨a, ha, _, _, hrun, fun t ↦ ?_,
    poolsAgree_of_undisturbed (farPages_pages crowded) ha _ (hes₁.append hrun₁ hes₂) hrun fun _ ↦ rfl⟩
  cases t with
  | false => simp [update_of_ne]
  | true => simp

section

variable {ι : Type} [DecidableEq ι] {pools : PoolId → DpaObjPool} {bufSize : ℕ} {α : Type}
  {t : ι} {m : PoolMemory} {x : α} {F : PoolId → Finset ℕ} {n : ℕ}
  {c : Threads.Config ι RegCall (SharedPools ι) Registry PoolAccess PoolAccess.Answer}

/-- An interface is registered and unregistered again, and another is registered in between. -/
theorem run_between {u : ι} (hut : u ≠ t) (ht : c.tasks t = none) (hu : c.tasks u = none)
    {p : PoolProgram α} {f : α → PoolProgram Registry} {r₁ r₃ r₄ : Registry}
    {m₁ m₂ m₃ m₄ : PoolMemory}
    (h₁ : (dpaRegIf pools bufSize true (c.shared.interfaces t)).run (access pools)
      c.shared.memory = some (r₁, m₁))
    (hsplit : dpaDestructor pools 0 r₁ = p >>= f)
    (h₂ : p.run (access pools) m₁ = some (x, m₂))
    (h₃ : (dpaRegIf pools bufSize true (c.shared.interfaces u)).run (access pools) m₂ =
      some (r₃, m₃))
    (h₄ : (f x).run (access pools) m₃ = some (r₄, m₄)) :
    ∃ es c', Library.run (sharing pools bufSize).next es c = some c' ∧ c'.tasks = c.tasks ∧
      c'.shared.memory = m₄ ∧ c'.shared.interfaces u = r₃ := by
  obtain ⟨n₁, g₁, hrun₁⟩ := run_sharing_call bufSize
    (k := .register true) ht rfl h₁
  let c₁ : Threads.Config ι RegCall (SharedPools ι) Registry PoolAccess PoolAccess.Answer :=
    ⟨⟨m₁, update c.shared.interfaces t r₁, g₁⟩, c.tasks⟩
  have henter : (sharing pools bufSize).enter t (.unregister 0) c₁.shared =
      some (p >>= f, c₁.shared) := by
    show some (dpaDestructor pools 0 (update c.shared.interfaces t r₁ t), c₁.shared) = _
    rw [update_self, hsplit]
  obtain ⟨es₂, g₂, hrun₂⟩ := run_sharing_begin (c := c₁) ht henter h₂
  let c₂ : Threads.Config ι RegCall (SharedPools ι) Registry PoolAccess PoolAccess.Answer :=
    ⟨⟨m₂, update c.shared.interfaces t r₁, g₂⟩, update c.tasks t (some (.unregister 0, f x))⟩
  have hu₂ : c₂.tasks u = none := (update_of_ne hut ..).trans hu
  have hr₂ : c₂.shared.interfaces u = c.shared.interfaces u := update_of_ne hut ..
  obtain ⟨es₃, g₃, hrun₃⟩ := run_sharing_call bufSize (c := c₂)
    (k := .register true) hu₂ rfl (hr₂ ▸ h₃)
  let c₃ : Threads.Config ι RegCall (SharedPools ι) Registry PoolAccess PoolAccess.Answer :=
    ⟨⟨m₃, update c₂.shared.interfaces u r₃, g₃⟩, c₂.tasks⟩
  obtain ⟨es₄, g₄, hrun₄⟩ := run_sharing_rest bufSize (c := c₃)
    (update_self ..) h₄
  refine ⟨_, _, run_trans hrun₁ (run_trans hrun₂ (run_trans hrun₃ hrun₄)), ?_, rfl, ?_⟩
  · show update (update c.tasks t _) t none = c.tasks
    rw [update_idem, ← ht, update_eq_self]
  · show update (update c₂.shared.interfaces u r₃) t r₄ u = r₃
    rw [update_of_ne hut, update_self]

/-- The end of that registration up to where it has loaded the word of the ring. -/
def freeUpTo (pools : PoolId → DpaObjPool) (rx : ℕ → RxRing) (y : ℕ) : PoolProgram (BitVec 32) := do
  .perform PoolAccess.lock
  Program.forEach (fun j ↦ freeSlots pools (rx j)) (List.range 1)
  .perform PoolAccess.unlock
  loadWord .ringPool (y / 32)

/-- What is left of it. -/
def freeFrom (pools : PoolId → DpaObjPool) (n : ℕ) (rx : ℕ → RxRing) (y va : ℕ) (word : BitVec 32) :
    PoolProgram Registry := do
  .perform (PoolAccess.storeWord .ringPool (y / 32) word (word ||| 1#32 <<< (y % 32)))
  changeFree .ringPool fun count ↦ count + 1
  dpaIfFree pools va
  pure ⟨⟨0, 1, n, rx⟩, false, []⟩

theorem dpaDestructor_one (hp : SoundPools pools bufSize) {rx : ℕ → RxRing} {y : ℕ}
    (hy : IsObject (pools .ringPool) (rx 0).ringVa y) (dif : DpaIf) :
    dpaDestructor pools 0 ⟨⟨1, 1, n, rx⟩, true, [dif]⟩ =
      freeUpTo pools rx y >>= freeFrom pools n rx y dif.va := by
  have hne : (rx 0).ringVa ≠ 0 := by
    rw [hy.2.2]
    exact (hp.sound .ringPool).vaddr_ne hy.2.1
  have hidx : vaIndex (pools .ringPool) (rx 0).ringVa = some y := by
    rw [hy.2.2, vaIndex_vaddr (hp.sound .ringPool) hp.ringMapped hy.2.1]
  have hrings : dpaFreeRings pools 1 rx = loadWord .ringPool (y / 32) >>= fun word ↦
      Program.perform (PoolAccess.storeWord .ringPool (y / 32) word (word ||| 1#32 <<< (y % 32)))
        >>= fun _ ↦ changeFree .ringPool fun count ↦ count + 1 := by
    show ((if (rx 0).ringVa = 0 then pure () else
      dpaObjFreeVa (pools .ringPool) .ringPool (rx 0).ringVa) >>= fun _ ↦ Program.ret ()) = _
    rw [if_neg hne, dpaObjFreeVa, hidx]
    dsimp only
    rw [dpaObjFree, if_neg (not_le.2 hy.2.1), changeWord, Program.bind_bind, Program.bind_bind]
    rfl
  rw [dpaDestructor]
  dsimp only [List.getElem?_cons_zero]
  have hlast : (1 : ℤ) - 1 ≤ 0 := le_rfl
  rw [dpaDestructorLocked, DpaAdapter.dropRef, if_pos hlast, destroyLast, freeAll]
  dsimp only
  rw [hrings]
  simp only [freeUpTo, Program.bind_bind]
  rfl

theorem run_freeUpTo (hp : SoundPools pools bufSize) (hlock : m.locked = false)
    (rx : ℕ → RxRing) {y : ℕ} (hy : y < (pools .ringPool).objTotal) :
    (freeUpTo pools rx y).run (access pools) m = some ((m.words .ringPool).bitmap (y / 32),
      m.putAll (only .bufPool (validBufs (pools .bufPool) (slotIdxs (rx 0))))) := by
  have hlen := (hp.sound .ringPool).bitmap
  rw [freeUpTo, run_lock_bind hlock, Program.run_bind_of (run_freeSlots_all hp rx _ _),
    run_unlock_bind, unlock_putAll hlock, loadWord, Program.run_perform, access, if_pos (by omega)]
  refine congrArg some (Prod.ext ?_ ?_)
  · dsimp only
    rw [words_putAll_of_ne (by decide)]
  · show m.putAll (only .bufPool (_ ++ [])) = _
    rw [List.append_nil]

theorem run_freeFrom (hp : SoundPools pools bufSize) (rx : ℕ → RxRing) {va x y : ℕ}
    (hx : IsObject (pools .ifPool) va x) (hy : y < (pools .ringPool).objTotal)
    (word : BitVec 32) : ∃ m', (freeFrom pools n rx y va word).run (access pools) m =
      some (⟨⟨0, 1, n, rx⟩, false, []⟩, m') ∧ (m'.words .ringPool).bitmap =
        update (m.words .ringPool).bitmap (y / 32) (word ||| 1#32 <<< (y % 32)) := by
  have hlen := (hp.sound .ringPool).bitmap
  have hstore : (Program.perform (PoolAccess.storeWord .ringPool (y / 32) word
      (word ||| 1#32 <<< (y % 32))) : PoolProgram Unit).run (access pools) m = _ :=
    Program.run_perform _ m
  rw [access, if_pos (by omega)] at hstore
  rw [freeFrom, Program.run_bind_of hstore, Program.run_bind_of (run_changeFree _),
    Program.run_bind_of (run_dpaIfFree hp hx _)]
  refine ⟨_, rfl, ?_⟩
  rw [words_putAll_of_ne (by decide)]
  simp

theorem owned_freeUpTo (hp : SoundPools pools bufSize) (hm : Represented pools m F) {rx : RxRing}
    {x y : ℕ} (hy : IsObject (pools .ringPool) rx.ringVa y)
    (hfree : FreeObjs F fun p ↦ only .ifPool [x] p ++ ringGrant pools rx p) :
    Owned m F ((m.takeAll fun p ↦ only .ifPool [x] p ++ ringGrant pools rx p).putAll
        (only .bufPool (validBufs (pools .bufPool) (slotIdxs rx))))
      fun p ↦ only .ifPool [x] p ++ only .ringPool [y] p := by
  have howned : Owned m F (m.takeAll fun p ↦ only .ifPool [x] p ++ ringGrant pools rx p) _ :=
    ⟨hfree, rfl⟩
  have hvalid : validBufs (pools .bufPool) (slotIdxs rx) = slotIdxs rx :=
    validBufs_eq hm (hfree.right .bufPool).2
  rw [hvalid]
  refine (howned.perm fun p ↦ ?_).put hm fun p ↦ List.Perm.refl _
  cases p with
  | ifPool => simp [only_of_ne]
  | ringPool => simp [only_of_ne, ringObj_eq hp hy]
  | bufPool => simp [only_of_ne]

end

/-- Two interfaces of one ring. The first has registered and unregisters: it has loaded the word of
its ring when the second registers, and its store frees the ring of the second. -/
theorem ring_freed_by_other : ∃ a, dpaMemInit farPages id (dpaParamInit crowded) = some a ∧
    ∃ (es : List (Threads.Event Bool RegCall Empty)) (c : Threads.Config Bool RegCall
        (SharedPools Bool) Registry PoolAccess PoolAccess.Answer),
      run (sharing a.pools (dpaParamInit crowded).bufSize).next es
        (.start (SharedPools.start a fun _ ↦ (1, 256))) = some c ∧
      (∀ t, c.tasks t = none) ∧ ¬PoolsAgree a.pools c.shared := by
  obtain ⟨a, ha, hc⟩ := crowded_loads
  have hp := hc.sound
  have hm := hc.represented
  have hopen : (0 : ℤ) ≠ (1 : ℕ) := by decide
  obtain ⟨x, y, rx, -, hy, hx, hfree, hnew⟩ := crowded_one hc .nil rfl (by decide)
    (by decide) (by decide)
  have hreg := run_dpaRegIf_some (r := dpaAttach 1 256) hopen hnew
  have hupTo := run_freeUpTo hp (m := (⟨a.words, false⟩ : PoolMemory).takeAll fun p ↦
    only .ifPool [x] p ++ ringGrant a.pools (rx 0) p) rfl rx hy.2.1
  have howned := owned_freeUpTo hp hm hy hfree.of_sdiff
  have hm' := howned.represented hm
  have hlens : (only .ifPool [x] .ifPool ++ only .ringPool [y] .ifPool).length = 1 ∧
      (only .ifPool [x] .ringPool ++ only .ringPool [y] .ringPool).length = 1 ∧
      (only .ifPool [x] .bufPool ++ only .ringPool [y] .bufPool).length = 0 := by
    simp [only_of_ne]
  obtain ⟨x', y', rx', -, hy', -, hfree', hnew'⟩ := crowded_one hc howned rfl (by omega)
    (by omega) (by omega)
  have hreg' := run_dpaRegIf_some (r := dpaAttach 1 256) hopen hnew'
  obtain ⟨m₄, hfrom, hbitmap⟩ := run_freeFrom hp (n := 256) rx hx hy.2.1 _
  obtain ⟨es, c, hrun, htasks, hmemory, hinterface⟩ := run_between (c := .start
    (SharedPools.start a fun _ ↦ (1, 256))) (u := true) (t := false) (by decide) rfl rfl hreg
    (dpaDestructor_one hp hy _) hupTo hreg' hfrom
  refine ⟨a, ha, es, c, hrun, fun t ↦ by rw [htasks]; rfl, fun hagree ↦ ?_⟩
  have hheld : y' ∈ holding a.pools (c.shared.interfaces true) .ringPool := by
    rw [hinterface, holding_cons (by simp)]
    refine List.mem_append_right _ (List.mem_flatMap.2 ⟨0, by simp, ?_⟩)
    rw [ringGrant_ringPool, ringObj_eq hp hy']
    exact List.mem_singleton_self y'
  have hfreed := ((hagree.allocated true .ringPool).2 y' hheld).2
  have hspare := (hm' .ringPool).bit_of_mem ((hfree'.right .ringPool).2 y' (by
    rw [ringGrant_ringPool, ringObj_eq hp hy']
    exact List.mem_singleton_self y'))
  have hsame : y' / 32 = y / 32 := by
    have hlt := hy.2.1
    have hlt' := hy'.2.1
    rw [hc.rings] at hlt hlt'
    omega
  rw [words_putAll_of_ne (by decide), bit, hsame] at hspare
  rw [hmemory, hbitmap, bit_update, if_pos hsame, BitVec.getLsbD_or, hspare, Bool.true_or] at hfreed
  cases hfreed

end Dpa.Kernel
