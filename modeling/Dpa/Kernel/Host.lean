import Dpa.Kernel.LayoutSizes
import Dpa.Kernel.Registration
import Dpa.Library.Machine

namespace Dpa.Kernel

open Function Library MachineWord PoolMemory

structure Host where
  memory : PoolMemory
  interfaces : List Registry

/-- A registration or the end of one; `n` is the interface, `k` the file descriptor. -/
inductive Call
  | register (n : ℕ) (regOk : Bool)
  | unregister (n k : ℕ)

section

variable (pools : PoolId → DpaObjPool) (bufSize : ℕ)

/-- A call for interface `n`, which fails at once where there is none. -/
def hostCall (n : ℕ) (f : Registry → PoolProgram Registry) (h : Host) : Option Host :=
  match h.interfaces[n]? with
  | none => some h
  | some r => ((f r).run (access pools) h.memory).map fun a ↦ ⟨a.2, h.interfaces.set n a.1⟩

def hostExec (h : Host) : Call → Option Host
  | .register n regOk => hostCall pools n (dpaRegIf pools bufSize regOk) h
  | .unregister n k => hostCall pools n (dpaDestructor pools k) h

end

/-- An interface as `dpa_attach` leaves it, its rings being zero. -/
def dpaAttach (nrx ndesc : ℕ) : Registry where
  dadp :=
    { refs := 0
      numRxRings := nrx
      numRxDescs := ndesc
      rxRings := fun _ ↦ ⟨0, zeroKring, 0, ⟨0, 0, 0, 0, 0, 0, fun _ ↦ zeroSlot⟩⟩ }
  enabled := false
  difs := []

/-- The pools as `dpa_mem_init` leaves them, with interfaces of that many rings and descriptors. -/
def Host.start (a : DpaMemAllocator) (l : List (ℕ × ℕ)) : Host :=
  ⟨⟨a.words, false⟩, l.map fun d ↦ dpaAttach d.1 d.2⟩

/-- The `dpa_new_if` of a registration clears up what it took and nothing else. -/
def Clean (pools : PoolId → DpaObjPool) (h : Host) : Call → Prop
  | .register n _ => ∀ r, h.interfaces[n]? = some r → r.dadp.refs ≠ r.dadp.numRxRings →
      NoneLeftOver pools h.memory r.dadp
  | .unregister _ _ => True

structure HostInv (pools : PoolId → DpaObjPool) (bufSize : ℕ) (m : PoolMemory)
    (F : PoolId → Finset ℕ) (h : Host) : Prop where
  ready : ∀ r ∈ h.interfaces, r.Ready pools bufSize
  owned : Owned m F h.memory fun p ↦ h.interfaces.flatMap fun r ↦ holding pools r p
  unlocked : h.memory.locked = false

section

variable {pools : PoolId → DpaObjPool} {bufSize : ℕ} {m : PoolMemory} {F : PoolId → Finset ℕ}
  {h : Host} {r r' : Registry} {n : ℕ}

def Host.others (pools : PoolId → DpaObjPool) (h : Host) (n : ℕ) (p : PoolId) : List ℕ :=
  (h.interfaces.eraseIdx n).flatMap fun r ↦ holding pools r p

theorem perm_getElem? {α : Type} {l : List α} {x : α} (hn : l[n]? = some x) :
    l.Perm (x :: l.eraseIdx n) := by
  obtain ⟨hlt, rfl⟩ := List.getElem?_eq_some_iff.1 hn
  exact (List.getElem_cons_eraseIdx_perm hlt).symm

theorem perm_set {α : Type} {l : List α} {x : α} (hn : l[n]? = some x) (y : α) :
    (l.set n y).Perm (y :: l.eraseIdx n) := by
  obtain ⟨hlt, -⟩ := List.getElem?_eq_some_iff.1 hn
  have hget : (l.set n y)[n]? = some y := List.getElem?_set_self hlt
  have hperm := perm_getElem? hget
  rwa [List.eraseIdx_set_eq] at hperm

theorem HostInv.split (hi : HostInv pools bufSize m F h) (hn : h.interfaces[n]? = some r) :
    Owned m F h.memory fun p ↦ holding pools r p ++ h.others pools n p :=
  hi.owned.perm fun p ↦ (perm_getElem? hn).flatMap_right fun r ↦ holding pools r p

theorem HostInv.of_leaves (hi : HostInv pools bufSize m F h) (hn : h.interfaces[n]? = some r)
    {s' : PoolMemory} (hleaves : Leaves pools bufSize m F (h.others pools n) r r' s') :
    HostInv pools bufSize m F ⟨s', h.interfaces.set n r'⟩ := by
  obtain ⟨hready, -, -, howned, hlock⟩ := hleaves
  refine ⟨fun x hx ↦ ?_, howned.perm fun p ↦ ?_, hlock⟩
  · rcases List.mem_or_eq_of_mem_set hx with hx | rfl
    · exact hi.ready x hx
    · exact hready
  · exact ((perm_set hn r').flatMap_right fun r ↦ holding pools r p).symm

theorem hostCall_of {f : Registry → PoolProgram Registry} (hn : h.interfaces[n]? = some r)
    {s' : PoolMemory} (hrun : (f r).run (access pools) h.memory = some (r', s')) :
    hostCall pools n f h = some ⟨s', h.interfaces.set n r'⟩ := by
  rw [hostCall, hn]
  exact congrArg (Option.map _) hrun

theorem length_ringGrants (hp : SoundPools pools bufSize) {rx : ℕ → RxRing} {nrx ndesc : ℕ}
    (hfilled : ∀ j < nrx, Filled pools bufSize ndesc (rx j)) :
    (ringGrants pools rx (List.range nrx) .ringPool).length = nrx ∧
      (ringGrants pools rx (List.range nrx) .bufPool).length = nrx * ndesc := by
  have hring : ∀ j ∈ List.range nrx, (ringObj pools (rx j)).length = 1 := fun j hj ↦
    (hfilled j (List.mem_range.1 hj)).ringObj_length hp
  have hbuf : ∀ j ∈ List.range nrx, (slotIdxs (rx j)).length = ndesc := fun j hj ↦
    (hfilled j (List.mem_range.1 hj)).slotIdxs_length
  rw [ringGrants_ringPool, ringGrants_bufPool, List.length_flatMap, List.length_flatMap,
    List.map_congr_left hring, List.map_congr_left hbuf]
  simp

theorem Registry.Ready.length_holding (hp : SoundPools pools bufSize) (hr : r.Ready pools bufSize) :
    (holding pools r .ifPool).length = r.difs.length ∧
      (holding pools r .ringPool).length = (if r.difs = [] then 0 else r.dadp.numRxRings) ∧
      (holding pools r .bufPool).length =
        (if r.difs = [] then 0 else r.dadp.numRxRings * r.dadp.numRxDescs) := by
  by_cases hdifs : r.difs = []
  · rw [holding_nil hdifs, holding_nil hdifs, holding_nil hdifs, if_pos hdifs, if_pos hdifs, hdifs]
    exact ⟨rfl, rfl, rfl⟩
  · rw [holding_cons hdifs, holding_cons hdifs, holding_cons hdifs, if_neg hdifs, if_neg hdifs]
    have hone : ∀ d ∈ r.difs, (vaIndex (pools .ifPool) d.va).toList.length = 1 := fun d hd ↦ by
      obtain ⟨x, hx⟩ := hr.difs d hd
      rw [vaIndex_toList hp hx, List.length_singleton]
    obtain ⟨hring, hbuf⟩ := length_ringGrants hp (hr.filled hdifs)
    rw [List.length_append, List.length_append, List.length_append, hring, hbuf, ringGrants_ifPool]
    simp only [only_self, only_of_ne, ne_eq, reduceCtorEq, not_false_eq_true, List.length_flatMap,
      List.length_nil]
    rw [List.map_congr_left hone]
    simp

theorem HostInv.objFree (hm : Represented pools m F) (hi : HostInv pools bufSize m F h) (p : PoolId) :
    (h.memory.words p).objFree + (h.interfaces.map fun r ↦ (holding pools r p).length).sum =
      (F p).card := by
  rw [(hi.owned.represented hm p).count, ← List.length_flatMap]
  exact hi.owned.free.card p

theorem HostInv.register (hp : SoundPools pools bufSize) (hm : Represented pools m F)
    (hi : HostInv pools bufSize m F h) (hn : h.interfaces[n]? = some r)
    (hopen : r.dadp.refs ≠ r.dadp.numRxRings) {dif : DpaIf} {dadp : DpaAdapter} {s' : PoolMemory}
    (hnew : (dpaNewIf pools bufSize r.dadp).run (access pools) h.memory =
      some ((some dif, dadp), s')) :
    ∃ h' r', hostExec pools bufSize h (.register n true) = some h' ∧
      HostInv pools bufSize m F h' ∧ h'.interfaces = h.interfaces.set n r' ∧
      r'.difs = r.difs ++ [dif] ∧ r'.dadp.numRxRings = r.dadp.numRxRings ∧
      r'.dadp.numRxDescs = r.dadp.numRxDescs := by
  have hready := hi.ready r (List.mem_of_getElem? hn)
  have hleaves := leaves_of_registered hp hm hready (hi.split hn) hi.unlocked hopen hnew
  exact ⟨_, _, hostCall_of hn (run_dpaRegIf_some hopen hnew), hi.of_leaves hn hleaves, rfl, rfl,
    hleaves.2.1, hleaves.2.2.1⟩

theorem HostInv.tryRegister (hp : SoundPools pools bufSize) (hm : Represented pools m F)
    (hi : HostInv pools bufSize m F h) (hn : h.interfaces[n]? = some r)
    (hclean : r.dadp.refs ≠ r.dadp.numRxRings → NoneLeftOver pools h.memory r.dadp) (regOk : Bool) :
    ∃ h' r', hostExec pools bufSize h (.register n regOk) = some h' ∧
      HostInv pools bufSize m F h' ∧ h'.interfaces = h.interfaces.set n r' ∧
      (r'.difs = r.difs ∨ r.dadp.refs ≠ r.dadp.numRxRings ∧ ∃ dif, r'.difs = r.difs ++ [dif]) ∧
      r'.dadp.numRxRings = r.dadp.numRxRings ∧ r'.dadp.numRxDescs = r.dadp.numRxDescs := by
  have hready := hi.ready r (List.mem_of_getElem? hn)
  by_cases hfull : r.dadp.refs = r.dadp.numRxRings
  · exact ⟨_, r, hostCall_of hn (run_dpaRegIf_full hfull regOk),
      hi.of_leaves hn ⟨hready, rfl, rfl, hi.split hn, hi.unlocked⟩, rfl, .inl rfl, rfl, rfl⟩
  · obtain ⟨r', s', hrun, hleaves⟩ :=
      dpaRegIf_step hp hm hready (hi.split hn) hi.unlocked (hclean hfull) regOk
    refine ⟨_, r', hostCall_of hn hrun, hi.of_leaves hn hleaves, rfl, ?_, hleaves.2.1,
      hleaves.2.2.1⟩
    rcases run_dpaRegIf_difs hrun with hsame | ⟨hopen, dif, hdifs, -⟩
    · exact .inl hsame
    · exact .inr ⟨hopen, dif, hdifs⟩

theorem HostInv.unregister (hp : SoundPools pools bufSize) (hm : Represented pools m F)
    (hi : HostInv pools bufSize m F h) (hn : h.interfaces[n]? = some r) (k : ℕ) :
    ∃ h' r', hostExec pools bufSize h (.unregister n k) = some h' ∧
      HostInv pools bufSize m F h' ∧ h'.interfaces = h.interfaces.set n r' ∧
      r'.difs = r.difs.eraseIdx k ∧ r'.dadp.rxRings = r.dadp.rxRings ∧
      r'.dadp.numRxRings = r.dadp.numRxRings ∧ r'.dadp.numRxDescs = r.dadp.numRxDescs := by
  have hready := hi.ready r (List.mem_of_getElem? hn)
  obtain ⟨r', s', hrun, hleaves⟩ := dpaDestructor_step hp hm hready (hi.split hn) hi.unlocked k
  obtain ⟨hrx, hdifs⟩ := run_dpaDestructor_eq hrun
  exact ⟨_, r', hostCall_of hn hrun, hi.of_leaves hn hleaves, rfl, hdifs, hrx, hleaves.2.1,
    hleaves.2.2.1⟩

theorem hostExec_step (hp : SoundPools pools bufSize) (hm : Represented pools m F)
    (hi : HostInv pools bufSize m F h) (c : Call) (hc : Clean pools h c) :
    ∃ h', hostExec pools bufSize h c = some h' ∧ HostInv pools bufSize m F h' := by
  cases c with
  | register n regOk =>
    cases hn : h.interfaces[n]? with
    | none => exact ⟨h, by rw [hostExec, hostCall, hn], hi⟩
    | some r =>
      obtain ⟨h', r', hexec, hi', -⟩ := hi.tryRegister hp hm hn (hc r hn) regOk
      exact ⟨h', hexec, hi'⟩
  | unregister n k =>
    cases hn : h.interfaces[n]? with
    | none => exact ⟨h, by rw [hostExec, hostCall, hn], hi⟩
    | some r =>
      obtain ⟨h', r', hexec, hi', -⟩ := hi.unregister hp hm hn k
      exact ⟨h', hexec, hi'⟩

theorem run_hostExec (hp : SoundPools pools bufSize) (hm : Represented pools m F) {cs : List Call}
    (hi : HostInv pools bufSize m F h)
    (hc : Throughout (hostExec pools bufSize) (Clean pools) cs h) :
    ∃ h', run (hostExec pools bufSize) cs h = some h' ∧ HostInv pools bufSize m F h' := by
  induction cs generalizing h with
  | nil => exact ⟨h, rfl, hi⟩
  | cons c cs ih =>
    obtain ⟨h₁, heq, hi₁⟩ := hostExec_step hp hm hi c hc.1
    obtain ⟨h', hrun, hi'⟩ := ih hi₁ (hc.2 h₁ heq)
    exact ⟨h', (run_cons heq).trans hrun, hi'⟩

end

section

variable {p : Params} {getFreePages : PoolId → ℕ → ℕ} {virtToPhys : ℕ → ℕ}

theorem soundPools (hpages : Pages getFreePages (dpaParamInit p)) :
    SoundPools ((dpaParamInit p).pool getFreePages virtToPhys) (dpaParamInit p).bufSize := by
  have hmapped : ∀ q, q ≠ .bufPool →
      ((dpaParamInit p).pool getFreePages virtToPhys q).Mapped := fun q hq ↦
    fullPool_mapped pageSize_eq (paramInit_objSize p q).1 (paramInit_objSize p q).2 (memory_lt p hq)
  obtain ⟨b, hb1, hb16, hb⟩ := paramInit_bufSize p
  obtain ⟨hobj, hentries, hclst⟩ := bufPool_entries hb1 hb16
  have hsize := paramInit_objSize p .bufPool
  have heq := emptyPool_eq pageSize_eq hsize.1 hsize.2 (paramInit_countable p .bufPool)
  constructor
  case sound =>
    exact fun q ↦ fullPool_sound pageSize_eq (paramInit_objSize p q).1 (paramInit_objSize p q).2
      (paramInit_countable p q) (hpages q)
  case ifMapped => exact hmapped .ifPool (by decide)
  case ringMapped => exact hmapped .ringPool (by decide)
  case packed =>
    rw [Config.pool, fullPool, heq]
    dsimp only
    rw [Config.objSize, hb, hclst, hentries, hobj]
  case bufSize_le =>
    rw [Config.pool, fullPool, heq]
    dsimp only
    rw [Config.objSize, hb, hobj, u32_natCast (by omega)]

theorem holding_attached (pools : PoolId → DpaObjPool) (l : List (ℕ × ℕ)) (q : PoolId) :
    ((l.map fun d ↦ dpaAttach d.1 d.2).flatMap fun r ↦ holding pools r q) = [] := by
  refine List.flatMap_eq_nil_iff.2 fun r hr ↦ ?_
  obtain ⟨d, -, rfl⟩ := List.mem_map.1 hr
  exact holding_nil rfl q

theorem Registry.Ready.attached (pools : PoolId → DpaObjPool) (bufSize nrx ndesc : ℕ) :
    (dpaAttach nrx ndesc).Ready pools bufSize where
  refs := rfl
  enabled := by simp [dpaAttach]
  pointer _ _ := .inl rfl
  filled h := absurd rfl h
  difs _ hd := absurd hd List.not_mem_nil

theorem HostInv.start {a : DpaMemAllocator} (l : List (ℕ × ℕ)) :
    HostInv a.pools (dpaParamInit p).bufSize ⟨a.words, false⟩
      (fun q ↦ Finset.Ico 2 (a.pools q).objTotal) (Host.start a l) where
  ready r hr := by
    obtain ⟨d, -, rfl⟩ := List.mem_map.1 hr
    exact .attached _ _ _ _
  owned := by
    refine ⟨fun q ↦ ?_, ?_⟩
    · rw [Host.start, holding_attached]
      exact ⟨List.nodup_nil, fun _ hx ↦ absurd hx List.not_mem_nil⟩
    · have hnil := congrArg (takeAll ⟨a.words, false⟩) (funext (holding_attached a.pools l))
      exact hnil.symm
  unlocked := rfl

/-- The pools of a module that is loaded. -/
theorem loaded_pools (hpages : Pages getFreePages (dpaParamInit p)) {a : DpaMemAllocator}
    (ha : dpaMemInit getFreePages virtToPhys (dpaParamInit p) = some a) :
    a.pools = (dpaParamInit p).pool getFreePages virtToPhys ∧
      SoundPools a.pools (dpaParamInit p).bufSize ∧
      Represented a.pools ⟨a.words, false⟩ fun q ↦ Finset.Ico 2 (a.pools q).objTotal := by
  obtain ⟨a', ha', hpools, hrep, -⟩ := dpaMemInit_eq p virtToPhys hpages
  obtain rfl := Option.some.inj (ha'.symm.trans ha)
  exact ⟨hpools, hpools ▸ soundPools hpages, hrep⟩

/-- A failed `dpa_new_if` leaves the pools and the count as they were if, and only if, it is clean,
in every state that clean calls lead to. -/
theorem dpaNewIf_atomic_iff (hpages : Pages getFreePages (dpaParamInit p)) {a : DpaMemAllocator}
    (ha : dpaMemInit getFreePages virtToPhys (dpaParamInit p) = some a) (l : List (ℕ × ℕ))
    (cs : List Call)
    (hc : Throughout (hostExec a.pools (dpaParamInit p).bufSize) (Clean a.pools) cs
      (Host.start a l)) :
    ∃ h, run (hostExec a.pools (dpaParamInit p).bufSize) cs (Host.start a l) = some h ∧
      ∀ r ∈ h.interfaces, ∀ dadp s, (dpaNewIf a.pools (dpaParamInit p).bufSize r.dadp).run
          (access a.pools) h.memory = some ((none, dadp), s) →
        (((∀ q, s.words q = h.memory.words q) ∧ dadp.refs = r.dadp.refs) ↔
          NoneLeftOver a.pools h.memory r.dadp) := by
  obtain ⟨-, hp, hm⟩ := loaded_pools hpages ha
  obtain ⟨h, hrun, hi⟩ := run_hostExec hp hm (.start l) hc
  refine ⟨h, hrun, fun r hr dadp s hnone ↦ ?_⟩
  have hready := hi.ready r hr
  obtain ⟨hrefs, -, -, -, -, -, hwords⟩ := dpaNewIf_none hp (hi.owned.represented hm)
    hi.unlocked hready.pointer hnone
  rw [← hwords]
  exact ⟨fun h ↦ h.1, fun h ↦ ⟨h, hrefs⟩⟩

theorem farPages_pages (p : Params) : Pages farPages (dpaParamInit p) := by
  intro q
  have hsize := paramInit_objSize p q
  have halign := alignUp_cacheLine hsize.1 hsize.2
  have hfits := (clusterEntries_fits pageSize halign.2).2
  have hclst : exactClusterSize pageSize ((dpaParamInit p).objSize q) < clusterMaxSize + pageSize :=
    (alignUp_lt (by decide)).trans_le (Nat.add_le_add_right hfits _)
  have hmega : clusterMaxSize + pageSize ≤ 2 ^ 20 := by decide
  refine ⟨fun c _ ↦ Nat.mul_ne_zero (Nat.succ_ne_zero c) (by decide), fun c _ c' _ hne ↦ ?_⟩
  simp only [farPages]
  omega

def crowded : Params := ⟨1, 2, 256, 2048⟩

theorem crowded_sizes :
    (((dpaParamInit crowded).pool farPages id .ifPool).objTotal = 64 ∧
      ifLen 2 ≤ ((dpaParamInit crowded).pool farPages id .ifPool).objSize) ∧
    (((dpaParamInit crowded).pool farPages id .ringPool).objTotal = 4 ∧
      ringLen 256 ≤ ((dpaParamInit crowded).pool farPages id .ringPool).objSize) ∧
    ((dpaParamInit crowded).pool farPages id .bufPool).objTotal = 514 := by
  decide +kernel

/-- The module is loaded with these parameters. -/
structure Crowded (a : DpaMemAllocator) : Prop where
  sound : SoundPools a.pools (dpaParamInit crowded).bufSize
  represented : Represented a.pools ⟨a.words, false⟩ fun q ↦ Finset.Ico 2 (a.pools q).objTotal
  ifs : (a.pools .ifPool).objTotal = 64
  ifFits : ifLen 2 ≤ (a.pools .ifPool).objSize
  rings : (a.pools .ringPool).objTotal = 4
  ringFits : ringLen 256 ≤ (a.pools .ringPool).objSize
  bufs : (a.pools .bufPool).objTotal = 514

theorem crowded_loads : ∃ a, dpaMemInit farPages id (dpaParamInit crowded) = some a ∧ Crowded a := by
  obtain ⟨a, ha, -⟩ := dpaMemInit_eq crowded id (farPages_pages crowded)
  obtain ⟨hpools, hp, hm⟩ := loaded_pools (farPages_pages crowded) ha
  obtain ⟨⟨hif, hlen⟩, ⟨hring, hrlen⟩, hbuf⟩ := crowded_sizes
  rw [← hpools] at hif hlen hring hrlen hbuf
  exact ⟨a, ha, hp, hm, hif, hlen, hring, hrlen, hbuf⟩

theorem Crowded.ifs_nonempty {a : DpaMemAllocator} (h : Crowded a) :
    (Finset.Ico 2 (a.pools .ifPool).objTotal).Nonempty := by
  rw [← Finset.card_pos, Nat.card_Ico, h.ifs]
  decide

/-- There are objects for an interface of one ring. -/
theorem Crowded.enough {a : DpaMemAllocator} (h : Crowded a) :
    Enough a.pools (fun q ↦ Finset.Ico 2 (a.pools q).objTotal) 256 1 := by
  refine .inr ⟨h.ringFits, ?_, ?_⟩
  · rw [Nat.card_Ico, h.rings]
    decide
  · rw [Nat.card_Ico, h.bufs]
    decide

theorem clean_attached {pools : PoolId → DpaObjPool} {h : Host} {n nrx ndesc : ℕ}
    (hn : h.interfaces[n]? = some (dpaAttach nrx ndesc)) (regOk : Bool) :
    Clean pools h (.register n regOk) := by
  intro r hr _ _ _ _ j _ hne
  rw [hn] at hr
  obtain rfl := Option.some.inj hr
  exact absurd rfl hne

theorem dpaNewIf_atomic_iff_crowded : ∃ a,
    dpaMemInit farPages id (dpaParamInit crowded) = some a ∧
    ∃ h, run (hostExec a.pools (dpaParamInit crowded).bufSize) [.register 0 true]
        (Host.start a [(2, 256), (2, 256)]) = some h ∧
      ∀ r ∈ h.interfaces, ∀ dadp s, (dpaNewIf a.pools (dpaParamInit crowded).bufSize r.dadp).run
          (access a.pools) h.memory = some ((none, dadp), s) →
        (((∀ q, s.words q = h.memory.words q) ∧ dadp.refs = r.dadp.refs) ↔
          NoneLeftOver a.pools h.memory r.dadp) := by
  obtain ⟨a, ha, -⟩ := crowded_loads
  exact ⟨a, ha, dpaNewIf_atomic_iff (farPages_pages crowded) ha [(2, 256), (2, 256)]
    [.register 0 true] ⟨clean_attached rfl true, fun _ _ ↦ trivial⟩⟩

section

variable {a : DpaMemAllocator} {h : Host} {n : ℕ} {r : Registry}
  (hc : Crowded a) (hi : HostInv a.pools (dpaParamInit crowded).bufSize ⟨a.words, false⟩
    (fun q ↦ Finset.Ico 2 (a.pools q).objTotal) h)

include hc hi

theorem crowded_idle (hidle : ∀ r ∈ h.interfaces, r.difs = []) (hn : h.interfaces[n]? = some r)
    (hnrx : r.dadp.numRxRings = 2) (hndesc : r.dadp.numRxDescs = 256) :
    ∃ h' r', hostExec a.pools (dpaParamInit crowded).bufSize h (.register n true) = some h' ∧
      HostInv a.pools (dpaParamInit crowded).bufSize ⟨a.words, false⟩
        (fun q ↦ Finset.Ico 2 (a.pools q).objTotal) h' ∧
      h'.interfaces = h.interfaces.set n r' ∧ r'.difs.length = 1 ∧ r'.dadp.numRxRings = 2 ∧
      r'.dadp.numRxDescs = 256 := by
  obtain ⟨hp, hm, hif, hlen, hring, hrlen, hbuf⟩ := hc
  have hfree : ∀ q, (h.memory.words q).objFree = (a.pools q).objTotal - 2 := by
    intro q
    have hall := hi.objFree hm q
    have hzero : ∀ r ∈ h.interfaces, (holding a.pools r q).length = 0 := fun r hr ↦ by
      rw [holding_nil (hidle r hr), List.length_nil]
    rw [List.map_congr_left hzero, List.map_const', List.sum_replicate, smul_zero, Nat.add_zero,
      Nat.card_Ico] at hall
    exact hall
  have hdifs := hidle r (List.mem_of_getElem? hn)
  have hrefs : r.dadp.refs = 0 := by
    rw [(hi.ready r (List.mem_of_getElem? hn)).refs, hdifs]
    rfl
  have hcount : ¬0 < r.dadp.refs →
      Counted a.pools h.memory r.dadp.numRxDescs r.dadp.numRxRings := fun _ ↦ by
    rw [Counted, hnrx, hndesc, hfree, hfree, hring, hbuf]
    exact .inr ⟨hrlen, by decide, by decide⟩
  obtain ⟨dif, dadp, s', hnew⟩ := run_dpaNewIf_some hp (hi.owned.represented hm) hi.unlocked
    (by rw [hfree, hif]; decide) (hnrx ▸ hlen) hcount
  obtain ⟨h', r', hexec, hi', hset, hdifs', hnrx', hndesc'⟩ :=
    hi.register hp hm hn (by rw [hrefs, hnrx]; decide) hnew
  refine ⟨h', r', hexec, hi', hset, ?_, hnrx'.trans hnrx, hndesc'.trans hndesc⟩
  rw [hdifs', hdifs]
  rfl

end

/-- Interface 0 is registered and unregistered and interface 1 takes all rings; the next registration
of interface 0 fails at its first ring and releases a ring of interface 1. -/
theorem dpaNewIf_releases_others : ∃ a,
    dpaMemInit farPages id (dpaParamInit crowded) = some a ∧
    ∃ h r dadp s, run (hostExec a.pools (dpaParamInit crowded).bufSize)
        [.register 0 true, .unregister 0 0, .register 1 true]
        (Host.start a [(2, 256), (2, 256)]) = some h ∧
      h.interfaces[0]? = some r ∧ (dpaNewIf a.pools (dpaParamInit crowded).bufSize r.dadp).run
        (access a.pools) h.memory = some ((none, dadp), s) ∧
      ¬∀ q, s.words q = h.memory.words q := by
  obtain ⟨a, ha, hc⟩ := crowded_loads
  have hp := hc.sound
  have hm := hc.represented
  have hif := hc.ifs
  have hring := hc.rings
  have hi₀ : HostInv a.pools (dpaParamInit crowded).bufSize ⟨a.words, false⟩
      (fun q ↦ Finset.Ico 2 (a.pools q).objTotal) (Host.start a [(2, 256), (2, 256)]) := .start _
  obtain ⟨h₁, r₁, hexec₁, hi₁, hset₁, hlen₁, hnrx₁, hndesc₁⟩ := crowded_idle hc hi₀
    (n := 0) (by simp [Host.start, dpaAttach]) rfl rfl rfl
  have hn₁ : h₁.interfaces[0]? = some r₁ := by rw [hset₁]; rfl
  obtain ⟨h₂, r₂, hexec₂, hi₂, hset₂, hdifs₂, hrx₂, hnrx₂, hndesc₂⟩ := hi₁.unregister hp hm hn₁ 0
  have hidle₂ : r₂.difs = [] := by
    rw [hdifs₂, ← List.length_eq_zero_iff, List.length_eraseIdx_of_lt (by omega)]
    omega
  have hints₂ : h₂.interfaces = [r₂, dpaAttach 2 256] := by rw [hset₂, hset₁]; rfl
  obtain ⟨h₃, r₃, hexec₃, hi₃, hset₃, hlen₃, hnrx₃, hndesc₃⟩ := crowded_idle hc hi₂
    (n := 1) (r := dpaAttach 2 256) (by simp [hints₂, hidle₂, dpaAttach]) (by rw [hints₂]; rfl) rfl rfl
  have hints₃ : h₃.interfaces = [r₂, r₃] := by rw [hset₃, hints₂]; rfl
  have hr₂ := hi₃.ready r₂ (by rw [hints₃]; simp)
  have hr₃ := hi₃.ready r₃ (by rw [hints₃]; simp)
  have hdifs₃ : r₃.difs ≠ [] := fun hnil ↦ by rw [hnil] at hlen₃; simp at hlen₃
  have hheld := hr₃.length_holding hp
  have hfree := hi₃.objFree hm
  simp only [hints₃, List.map_cons, List.map_nil, List.sum_cons, List.sum_nil,
    holding_nil hidle₂, List.length_nil, Nat.card_Ico] at hfree
  have hifFree : (h₃.memory.words .ifPool).objFree = 61 := by
    have hall := hfree .ifPool
    rw [hheld.1, hlen₃, hif] at hall
    omega
  have hringFree : (h₃.memory.words .ringPool).objFree = 0 := by
    have hall := hfree .ringPool
    rw [hheld.2.1, if_neg hdifs₃, hnrx₃, hring] at hall
    omega
  have hrefs₂ : ¬0 < r₂.dadp.refs := by
    rw [hr₂.refs_pos, hidle₂]
    exact fun h ↦ h rfl
  have hlast : (r₂.dadp.rxRings 1).ringVa ≠ 0 := by
    have hr₁ := hi₁.ready r₁ (List.mem_of_getElem? hn₁)
    obtain ⟨x, slot, hx, -⟩ := hr₁.filled (fun hnil ↦ by rw [hnil] at hlen₁; simp at hlen₁) 1
      (by omega)
    rw [hrx₂, hx.2.2]
    exact (hp.sound .ringPool).vaddr_ne hx.2.1
  have hleft : ¬NoneLeftOver a.pools h₃.memory r₂.dadp := by
    intro hnone
    have hcount := hnone hrefs₂ (by omega) (by rw [hnrx₂, hnrx₁]; exact hc.ifFits) 1 (by omega) hlast
    rcases hcount with hone | ⟨-, hle, -⟩ <;> omega
  have hrep₃ := hi₃.owned.represented hm
  rcases run_dpaNewIf hp hrep₃ hi₃.unlocked hr₂.pointer with
    ⟨dadp, s, hrun⟩ | ⟨hpos, -⟩ | ⟨-, x, rx, hrun, -⟩
  · refine ⟨a, ha, h₃, r₂, dadp, s, ?_, by rw [hints₃]; rfl, hrun, fun hsame ↦ hleft ?_⟩
    · rw [run_cons hexec₁, run_cons hexec₂, run_cons hexec₃]
      rfl
    · exact (dpaNewIf_none hp hrep₃ hi₃.unlocked hr₂.pointer hrun).2.2.2.2.2.2.1 hsame
  · exact absurd hpos hrefs₂
  · exact absurd (noneLeftOver_of_some hp hrep₃ hi₃.unlocked hr₂.pointer hrun) hleft

end

end Dpa.Kernel
