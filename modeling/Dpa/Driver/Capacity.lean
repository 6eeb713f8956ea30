import Dpa.Driver.Bnx2Sync
import Dpa.Kernel.Host

namespace Dpa.Driver

open Kernel Library MachineWord

inductive NicDriver
  | igb
  | ixgbe
  | bnx2

/-- The `num_rx_descs` a driver attaches with: the `rx_ring_count` of `igb_sw_init` and
`ixgbe_sw_init`, and `rx_max_ring_idx + 1`. -/
def NicDriver.numRxDescs (dpaNumRxDescs : ℕ) : NicDriver → ℕ
  | igb => alignUp (max (min dpaNumRxDescs 4096) 80) 8
  | ixgbe => alignUp (max (min dpaNumRxDescs 4096) 64) 8
  | bnx2 => bnx2FindMaxRing (dpaRxRingCount dpaNumRxDescs) maxRxRings * rxDescCnt

theorem NicDriver.numRxDescs_le (d : NicDriver) {n : ℕ} (h₁ : 256 ≤ n) (h₂ : n ≤ 4096) :
    d.numRxDescs n ≤ 4096 := by
  cases d with
  | igb =>
    rw [numRxDescs, alignUp]
    omega
  | ixgbe =>
    rw [numRxDescs, alignUp]
    omega
  | bnx2 => exact (Sized.of_count h₁ h₂).le.trans (by decide)

def numFreeBufs (c : Config) : ℕ :=
  alignUp (c.numIfs * c.numQueues * c.numRxDescs + 2) (4 / Nat.gcd 4 (c.bufSize / 1024)) - 2

section

variable (p : Params) (getFreePages : PoolId → ℕ → ℕ) (virtToPhys : ℕ → ℕ)

theorem objTotal_ge {q : PoolId} (hq : q ≠ .bufPool) :
    (dpaParamInit p).numIfs * (dpaParamInit p).numQueues + 2 ≤
      ((dpaParamInit p).pool getFreePages virtToPhys q).objTotal := by
  have hsized := pool_sized p getFreePages virtToPhys q
  have hsize := paramInit_objSize p q
  have hbounds := exactClusters_bounds hsize.1 hsize.2 pageSize ((dpaParamInit p).objNum q)
  rw [hsized.total, hsized.clusters, hsized.entries, ← paramInit_objNum p hq]
  exact hbounds.1

theorem objTotal_bufPool : ((dpaParamInit p).pool getFreePages virtToPhys .bufPool).objTotal =
    numFreeBufs (dpaParamInit p) + 2 := by
  have hsized := pool_sized p getFreePages virtToPhys .bufPool
  obtain ⟨b, hb1, hb16, hb⟩ := paramInit_bufSize p
  obtain ⟨-, hentries, -⟩ := bufPool_entries hb1 hb16
  have hpos : 0 < 4 / Nat.gcd 4 b :=
    Nat.div_pos (Nat.le_of_dvd (by decide) (Nat.gcd_dvd_left 4 b)) (Nat.gcd_pos_of_pos_left b (by decide))
  have hge := le_alignUp hpos ((dpaParamInit p).numIfs * (dpaParamInit p).numQueues *
    (dpaParamInit p).numRxDescs + 2)
  rw [hsized.total, hsized.clusters, hsized.entries, exactClusters, Config.objSize, hb, hentries,
    Config.objNum, paramInit_numBufs, numFreeBufs, hb, Nat.mul_div_cancel b (by decide)]
  exact (Nat.sub_add_cancel ((Nat.le_add_left 2 _).trans hge)).symm

theorem objSize_ge {nrx : ℕ} (hnrx : nrx ≤ (dpaParamInit p).numQueues) (d : NicDriver) :
    ifLen nrx ≤ ((dpaParamInit p).pool getFreePages virtToPhys .ifPool).objSize ∧
      ringLen (d.numRxDescs (dpaParamInit p).numRxDescs) ≤
        ((dpaParamInit p).pool getFreePages virtToPhys .ringPool).objSize := by
  have hq := paramInit_numQueues p
  have hd := paramInit_numRxDescs p
  have hdescs := d.numRxDescs_le hd.1 hd.2
  rw [(pool_sized p getFreePages virtToPhys .ifPool).objSize,
    (pool_sized p getFreePages virtToPhys .ringPool).objSize]
  constructor
  · refine le_trans ?_ (le_alignUp (by decide) _)
    rw [ifLen, Config.objSize]
    unfold sizeofDpaIf sizeofSsize u32
    omega
  · refine le_trans ?_ (le_alignUp (by decide) _)
    rw [ringLen, Config.objSize, pageSize]
    unfold sizeofDpaRing sizeofDpaSlot u32
    omega

/-- Interfaces of these ring and descriptor counts, none with more descriptors registered than it has
rings. -/
structure Attached (dims : List (ℕ × ℕ)) (h : Host) : Prop where
  dims : (h.interfaces.map fun r ↦ (r.dadp.numRxRings, r.dadp.numRxDescs)) = dims
  open_le : ∀ r ∈ h.interfaces, r.difs.length ≤ r.dadp.numRxRings

theorem sum_perm {l : List Registry} {n : ℕ} {r : Registry} (hn : l[n]? = some r)
    (f : Registry → ℕ) : (l.map f).sum = f r + ((l.eraseIdx n).map f).sum :=
  ((perm_getElem? hn).map f).sum_eq

theorem Attached.sum {dims : List (ℕ × ℕ)} {h : Host} (ha : Attached dims h) (f : ℕ × ℕ → ℕ) :
    (h.interfaces.map fun r ↦ f (r.dadp.numRxRings, r.dadp.numRxDescs)).sum = (dims.map f).sum := by
  rw [← ha.dims, List.map_map]
  rfl

/-- A call that leaves the counts as they are and adds a descriptor to an open interface at most. -/
theorem Attached.set {dims : List (ℕ × ℕ)} {h h' : Host} {n : ℕ} {r r' : Registry}
    (ha : Attached dims h) (hn : h.interfaces[n]? = some r) (hset : h'.interfaces = h.interfaces.set n r')
    (hnrx : r'.dadp.numRxRings = r.dadp.numRxRings) (hndesc : r'.dadp.numRxDescs = r.dadp.numRxDescs)
    (hle : r'.difs.length ≤ r.dadp.numRxRings) : Attached dims h' := by
  refine ⟨?_, fun x hx ↦ ?_⟩
  · obtain ⟨hlt, rfl⟩ := List.getElem?_eq_some_iff.1 hn
    rw [hset, List.map_set, hnrx, hndesc, ← ha.dims]
    refine List.ext_getElem (by simp) fun i h₁ h₂ ↦ ?_
    rw [List.getElem_set]
    split_ifs with hi
    · subst hi
      rw [List.getElem_map]
    · rfl
  · rw [hset] at hx
    rcases List.mem_or_eq_of_mem_set hx with hx | rfl
    · exact ha.open_le x hx
    · rwa [hnrx]

end

section

variable {p : Params} {getFreePages : PoolId → ℕ → ℕ} {virtToPhys : ℕ → ℕ} {a : DpaMemAllocator}
  {l : List (ℕ × NicDriver)} {h : Host} {n : ℕ} {r : Registry}

def attachDims (c : Config) (l : List (ℕ × NicDriver)) : List (ℕ × ℕ) :=
  l.map fun x ↦ (x.1, x.2.numRxDescs c.numRxDescs)

variable (hpools : a.pools = (dpaParamInit p).pool getFreePages virtToPhys)
  (hpages : Pages getFreePages (dpaParamInit p))
  (hm : Represented a.pools ⟨a.words, false⟩ fun q ↦ Finset.Ico 2 (a.pools q).objTotal)
  (hlen : l.length ≤ (dpaParamInit p).numIfs) (hq : ∀ x ∈ l, x.1 ≤ (dpaParamInit p).numQueues)
  (hi : HostInv a.pools (dpaParamInit p).bufSize ⟨a.words, false⟩
    (fun q ↦ Finset.Ico 2 (a.pools q).objTotal) h)
  (hat : Attached (attachDims (dpaParamInit p) l) h)

include hlen hq in
theorem sum_rings_le : ((attachDims (dpaParamInit p) l).map Prod.fst).sum ≤
    (dpaParamInit p).numIfs * (dpaParamInit p).numQueues := by
  rw [attachDims, List.map_map]
  have hsum := List.sum_le_card_nsmul
    (l.map (Prod.fst ∘ fun x ↦ (x.1, x.2.numRxDescs (dpaParamInit p).numRxDescs)))
    (dpaParamInit p).numQueues fun x hx ↦ by
      obtain ⟨y, hy, rfl⟩ := List.mem_map.1 hx
      exact hq y hy
  rw [List.length_map, smul_eq_mul] at hsum
  exact hsum.trans (Nat.mul_le_mul_right _ hlen)

include hat in
theorem attached_driver (hr : r ∈ h.interfaces) :
    ∃ x ∈ l, r.dadp.numRxRings = x.1 ∧ r.dadp.numRxDescs = x.2.numRxDescs (dpaParamInit p).numRxDescs := by
  have hmem : (r.dadp.numRxRings, r.dadp.numRxDescs) ∈ attachDims (dpaParamInit p) l := by
    rw [← hat.dims]
    exact List.mem_map.2 ⟨r, hr, rfl⟩
  obtain ⟨x, hx, heq⟩ := List.mem_map.1 hmem
  exact ⟨x, hx, (congrArg Prod.fst heq).symm, (congrArg Prod.snd heq).symm⟩

include hpools hpages hm hlen hq hi hat in
theorem capacity_room
    (hfit : ((attachDims (dpaParamInit p) l).map fun x ↦ x.1 * x.2).sum ≤ numFreeBufs (dpaParamInit p))
    (hn : h.interfaces[n]? = some r) (hopen : r.dadp.refs ≠ r.dadp.numRxRings) :
    ∃ dif dadp s, (dpaNewIf a.pools (dpaParamInit p).bufSize r.dadp).run (access a.pools) h.memory =
      some ((some dif, dadp), s) := by
  have hp : SoundPools a.pools (dpaParamInit p).bufSize := hpools ▸ soundPools hpages
  have hmem := List.mem_of_getElem? hn
  have hready := hi.ready r hmem
  have hdifs := hready.refs
  have hopenlt : r.difs.length < r.dadp.numRxRings := by
    have hle := hat.open_le r hmem
    omega
  obtain ⟨x, hx, hnrx, hndesc⟩ := attached_driver hat hmem
  have hsize := objSize_ge p getFreePages virtToPhys (hq x hx) x.2
  rw [← hpools, ← hnrx, ← hndesc] at hsize
  have hrings := sum_rings_le hlen hq
  have hifTotal := objTotal_ge p getFreePages virtToPhys (q := .ifPool) (by decide)
  have hringTotal := objTotal_ge p getFreePages virtToPhys (q := .ringPool) (by decide)
  have hbufTotal := objTotal_bufPool p getFreePages virtToPhys
  rw [← hpools] at hifTotal hringTotal hbufTotal
  have hfree := hi.objFree hm
  simp only [Nat.card_Ico] at hfree
  rw [← hat.sum Prod.fst, sum_perm hn] at hrings
  rw [← hat.sum fun x ↦ x.1 * x.2, sum_perm hn] at hfit
  dsimp only at hrings hfit
  have hothers : ∀ x ∈ h.interfaces.eraseIdx n, x ∈ h.interfaces := fun x hx ↦
    List.mem_of_mem_eraseIdx hx
  have hif : 0 < (h.memory.words .ifPool).objFree := by
    have hall := hfree .ifPool
    have hle : ((h.interfaces.eraseIdx n).map fun r ↦ (holding a.pools r .ifPool).length).sum ≤
        ((h.interfaces.eraseIdx n).map fun r ↦ r.dadp.numRxRings).sum :=
      List.sum_le_sum fun x hx ↦ by
        rw [((hi.ready x (hothers x hx)).length_holding hp).1]
        exact hat.open_le x (hothers x hx)
    rw [sum_perm hn, (hready.length_holding hp).1] at hall
    omega
  refine run_dpaNewIf_some hp (hi.owned.represented hm) hi.unlocked hif hsize.1 fun hrefs ↦ ?_
  have hnil : r.difs = [] := by
    by_contra hne
    exact hrefs (hready.refs_pos.2 hne)
  have hring := hfree .ringPool
  have hbuf := hfree .bufPool
  have hle : ((h.interfaces.eraseIdx n).map fun r ↦ (holding a.pools r .ringPool).length).sum ≤
      ((h.interfaces.eraseIdx n).map fun r ↦ r.dadp.numRxRings).sum :=
    List.sum_le_sum fun x hx ↦ by
      rw [((hi.ready x (hothers x hx)).length_holding hp).2.1]
      split_ifs <;> omega
  have hle' : ((h.interfaces.eraseIdx n).map fun r ↦ (holding a.pools r .bufPool).length).sum ≤
      ((h.interfaces.eraseIdx n).map fun r ↦ r.dadp.numRxRings * r.dadp.numRxDescs).sum :=
    List.sum_le_sum fun x hx ↦ by
      rw [((hi.ready x (hothers x hx)).length_holding hp).2.2]
      split_ifs <;> omega
  rw [sum_perm hn, holding_nil hnil, List.length_nil] at hring hbuf
  exact .inr ⟨hsize.2, by omega, by omega⟩

include hpools hpages hm hlen hq hi hat in
theorem capacity_step
    (hfit : ((attachDims (dpaParamInit p) l).map fun x ↦ x.1 * x.2).sum ≤ numFreeBufs (dpaParamInit p))
    (c : Call) : ∃ h', hostExec a.pools (dpaParamInit p).bufSize h c = some h' ∧
      HostInv a.pools (dpaParamInit p).bufSize ⟨a.words, false⟩
        (fun q ↦ Finset.Ico 2 (a.pools q).objTotal) h' ∧
      Attached (attachDims (dpaParamInit p) l) h' := by
  have hp : SoundPools a.pools (dpaParamInit p).bufSize := hpools ▸ soundPools hpages
  cases c with
  | register n regOk =>
    cases hn : h.interfaces[n]? with
    | none => exact ⟨h, by rw [hostExec, hostCall, hn], hi, hat⟩
    | some r =>
      have hmem := List.mem_of_getElem? hn
      have hready := hi.ready r hmem
      have hclean (hopen : r.dadp.refs ≠ r.dadp.numRxRings) :
          NoneLeftOver a.pools h.memory r.dadp := by
        obtain ⟨dif, dadp, s, hnew⟩ := capacity_room hpools hpages hm hlen hq hi hat hfit hn hopen
        exact noneLeftOver_of_some hp (hi.owned.represented hm) hi.unlocked hready.pointer hnew
      obtain ⟨h', r', hexec, hi', hset, hdifs, hnrx, hndesc⟩ :=
        hi.tryRegister hp hm hn hclean regOk
      refine ⟨h', hexec, hi', hat.set hn hset hnrx hndesc ?_⟩
      have hle := hat.open_le r hmem
      have hrefs := hready.refs
      rcases hdifs with hsame | ⟨hopen, dif, hmore⟩
      · rwa [hsame]
      · rw [hmore, List.length_append, List.length_singleton]
        omega
  | unregister n k =>
    cases hn : h.interfaces[n]? with
    | none => exact ⟨h, by rw [hostExec, hostCall, hn], hi, hat⟩
    | some r =>
      obtain ⟨h', r', hexec, hi', hset, hdifs, -, hnrx, hndesc⟩ := hi.unregister hp hm hn k
      refine ⟨h', hexec, hi', hat.set hn hset hnrx hndesc ?_⟩
      have hle := hat.open_le r (List.mem_of_getElem? hn)
      have hlt := List.length_eraseIdx_le r.difs k
      rw [hdifs]
      omega

include hpools hpages hm hlen hq in
theorem capacity_run
    (hfit : ((attachDims (dpaParamInit p) l).map fun x ↦ x.1 * x.2).sum ≤ numFreeBufs (dpaParamInit p))
    (cs : List Call)
    (hi : HostInv a.pools (dpaParamInit p).bufSize ⟨a.words, false⟩
      (fun q ↦ Finset.Ico 2 (a.pools q).objTotal) h)
    (hat : Attached (attachDims (dpaParamInit p) l) h) :
    ∃ h', run (hostExec a.pools (dpaParamInit p).bufSize) cs h = some h' ∧
      HostInv a.pools (dpaParamInit p).bufSize ⟨a.words, false⟩
        (fun q ↦ Finset.Ico 2 (a.pools q).objTotal) h' ∧
      Attached (attachDims (dpaParamInit p) l) h' := by
  induction cs generalizing h with
  | nil => exact ⟨h, rfl, hi, hat⟩
  | cons c cs ih =>
    obtain ⟨h₁, hexec, hi₁, hat₁⟩ := capacity_step hpools hpages hm hlen hq hi hat hfit c
    obtain ⟨h', hrun, hi', hat'⟩ := ih hi₁ hat₁
    exact ⟨h', (run_cons hexec).trans hrun, hi', hat'⟩

theorem Attached.start : Attached (attachDims (dpaParamInit p) l)
    (Host.start a (attachDims (dpaParamInit p) l)) where
  dims := by
    rw [Host.start, List.map_map]
    exact List.map_id _
  open_le r hr := by
    obtain ⟨d, -, rfl⟩ := List.mem_map.1 hr
    exact Nat.zero_le _

include hpools hpages hm hi hat in
theorem registered_at {k : ℕ} (hn : h.interfaces[k]? = some r)
    (hnew : r.dadp.refs ≠ r.dadp.numRxRings → ∃ dif dadp s,
      (dpaNewIf a.pools (dpaParamInit p).bufSize r.dadp).run (access a.pools) h.memory =
        some ((some dif, dadp), s)) :
    ∃ h' r', hostExec a.pools (dpaParamInit p).bufSize h (.register k true) = some h' ∧
      HostInv a.pools (dpaParamInit p).bufSize ⟨a.words, false⟩
        (fun q ↦ Finset.Ico 2 (a.pools q).objTotal) h' ∧
      Attached (attachDims (dpaParamInit p) l) h' ∧ h'.interfaces = h.interfaces.set k r' ∧
      (r'.difs ≠ [] ∨ r'.dadp.numRxRings = 0) := by
  have hp : SoundPools a.pools (dpaParamInit p).bufSize := hpools ▸ soundPools hpages
  have hmem := List.mem_of_getElem? hn
  have hready := hi.ready r hmem
  have hle := hat.open_le r hmem
  have hrefs := hready.refs
  by_cases hfull : r.dadp.refs = r.dadp.numRxRings
  · refine ⟨_, r, hostCall_of hn (run_dpaRegIf_full hfull true),
      hi.of_leaves hn ⟨hready, rfl, rfl, hi.split hn, hi.unlocked⟩, hat.set hn rfl rfl rfl hle, rfl,
      ?_⟩
    rw [← List.length_pos_iff]
    omega
  · obtain ⟨dif, dadp, s, hsome⟩ := hnew hfull
    obtain ⟨h', r', hexec, hi', hset, hdifs, hnrx, hndesc⟩ := hi.register hp hm hn hfull hsome
    refine ⟨h', r', hexec, hi', hat.set hn hset hnrx hndesc ?_, hset, .inl ?_⟩
    · rw [hdifs, List.length_append, List.length_singleton]
      omega
    · rw [hdifs]
      exact List.concat_ne_nil dif r.difs

include hpools hpages hm in
theorem registered_each {h₀ : Host}
    (hi₀ : HostInv a.pools (dpaParamInit p).bufSize ⟨a.words, false⟩
      (fun q ↦ Finset.Ico 2 (a.pools q).objTotal) h₀)
    (hat₀ : Attached (attachDims (dpaParamInit p) l) h₀)
    (hnew : ∀ cs, ∃ h, run (hostExec a.pools (dpaParamInit p).bufSize) cs h₀ = some h ∧
      ∀ r ∈ h.interfaces, r.dadp.refs ≠ r.dadp.numRxRings → ∃ dif dadp s,
        (dpaNewIf a.pools (dpaParamInit p).bufSize r.dadp).run (access a.pools) h.memory =
          some ((some dif, dadp), s)) (k : ℕ) :
    ∃ h, run (hostExec a.pools (dpaParamInit p).bufSize)
        ((List.range k).map fun n ↦ Call.register n true) h₀ = some h ∧
      HostInv a.pools (dpaParamInit p).bufSize ⟨a.words, false⟩
        (fun q ↦ Finset.Ico 2 (a.pools q).objTotal) h ∧
      Attached (attachDims (dpaParamInit p) l) h ∧
      ∀ n < k, ∀ r, h.interfaces[n]? = some r → r.difs ≠ [] ∨ r.dadp.numRxRings = 0 := by
  induction k with
  | zero => exact ⟨h₀, rfl, hi₀, hat₀, fun n hn ↦ absurd hn (Nat.not_lt_zero n)⟩
  | succ k ih =>
    obtain ⟨h, hrun, hi, hat, hdone⟩ := ih
    obtain ⟨h', hrun', hok⟩ := hnew ((List.range k).map fun n ↦ Call.register n true)
    obtain rfl : h = h' := Option.some.inj (hrun.symm.trans hrun')
    rw [List.range_succ, List.map_append, List.map_singleton, run_snoc hrun]
    cases hn : h.interfaces[k]? with
    | none =>
      refine ⟨h, by rw [hostExec, hostCall, hn], hi, hat, fun n hlt r hr ↦ ?_⟩
      rcases Nat.lt_succ_iff_lt_or_eq.1 hlt with hlt | rfl
      · exact hdone n hlt r hr
      · rw [hn] at hr
        cases hr
    | some r =>
      obtain ⟨h', r', hexec, hi', hat', hset, hr'⟩ :=
        registered_at hpools hpages hm hi hat hn (hok r (List.mem_of_getElem? hn))
      refine ⟨h', hexec, hi', hat', fun n hlt x hx ↦ ?_⟩
      rw [hset, List.getElem?_set] at hx
      rcases Nat.lt_succ_iff_lt_or_eq.1 hlt with hlt | rfl
      · rw [if_neg (by omega)] at hx
        exact hdone n hlt x hx
      · rw [if_pos rfl] at hx
        split_ifs at hx
        cases hx
        exact hr'

theorem sum_attachDims : ((attachDims (dpaParamInit p) l).map fun x ↦ x.1 * x.2) =
    l.map fun x ↦ x.1 * x.2.numRxDescs (dpaParamInit p).numRxDescs := by
  rw [attachDims, List.map_map]
  rfl

include hpages in
theorem fits_of_registered
    (ha : dpaMemInit getFreePages virtToPhys (dpaParamInit p) = some a)
    (hnew : ∀ cs, ∃ h, run (hostExec a.pools (dpaParamInit p).bufSize) cs
        (Host.start a (attachDims (dpaParamInit p) l)) = some h ∧
      ∀ r ∈ h.interfaces, r.dadp.refs ≠ r.dadp.numRxRings → ∃ dif dadp s,
        (dpaNewIf a.pools (dpaParamInit p).bufSize r.dadp).run (access a.pools) h.memory =
          some ((some dif, dadp), s)) :
    (l.map fun x ↦ x.1 * x.2.numRxDescs (dpaParamInit p).numRxDescs).sum ≤
      numFreeBufs (dpaParamInit p) := by
  obtain ⟨hpools, hp, hm⟩ := loaded_pools hpages ha
  obtain ⟨h, -, hi, hat, hdone⟩ :=
    registered_each hpools hpages hm (.start _) .start hnew l.length
  have hlength : h.interfaces.length = l.length := by
    have hdims := congrArg List.length hat.dims
    rwa [List.length_map, attachDims, List.length_map] at hdims
  have hheld : ∀ r ∈ h.interfaces, (holding a.pools r .bufPool).length =
      r.dadp.numRxRings * r.dadp.numRxDescs := by
    intro r hr
    obtain ⟨n, hlt, hget⟩ := List.mem_iff_getElem.1 hr
    rw [((hi.ready r hr).length_holding hp).2.2]
    rcases hdone n (hlength ▸ hlt) r (List.getElem?_eq_some_iff.2 ⟨hlt, hget⟩) with hne | hzero
    · rw [if_neg hne]
    · rw [hzero, Nat.zero_mul, ite_self]
  have hbufTotal := objTotal_bufPool p getFreePages virtToPhys
  rw [← hpools] at hbufTotal
  have hfree := hi.objFree hm .bufPool
  rw [List.map_congr_left hheld, hat.sum fun x ↦ x.1 * x.2, Nat.card_Ico, hbufTotal] at hfree
  rw [← sum_attachDims]
  omega

include hpages hlen hq in
/-- All interfaces can be registered, with all their descriptors and in any order, if and only if
their rings fit into the buffers. -/
theorem registers_all_iff
    (ha : dpaMemInit getFreePages virtToPhys (dpaParamInit p) = some a) :
    (∀ cs, ∃ h, run (hostExec a.pools (dpaParamInit p).bufSize) cs
        (Host.start a (attachDims (dpaParamInit p) l)) = some h ∧
      ∀ r ∈ h.interfaces, r.dadp.refs ≠ r.dadp.numRxRings → ∃ dif dadp s,
        (dpaNewIf a.pools (dpaParamInit p).bufSize r.dadp).run (access a.pools) h.memory =
          some ((some dif, dadp), s)) ↔
    (l.map fun x ↦ x.1 * x.2.numRxDescs (dpaParamInit p).numRxDescs).sum ≤
      numFreeBufs (dpaParamInit p) := by
  refine ⟨fits_of_registered hpages ha, fun hfit cs ↦ ?_⟩
  obtain ⟨hpools, -, hm⟩ := loaded_pools hpages ha
  rw [← sum_attachDims] at hfit
  obtain ⟨h, hrun, hi, hat⟩ := capacity_run hpools hpages hm hlen hq hfit cs (.start _) .start
  refine ⟨h, hrun, fun r hr hopen ↦ ?_⟩
  obtain ⟨n, hlt, hget⟩ := List.mem_iff_getElem.1 hr
  exact capacity_room hpools hpages hm hlen hq hi hat hfit
    (List.getElem?_eq_some_iff.2 ⟨hlt, hget⟩) hopen

end

/-- An igb interface of two rings and a bnx2 interface of one ring take all buffers there are for two
interfaces of two queues. One bnx2 interface alone takes twice the buffers of one queue. -/
theorem registers_all_iff_bnx2 :
    (∃ a, dpaMemInit farPages id (dpaParamInit ⟨2, 2, 256, 2048⟩) = some a ∧
      ∀ cs, ∃ h, run (hostExec a.pools (dpaParamInit ⟨2, 2, 256, 2048⟩).bufSize) cs
          (Host.start a (attachDims (dpaParamInit ⟨2, 2, 256, 2048⟩) [(2, .igb), (1, .bnx2)])) =
          some h ∧
        ∀ r ∈ h.interfaces, r.dadp.refs ≠ r.dadp.numRxRings → ∃ dif dadp s,
          (dpaNewIf a.pools (dpaParamInit ⟨2, 2, 256, 2048⟩).bufSize r.dadp).run (access a.pools)
            h.memory = some ((some dif, dadp), s)) ∧
    ∃ a, dpaMemInit farPages id (dpaParamInit ⟨1, 1, 256, 2048⟩) = some a ∧
      ¬∀ cs, ∃ h, run (hostExec a.pools (dpaParamInit ⟨1, 1, 256, 2048⟩).bufSize) cs
          (Host.start a (attachDims (dpaParamInit ⟨1, 1, 256, 2048⟩) [(1, .bnx2)])) = some h ∧
        ∀ r ∈ h.interfaces, r.dadp.refs ≠ r.dadp.numRxRings → ∃ dif dadp s,
          (dpaNewIf a.pools (dpaParamInit ⟨1, 1, 256, 2048⟩).bufSize r.dadp).run (access a.pools)
            h.memory = some ((some dif, dadp), s) := by
  obtain ⟨a, ha, -⟩ := dpaMemInit_eq ⟨2, 2, 256, 2048⟩ id (farPages_pages _)
  obtain ⟨b, hb, -⟩ := dpaMemInit_eq ⟨1, 1, 256, 2048⟩ id (farPages_pages _)
  refine ⟨⟨a, ha, ?_⟩, b, hb, ?_⟩
  · exact (registers_all_iff (farPages_pages _) (by decide) (by decide) ha).2 (by decide +kernel)
  · exact fun hall ↦ absurd ((registers_all_iff (farPages_pages _) (by decide) (by decide) hb).1 hall)
      (by decide +kernel)

/-- A bnx2 ring for 256 descriptors takes 512 buffers, and there are 256. -/
theorem bnx2_out_of_buffers : ∃ a, dpaMemInit farPages id (dpaParamInit ⟨1, 1, 256, 2048⟩) = some a ∧
    ¬∀ cs, ∃ h, run (hostExec a.pools (dpaParamInit ⟨1, 1, 256, 2048⟩).bufSize) cs
        (Host.start a (attachDims (dpaParamInit ⟨1, 1, 256, 2048⟩) [(1, .bnx2)])) = some h ∧
      ∀ r ∈ h.interfaces, r.dadp.refs ≠ r.dadp.numRxRings → ∃ dif dadp s,
        (dpaNewIf a.pools (dpaParamInit ⟨1, 1, 256, 2048⟩).bufSize r.dadp).run (access a.pools)
          h.memory = some ((some dif, dadp), s) := by
  obtain ⟨a, ha, -⟩ := dpaMemInit_eq ⟨1, 1, 256, 2048⟩ id (farPages_pages _)
  refine ⟨a, ha, fun hall ↦ ?_⟩
  exact absurd (fits_of_registered (farPages_pages _) ha hall) (by decide +kernel)

end Dpa.Driver
