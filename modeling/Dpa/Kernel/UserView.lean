import Dpa.Kernel.AddressSpace

namespace Dpa.Kernel

open Function Library MachineWord

def regOffset (pools : PoolId → DpaObjPool) (dif : DpaIf) : ℕ := u32 (dpaIfOffset pools dif.va)

def dpaIf (b : ℤ) (o : ℕ) : ℤ := b + o

/-- `DPA_RX_RING`; `dif` is the address and `fields` what is there. -/
def dpaRxRing (dif : ℤ) (fields : DpaIf) (index : ℕ) : ℤ := dif + fields.ringOfs index

/-- `DPA_BUF`; `ring` is the address and `fields` what is there. -/
def dpaBuf (ring : ℤ) (fields : RxRing) (index : ℕ) : ℤ :=
  ring + fields.bufOfs + u32 (index * fields.ring.bufSize)

def Entry (pool : DpaObjPool) (va : ℕ) : Prop := va ≠ 0 ∧ ∃ x, va = (pool.addrTbl x).vaddr

structure RingSet (pools : PoolId → DpaObjPool) (bufSize : ℕ) (rx : RxRing) : Prop where
  entry : Entry (pools .ringPool) rx.ringVa
  bufOfs : rx.bufOfs =
    u32 ((pools .ifPool).memTotal + (pools .ringPool).memTotal) - dpaRingOffset pools rx.ringVa
  bufSize : rx.ring.bufSize = u16 bufSize

/-- What the descriptors of an interface know of its rings is right. -/
structure Registry.Linked (pools : PoolId → DpaObjPool) (bufSize : ℕ) (r : Registry) : Prop where
  refs : r.dadp.refs = r.difs.length
  rings : r.difs ≠ [] → ∀ j < r.dadp.numRxRings, RingSet pools bufSize (r.dadp.rxRings j)
  entry : ∀ d ∈ r.difs, Entry (pools .ifPool) d.va
  ringOfs : ∀ d ∈ r.difs, ∀ j < r.dadp.numRxRings, d.ringOfs j =
    dpaRingOffset pools (r.dadp.rxRings j).ringVa - dpaIfOffset pools d.va

section

variable {pools : PoolId → DpaObjPool} {pool : DpaObjPool} {bufSize ndesc : ℕ}

theorem mallocLoop_yields (p : PoolId) (fuel i : ℕ) : (mallocLoop pool p fuel i).Yields (Entry pool) := by
  induction fuel generalizing i with
  | zero => exact fun r ↦ r.elim
  | succ fuel ih =>
    rw [mallocLoop]
    refine Program.yields_bind fun cur ↦ ?_
    split_ifs with hcur
    · exact ih (i + 1)
    · refine Program.yields_bind fun _ ↦ Program.yields_bind fun _ ↦ ?_
      dsimp only
      split_ifs with hva
      · exact ih i
      · exact ⟨hva, _, rfl⟩

/-- `dpa_obj_malloc` answers with an entry of the table, whatever is in the bitmap. -/
theorem dpaObjMalloc_yields (p : PoolId) (len : ℤ) :
    (dpaObjMalloc pool p len).Yields fun va ↦ va = 0 ∨ Entry pool va := by
  rw [dpaObjMalloc]
  split_ifs
  · exact .inl rfl
  · refine Program.yields_bind fun count ↦ ?_
    split_ifs
    · exact .inl rfl
    · exact (mallocLoop_yields p _ 0).mono fun va h ↦ .inr h

theorem newRingsLoop_yields (m i : ℕ) (rx : ℕ → RxRing) :
    (newRingsLoop pools bufSize ndesc m i rx).Yields fun a ↦ a.1 = none →
      (∀ j, i ≤ j → j < i + m → RingSet pools bufSize (a.2 j)) ∧ ∀ j < i, a.2 j = rx j := by
  induction m generalizing i rx with
  | zero => exact fun _ ↦ ⟨fun j hj hj' ↦ by omega, fun _ _ ↦ rfl⟩
  | succ m ih =>
    rw [newRingsLoop]
    refine (dpaObjMalloc_yields .ringPool _).bind fun va hva ↦ ?_
    split_ifs with hzero
    · exact fun h ↦ by cases h
    · refine Program.yields_bind fun bufs ↦ ?_
      dsimp only
      split_ifs
      · refine (ih (i + 1) _).mono fun a ha hnone ↦ ?_
        obtain ⟨hset, hkeep⟩ := ha hnone
        refine ⟨fun j hj hj' ↦ ?_, fun j hj ↦ ?_⟩
        · rcases hj.eq_or_lt with rfl | hlt
          · rw [hkeep i (Nat.lt_succ_self i), update_self]
            exact ⟨hva.resolve_left hzero, rfl, rfl⟩
          · exact hset j hlt (by omega)
        · rw [hkeep j (by omega), update_of_ne (by omega)]
      · exact fun h ↦ by cases h

structure NewIf (pools : PoolId → DpaObjPool) (bufSize : ℕ) (dadp : DpaAdapter) (d : DpaIf)
    (dadp' : DpaAdapter) : Prop where
  refs : dadp'.refs = dadp.refs + 1
  entry : Entry (pools .ifPool) d.va
  fields : d = newIf pools d.va dadp'
  kept : 0 < dadp.refs → dadp'.rxRings = dadp.rxRings
  rings : ¬0 < dadp.refs → ∀ j < dadp.numRxRings, RingSet pools bufSize (dadp'.rxRings j)

theorem dpaNewIf_yields (dadp : DpaAdapter) : (dpaNewIf pools bufSize dadp).Yields fun a ↦
    a.2.numRxRings = dadp.numRxRings ∧ a.2.numRxDescs = dadp.numRxDescs ∧
      (a.1 = none → a.2.refs = dadp.refs ∧ (0 < dadp.refs → a.2 = dadp)) ∧
      ∀ d, a.1 = some d → NewIf pools bufSize dadp d a.2 := by
  rw [dpaNewIf]
  refine Program.yields_bind fun _ ↦ (dpaObjMalloc_yields .ifPool _).bind fun va hva ↦ ?_
  split_ifs with hzero hrefs
  · refine Program.yields_bind fun _ ↦ ⟨rfl, rfl, fun _ ↦ ⟨rfl, fun _ ↦ rfl⟩, fun d hd ↦ ?_⟩
    cases hd
  · dsimp only
    refine Program.yields_bind fun _ ↦
      ⟨rfl, rfl, fun h ↦ absurd h (Option.some_ne_none _), fun d hd ↦ ?_⟩
    cases hd
    exact ⟨rfl, hva.resolve_left hzero, rfl, fun _ ↦ rfl, fun h ↦ absurd hrefs h⟩
  · refine (newRingsLoop_yields _ _ _).bind fun a ha ↦ ?_
    obtain ⟨failed, rx⟩ := a
    cases failed with
    | none =>
      refine Program.yields_bind fun _ ↦
        ⟨rfl, rfl, fun h ↦ absurd h (Option.some_ne_none _), fun d hd ↦ ?_⟩
      cases hd
      refine ⟨rfl, hva.resolve_left hzero, rfl, fun h ↦ absurd h hrefs, fun _ j hj ↦ ?_⟩
      exact (ha rfl).1 j (Nat.zero_le j) (by omega)
    | some i =>
      refine Program.yields_bind fun _ ↦ Program.yields_bind fun _ ↦ Program.yields_bind fun _ ↦
        Program.yields_bind fun _ ↦ ⟨rfl, rfl, fun _ ↦ ⟨rfl, fun h ↦ absurd h hrefs⟩, fun d hd ↦ ?_⟩
      cases hd

theorem dpaDestructorLocked_yields (dadp : DpaAdapter) (va : ℕ) :
    (dpaDestructorLocked pools dadp va).Yields fun a ↦ a = { dadp with refs := dadp.refs - 1 } := by
  rw [dpaDestructorLocked]
  split_ifs
  · exact Program.yields_bind fun _ ↦ rfl
  · exact Program.yields_bind fun _ ↦ rfl

variable {r : Registry}

theorem dpaRegIf_yields (hr : r.Linked pools bufSize) (regOk : Bool) :
    (dpaRegIf pools bufSize regOk r).Yields fun r' ↦ r'.Linked pools bufSize := by
  rw [dpaRegIf]
  refine (regEnter_yields (dpaNewIf_yields r.dadp)).bind fun a ha ↦ ?_
  obtain ⟨point, dadp⟩ := a
  obtain heq | ⟨dif, hpoint, hnrx, -, hnone, hsome⟩ := ha
  · cases heq
    exact hr
  dsimp only at hpoint hnrx hnone hsome
  rw [hpoint]
  have hpos : 0 < r.dadp.refs ↔ r.difs ≠ [] := by
    rw [hr.refs, ← List.length_pos_iff]
    omega
  cases dif with
  | none =>
    obtain ⟨hrefs, hkeep⟩ := hnone rfl
    refine ⟨hrefs.trans hr.refs, fun hdifs ↦ ?_, hr.entry, fun d hd ↦ ?_⟩
    · rw [hkeep (hpos.2 hdifs)]
      exact hr.rings hdifs
    · rw [hkeep (hpos.2 (List.ne_nil_of_mem hd))]
      exact hr.ringOfs d hd
  | some dif =>
    obtain ⟨hrefs, hentry, hfields, hkept, hrings⟩ := hsome dif rfl
    have hmore : ∀ e, Registry.Linked pools bufSize ⟨dadp, e, r.difs ++ [dif]⟩ := by
      intro e
      refine ⟨?_, fun _ j hj ↦ ?_, fun d hd ↦ ?_, fun d hd j hj ↦ ?_⟩
      · simp [hrefs, hr.refs]
      · rw [hnrx] at hj
        by_cases hdifs : r.difs = []
        · exact hrings (fun h ↦ hpos.1 h hdifs) j hj
        · rw [hkept (hpos.2 hdifs)]
          exact hr.rings hdifs j hj
      · rcases List.mem_append.1 hd with hd | hd
        · exact hr.entry d hd
        · rw [List.mem_singleton.1 hd]
          exact hentry
      · rcases List.mem_append.1 hd with hd | hd
        · dsimp only at hj ⊢
          rw [hkept (hpos.2 (List.ne_nil_of_mem hd))]
          exact hr.ringOfs d hd j (hnrx ▸ hj)
        · rw [List.mem_singleton.1 hd]
          exact congrFun (congrArg DpaIf.ringOfs hfields) j
    dsimp only [RegPoint.of]
    by_cases hon : r.enabled = true
    · rw [if_pos hon]
      exact hmore _
    rw [if_neg hon]
    dsimp only
    split_ifs with hok
    · exact hmore _
    · refine (dpaDestructorLocked_yields dadp dif.va).bind fun dadp' hdadp ↦ ?_
      subst hdadp
      refine ⟨?_, fun hdifs ↦ ?_, hr.entry, fun d hd ↦ ?_⟩
      · dsimp only
        rw [hrefs, hr.refs]
        omega
      · dsimp only
        rw [hkept (hpos.2 hdifs), hnrx]
        exact hr.rings hdifs
      · dsimp only
        rw [hkept (hpos.2 (List.ne_nil_of_mem hd)), hnrx]
        exact hr.ringOfs d hd

theorem dpaDestructor_yields (hr : r.Linked pools bufSize) (k : ℕ) :
    (dpaDestructor pools k r).Yields fun r' ↦ r'.Linked pools bufSize := by
  rw [dpaDestructor]
  cases hk : r.difs[k]? with
  | none => exact hr
  | some dif =>
    refine (dpaDestructorLocked_yields r.dadp dif.va).bind fun dadp hdadp ↦ ?_
    subst hdadp
    obtain ⟨hlt, -⟩ := List.getElem?_eq_some_iff.1 hk
    have hrefs := hr.refs
    refine ⟨?_, fun hdifs ↦ hr.rings fun hnil ↦ hdifs ?_, fun d hd ↦ hr.entry d (List.mem_of_mem_eraseIdx hd),
      fun d hd ↦ hr.ringOfs d (List.mem_of_mem_eraseIdx hd)⟩
    · dsimp only
      rw [List.length_eraseIdx_of_lt hlt]
      omega
    · dsimp only
      rw [hnil, List.eraseIdx_nil]

theorem hostExec_linked {h h' : Host} (hr : ∀ r ∈ h.interfaces, r.Linked pools bufSize) {c : Call}
    (hexec : hostExec pools bufSize h c = some h') :
    ∀ r ∈ h'.interfaces, r.Linked pools bufSize := by
  have hcall : ∀ n f, (∀ r : Registry, r.Linked pools bufSize →
      Program.Yields (fun r' : Registry ↦ r'.Linked pools bufSize) (f r)) →
      hostCall pools n f h = some h' → ∀ r ∈ h'.interfaces, r.Linked pools bufSize := by
    intro n f hf hcall r hmem
    rw [hostCall] at hcall
    cases hn : h.interfaces[n]? with
    | none =>
      rw [hn] at hcall
      cases hcall
      exact hr r hmem
    | some r₀ =>
      rw [hn] at hcall
      obtain ⟨⟨r', s'⟩, hrun, rfl⟩ := Option.map_eq_some_iff.1 hcall
      rcases List.mem_or_eq_of_mem_set hmem with hmem | rfl
      · exact hr r hmem
      · exact (hf r₀ (hr r₀ (List.mem_of_getElem? hn))).of_run hrun
  cases c with
  | register n regOk => exact hcall n _ (fun r hr ↦ dpaRegIf_yields hr regOk) hexec
  | unregister n k => exact hcall n _ (fun r hr ↦ dpaDestructor_yields hr k) hexec

theorem run_linked {h h' : Host} (hr : ∀ r ∈ h.interfaces, r.Linked pools bufSize) {cs : List Call}
    (hrun : run (hostExec pools bufSize) cs h = some h') :
    ∀ r ∈ h'.interfaces, r.Linked pools bufSize :=
  run_preserves (P := fun h ↦ ∀ r ∈ h.interfaces, r.Linked pools bufSize)
    (fun _ _ _ hr hexec ↦ hostExec_linked hr hexec) hr hrun

end

section

variable {p : Params} {getFreePages : PoolId → ℕ → ℕ} {virtToPhys : ℕ → ℕ}

theorem Entry.object {q : PoolId} {va : ℕ}
    (h : Entry ((dpaParamInit p).pool getFreePages virtToPhys q) va) :
    ∃ x < ((dpaParamInit p).pool getFreePages virtToPhys q).objTotal,
      va = (((dpaParamInit p).pool getFreePages virtToPhys q).addrTbl x).vaddr := by
  obtain ⟨hne, x, hx⟩ := h
  by_cases hlt : x < ((dpaParamInit p).pool getFreePages virtToPhys q).objTotal
  · exact ⟨x, hlt, hx⟩
  · have hnull : ((dpaParamInit p).pool getFreePages virtToPhys q).addrTbl x = ⟨0, 0⟩ := if_neg hlt
    rw [hnull] at hx
    exact absurd hx hne

theorem poolOffset_le (q : PoolId) :
    (dpaParamInit p).poolOffset q + (dpaParamInit p).memory q ≤ (dpaParamInit p).bytes := by
  rw [← memory_sum]
  cases q with
  | ifPool =>
    rw [Config.poolOffset]
    omega
  | ringPool =>
    rw [Config.poolOffset]
    omega
  | bufPool =>
    rw [Config.poolOffset]

theorem dpaObjOffset_lt (hpages : Pages getFreePages (dpaParamInit p)) {q : PoolId} {x : ℕ}
    (hx : x < ((dpaParamInit p).pool getFreePages virtToPhys q).objTotal) :
    dpaObjOffset ((dpaParamInit p).pool getFreePages virtToPhys q)
        (((dpaParamInit p).pool getFreePages virtToPhys q).addrTbl x).vaddr <
      (dpaParamInit p).memory q := by
  have hsound : ((dpaParamInit p).pool getFreePages virtToPhys q).Sound :=
    (soundPools hpages).sound q
  have hsized := pool_sized p getFreePages virtToPhys q
  have hmod := hsound.mod_le x
  have hpos := hsound.objSize_pos
  have hdiv := Nat.mul_le_mul_right ((dpaParamInit p).pool getFreePages virtToPhys q).clstSize
    (Nat.succ_le_of_lt (hsound.div_lt hx))
  have hmem : (dpaParamInit p).memory q =
      ((dpaParamInit p).pool getFreePages virtToPhys q).numClusters *
        ((dpaParamInit p).pool getFreePages virtToPhys q).clstSize := by
    rw [hsized.clusters, hsized.clstSize]
    rfl
  rw [dpaObjOffset_vaddr hsound hx, hmem]
  rw [Nat.succ_mul] at hdiv
  omega

variable (hpages : Pages getFreePages (dpaParamInit p)) (hlt : (dpaParamInit p).bytes < 2 ^ 31)

include hlt in
theorem memTotal_eq (q : PoolId) :
    ((dpaParamInit p).pool getFreePages virtToPhys q).memTotal = (dpaParamInit p).memory q := by
  have hle := poolOffset_le (p := p) q
  rw [(pool_sized p getFreePages virtToPhys q).memTotal, u32_natCast (by omega)]

include hlt in
theorem dpaRingOffset_eq (x : ℕ) :
    dpaRingOffset ((dpaParamInit p).pool getFreePages virtToPhys)
        (((dpaParamInit p).pool getFreePages virtToPhys .ringPool).addrTbl x).vaddr =
      (dpaParamInit p).userOffset ((dpaParamInit p).pool getFreePages virtToPhys) .ringPool x := by
  rw [dpaRingOffset, memTotal_eq hlt, Config.userOffset, Config.poolOffset]
  push_cast
  rfl

include hpages hlt in
theorem dpaIf_regOffset {d : DpaIf} {x : ℕ}
    (hx : x < ((dpaParamInit p).pool getFreePages virtToPhys .ifPool).objTotal)
    (hd : d.va = (((dpaParamInit p).pool getFreePages virtToPhys .ifPool).addrTbl x).vaddr) (b : ℤ) :
    dpaIf b (regOffset ((dpaParamInit p).pool getFreePages virtToPhys) d) =
      b + (dpaParamInit p).userOffset ((dpaParamInit p).pool getFreePages virtToPhys) .ifPool x := by
  have hofs := dpaObjOffset_lt hpages hx
  have hle := poolOffset_le (p := p) .ifPool
  rw [dpaIf, regOffset, dpaIfOffset, hd, u32_natCast (by omega), Config.userOffset, Config.poolOffset,
    Nat.zero_add]

include hpages hlt in
theorem dpaRxRing_eq {d : DpaIf} {x y : ℕ} {rx : RxRing} {j : ℕ}
    (hx : x < ((dpaParamInit p).pool getFreePages virtToPhys .ifPool).objTotal)
    (hd : d.va = (((dpaParamInit p).pool getFreePages virtToPhys .ifPool).addrTbl x).vaddr)
    (hy : rx.ringVa = (((dpaParamInit p).pool getFreePages virtToPhys .ringPool).addrTbl y).vaddr)
    (hofs : d.ringOfs j = dpaRingOffset ((dpaParamInit p).pool getFreePages virtToPhys) rx.ringVa -
      dpaIfOffset ((dpaParamInit p).pool getFreePages virtToPhys) d.va) (b : ℤ) :
    dpaRxRing (dpaIf b (regOffset ((dpaParamInit p).pool getFreePages virtToPhys) d)) d j =
      b + (dpaParamInit p).userOffset ((dpaParamInit p).pool getFreePages virtToPhys) .ringPool y := by
  have hif : (dpaIfOffset ((dpaParamInit p).pool getFreePages virtToPhys) d.va : ℤ) =
      (dpaParamInit p).userOffset ((dpaParamInit p).pool getFreePages virtToPhys) .ifPool x := by
    rw [dpaIfOffset, hd, Config.userOffset, Config.poolOffset, Nat.zero_add]
  rw [dpaRxRing, dpaIf_regOffset hpages hlt hx hd, hofs, hif, hy, dpaRingOffset_eq hlt]
  ring

include hpages in
theorem userOffset_bufPool {i : ℕ}
    (hi : i < ((dpaParamInit p).pool getFreePages virtToPhys .bufPool).objTotal) :
    (dpaParamInit p).userOffset ((dpaParamInit p).pool getFreePages virtToPhys) .bufPool i =
      (dpaParamInit p).poolOffset .bufPool + i * (dpaParamInit p).bufSize ∧
    ((dpaParamInit p).pool getFreePages virtToPhys .bufPool).objSize = (dpaParamInit p).bufSize := by
  have hp : SoundPools ((dpaParamInit p).pool getFreePages virtToPhys) (dpaParamInit p).bufSize :=
    soundPools hpages
  have hsize : ((dpaParamInit p).pool getFreePages virtToPhys .bufPool).objSize =
      (dpaParamInit p).bufSize := by
    obtain ⟨b, hb1, hb16, hb⟩ := paramInit_bufSize p
    rw [(pool_sized p getFreePages virtToPhys .bufPool).objSize, Config.objSize, hb,
      (bufPool_entries hb1 hb16).1]
  refine ⟨?_, hsize⟩
  rw [Config.userOffset, dpaObjOffset_vaddr (hp.sound .bufPool) hi, hp.packed, ← Nat.mul_assoc,
    ← Nat.add_mul, Nat.div_add_mod', hsize]

include hpages hlt in
theorem dpaBuf_eq {rx : RxRing} {y i : ℕ} {b ring : ℤ}
    (hring : ring = b +
      (dpaParamInit p).userOffset ((dpaParamInit p).pool getFreePages virtToPhys) .ringPool y)
    (hy : rx.ringVa = (((dpaParamInit p).pool getFreePages virtToPhys .ringPool).addrTbl y).vaddr)
    (hset : RingSet ((dpaParamInit p).pool getFreePages virtToPhys) (dpaParamInit p).bufSize rx)
    (hi : i < ((dpaParamInit p).pool getFreePages virtToPhys .bufPool).objTotal) :
    dpaBuf ring rx i = b +
      (dpaParamInit p).userOffset ((dpaParamInit p).pool getFreePages virtToPhys) .bufPool i := by
  have hofs := dpaObjOffset_lt hpages hi
  have hle := poolOffset_le (p := p) .bufPool
  obtain ⟨huser, hsize⟩ := userOffset_bufPool hpages hi
  obtain ⟨k, hk1, hk16, hk⟩ := paramInit_bufSize p
  have hword : u16 (dpaParamInit p).bufSize = (dpaParamInit p).bufSize := by
    rw [u16_natCast]
    omega
  have hmul : i * (dpaParamInit p).bufSize < 2 ^ 32 := by
    rw [Config.userOffset] at huser
    omega
  have hpools : u32 (((dpaParamInit p).pool getFreePages virtToPhys .ifPool).memTotal +
      ((dpaParamInit p).pool getFreePages virtToPhys .ringPool).memTotal) =
      (dpaParamInit p).poolOffset .bufPool := by
    rw [memTotal_eq hlt, memTotal_eq hlt, ← Nat.cast_add, u32_natCast]
    · rfl
    · rw [Config.poolOffset] at hle
      omega
  rw [dpaBuf, hring, hset.bufOfs, hset.bufSize, hword, hpools, hy, dpaRingOffset_eq hlt, huser,
    ← Nat.cast_mul, u32_natCast hmul]
  push_cast
  ring

end

/-- What a process that has mapped the module at `b` finds behind its macros, for interface `r` and
file descriptor `d`: the interface object, its rings and the buffers, byte for byte. -/
structure UserView (pools : PoolId → DpaObjPool) (virtToPhys : ℕ → ℕ) (b : ℤ) (r : Registry)
    (d : DpaIf) : Prop where
  ifObj : ∀ t < (pools .ifPool).objSize,
    userPhys (dpaMmap allOk pools).1 b (dpaIf b (regOffset pools d) + t) =
      some (virtToPhys (d.va + t))
  ring : ∀ j < r.dadp.numRxRings, ∀ t < (pools .ringPool).objSize,
    userPhys (dpaMmap allOk pools).1 b (dpaRxRing (dpaIf b (regOffset pools d)) d j + t) =
      some (virtToPhys ((r.dadp.rxRings j).ringVa + t))
  buf : ∀ j < r.dadp.numRxRings, ∀ i < (pools .bufPool).objTotal, ∀ t < (pools .bufPool).objSize,
    userPhys (dpaMmap allOk pools).1 b
        (dpaBuf (dpaRxRing (dpaIf b (regOffset pools d)) d j) (r.dadp.rxRings j) i + t) =
      some (((pools .bufPool).addrTbl i).paddr + t)

section

variable {p : Params} {getFreePages : PoolId → ℕ → ℕ} {virtToPhys : ℕ → ℕ}
  (hpages : Pages getFreePages (dpaParamInit p))
  (hdirect : DirectMap getFreePages virtToPhys (dpaParamInit p))
  (hlt : (dpaParamInit p).bytes < 2 ^ 31)

theorem attached_linked (pools : PoolId → DpaObjPool) (bufSize nrx ndesc : ℕ) :
    (dpaAttach nrx ndesc).Linked pools bufSize :=
  ⟨rfl, fun h ↦ absurd rfl h, nofun, nofun⟩

include hpages hdirect in
/-- The bytes of an object lie one after another in physical memory. -/
theorem paddr_add {q : PoolId} {x t : ℕ}
    (hx : x < ((dpaParamInit p).pool getFreePages virtToPhys q).objTotal)
    (ht : t < ((dpaParamInit p).pool getFreePages virtToPhys q).objSize) :
    virtToPhys ((((dpaParamInit p).pool getFreePages virtToPhys q).addrTbl x).vaddr + t) =
      (((dpaParamInit p).pool getFreePages virtToPhys q).addrTbl x).paddr + t := by
  have hsound : ((dpaParamInit p).pool getFreePages virtToPhys q).Sound :=
    (soundPools hpages).sound q
  have hsized := pool_sized p getFreePages virtToPhys q
  have hc := hsound.div_lt hx
  have hmod := hsound.mod_le x
  rw [hsized.clusters] at hc
  rw [hsized.clstSize] at hmod
  rw [pool_item hx, clusterItem]
  dsimp only
  rw [Nat.add_assoc, hdirect.linear q _ hc _ (by omega), hdirect.linear q _ hc _ (by omega),
    Nat.add_assoc]

include hpages hdirect hlt in
/-- A linked interface looks to the user as it looks to the kernel. -/
theorem Registry.Linked.userView {r : Registry}
    (hr : r.Linked ((dpaParamInit p).pool getFreePages virtToPhys) (dpaParamInit p).bufSize)
    {d : DpaIf} (hd : d ∈ r.difs) (b : ℤ) :
    UserView ((dpaParamInit p).pool getFreePages virtToPhys) virtToPhys b r d := by
  obtain ⟨x, hx, hva⟩ := (hr.entry d hd).object
  have hrings := hr.rings (List.ne_nil_of_mem hd)
  have hring : ∀ j < r.dadp.numRxRings, ∃ y,
      y < ((dpaParamInit p).pool getFreePages virtToPhys .ringPool).objTotal ∧
      (r.dadp.rxRings j).ringVa =
        (((dpaParamInit p).pool getFreePages virtToPhys .ringPool).addrTbl y).vaddr ∧
      dpaRxRing (dpaIf b (regOffset ((dpaParamInit p).pool getFreePages virtToPhys) d)) d j = b +
        (dpaParamInit p).userOffset ((dpaParamInit p).pool getFreePages virtToPhys) .ringPool y := by
    intro j hj
    obtain ⟨y, hy, hringVa⟩ := (hrings j hj).entry.object
    exact ⟨y, hy, hringVa, dpaRxRing_eq hpages hlt hx hva hringVa (hr.ringOfs d hd j hj) b⟩
  refine ⟨fun t ht ↦ ?_, fun j hj t ht ↦ ?_, fun j hj i hi t ht ↦ ?_⟩
  · have hmap := userPhys_object hpages hdirect hlt hx ht b
    rw [dpaIf_regOffset hpages hlt hx hva, hva, ← hmap, Nat.cast_add, add_assoc]
  · obtain ⟨y, hy, hringVa, heq⟩ := hring j hj
    have hmap := userPhys_object hpages hdirect hlt hy ht b
    rw [heq, hringVa, ← hmap, Nat.cast_add, add_assoc]
  · obtain ⟨y, hy, hringVa, heq⟩ := hring j hj
    have hmap := userPhys_object hpages hdirect hlt hi ht b
    rw [dpaBuf_eq hpages hlt heq hringVa (hrings j hj) hi, ← paddr_add hpages hdirect hi ht, ← hmap,
      Nat.cast_add, add_assoc]

end

/-- Kernel and user agree on all addresses, whatever has been registered and unregistered. -/
theorem user_view_agrees {p : Params} {getFreePages : PoolId → ℕ → ℕ} {virtToPhys : ℕ → ℕ}
    (hpages : Pages getFreePages (dpaParamInit p))
    (hdirect : DirectMap getFreePages virtToPhys (dpaParamInit p))
    (hlt : (dpaParamInit p).bytes < 2 ^ 31) :
    ∃ a, dpaMemInit getFreePages virtToPhys (dpaParamInit p) = some a ∧
      (∀ l cs h, run (hostExec a.pools (dpaParamInit p).bufSize) cs (Host.start a l) = some h →
        ∀ b, ∀ r ∈ h.interfaces, ∀ d ∈ r.difs, UserView a.pools virtToPhys b r d) ∧
      (∀ i < (a.pools .bufPool).objTotal,
        dpaBufIndex (a.pools .bufPool) ((a.pools .bufPool).addrTbl i).vaddr = i) ∧
      ∀ q, ∀ x < (a.pools q).objTotal, ∀ y < (a.pools q).objTotal, x ≠ y →
        ((a.pools q).addrTbl x).vaddr + (a.pools q).objSize ≤ ((a.pools q).addrTbl y).vaddr ∨
        ((a.pools q).addrTbl y).vaddr + (a.pools q).objSize ≤ ((a.pools q).addrTbl x).vaddr := by
  obtain ⟨a, ha, hpools, -⟩ := dpaMemInit_eq p virtToPhys hpages
  have hp : SoundPools ((dpaParamInit p).pool getFreePages virtToPhys) (dpaParamInit p).bufSize :=
    soundPools hpages
  refine ⟨a, ha, fun l cs h hrun b r hr d hd ↦ ?_, fun i hi ↦ ?_, fun q x hx y hy hxy ↦ ?_⟩
  · have hstart : ∀ r ∈ (Host.start a l).interfaces,
        r.Linked a.pools (dpaParamInit p).bufSize := by
      intro r hr
      obtain ⟨x, -, rfl⟩ := List.mem_map.1 hr
      exact attached_linked _ _ _ _
    have hlinked := run_linked hstart hrun r hr
    rw [hpools] at hlinked ⊢
    exact hlinked.userView hpages hdirect hlt hd b
  · rw [hpools] at hi ⊢
    exact dpaBufIndex_vaddr hp hi
  · rw [hpools] at hx hy ⊢
    exact vaddr_apart (hp.sound q) hx hy hxy

theorem user_view_agrees_crowded : ∃ a,
    dpaMemInit farPages id (dpaParamInit crowded) = some a ∧
    ∃ h, run (hostExec a.pools (dpaParamInit crowded).bufSize) [.register 0 true]
        (Host.start a [(2, 256), (2, 256)]) = some h ∧
      ∃ r ∈ h.interfaces, ∃ d ∈ r.difs, ∀ b, UserView a.pools id b r d := by
  have hdirect : DirectMap farPages id (dpaParamInit crowded) :=
    ⟨fun q n _ ↦ ⟨(n + 1) * 256, by rw [id, farPages, pageSize]; ring⟩, fun _ _ _ _ _ ↦ rfl⟩
  obtain ⟨a, ha, hview, -⟩ :=
    user_view_agrees (farPages_pages crowded) hdirect (by decide +kernel)
  obtain ⟨a', ha', hc⟩ := crowded_loads
  obtain rfl : a' = a := Option.some.inj (ha'.symm.trans ha)
  obtain ⟨h, r, hexec, -, hset, hlen, -⟩ := crowded_idle hc (.start _)
    (h := Host.start a' [(2, 256), (2, 256)]) (n := 0) (by simp [Host.start, dpaAttach]) rfl rfl rfl
  have hrun : run (hostExec a'.pools (dpaParamInit crowded).bufSize) [.register 0 true]
      (Host.start a' [(2, 256), (2, 256)]) = some h := by
    rw [run_cons hexec]
    rfl
  have hmem : r ∈ h.interfaces := by
    rw [hset]
    exact List.mem_set Nat.zero_lt_two _
  obtain ⟨d, hd⟩ := List.exists_mem_of_length_pos (hlen ▸ Nat.one_pos)
  exact ⟨a', ha', h, hrun, r, hmem, d, hd, fun b ↦ hview _ _ h hrun b r hmem d hd⟩

end Dpa.Kernel
